import DsaStdexec.Engine.TaskQueue
import DsaStdexec.Lib.Machine
import DsaStdexec.Operation.Mixin
import Mathlib.Logic.Function.Basic

/-!
# Operations in an engine

`start` and `notify` of `DsaOperationMixin` with the task queue and the device, driven by one thread.
`submit` may throw, may poll any number of times before it takes the descriptor (its own back-pressure
loop, or the loops of a ring submitter), and then rings and pushes. A receiver that is signalled runs
any code: it may start other operations and poll, so the calls that have not returned form a stack.
The device answers the descriptors that it was given in any order and at any time; a submitter that
batches gives them to the device later, which is one of these times.
-/

namespace DsaStdexec.Engine

open DsaStdexec.Lib DsaStdexec.Operation

/-- What `submit` may throw. -/
inductive Exception where
  | dsa (e : DsaError)
  | std (what : String)
  | unknown

/-- A call of the receiver. -/
inductive Completion (ρ : Type) where
  | setValue (r : ρ)
  | setError (e : Exception)

inductive Call (ι : Type) where
  /-- `submit(op, desc)` before the doorbell; `starting` tells `start` from the retry in `notify`. -/
  | submitting (i : ι) (starting : Bool)
  /-- `submit` between the doorbell and `task_queue_.push`. -/
  | pushing (i : ι)
  /-- `poll` has taken the completed operations out of the queue and has still to notify these. -/
  | polling (todo : List ι)
  /-- A receiver runs. -/
  | receiver

/-- What has happened to an operation. -/
inductive Event where
  | rejected
  | thrown
  | rung (record : CompletionRecord)
  | answered (record : CompletionRecord)
  | polled (record : CompletionRecord)

/-- The events after which the receiver has been signalled. -/
def Event.final : Event → Bool
  | .rejected | .thrown => true
  | .rung _ | .answered _ => false
  | .polled c => c.code ≠ compPageFaultNobof

/-- A completion record after `memset(comp, 0, sizeof(*comp))`. -/
def zeroRecord : CompletionRecord := ⟨0, 0, 0, 0, 0⟩

section

variable {ι : Type} {ρ : ι → Type}

/-- `signals` are the calls of each receiver, oldest first. `started` and `history` are not in the source:
they record which operations have been started and what has happened to them. -/
structure OperationSystem (ρ : ι → Type) (Q : TaskQueue ι) where
  desc : ι → HwDesc
  comp : ι → CompletionRecord
  signals : (i : ι) → List (Completion (ρ i))
  started : ι → Bool
  history : ι → List Event
  queue : Q.Store
  hw : List ι
  stack : List (Call ι)

inductive OperationAction (ι : Type) where
  | start (i : ι)
  | poll
  /-- The pending `submit` throws. -/
  | throw (e : Exception)
  /-- The pending `submit` polls. -/
  | submitPoll
  /-- The pending `submit` takes the descriptor. -/
  | ring
  /-- The pending `submit` pushes, or the pending `poll` notifies the next operation or returns. -/
  | advance
  | receiverReturn
  /-- The device writes the completion record of an operation. -/
  | complete (i : ι) (record : CompletionRecord)

/-- The operations that a call is going to submit, to push or to notify. -/
def Call.live : Call ι → List ι
  | .submitting i _ | .pushing i => [i]
  | .polling todo => todo
  | .receiver => []

namespace OperationSystem

variable {Q : TaskQueue ι}

def init : OperationSystem ρ Q where
  desc := fun _ => HwDesc.zero
  comp := fun _ => zeroRecord
  signals := fun _ => []
  started := fun _ => false
  history := fun _ => []
  queue := Q.empty
  hw := []
  stack := []

variable (s : OperationSystem ρ Q)

def callable : Bool :=
  match s.stack with
  | [] => true
  | .receiver :: _ => true
  | _ => false

/-- `check_completion` -/
def completed (i : ι) : Bool := (s.comp i).status ≠ 0

/-- `poll` up to the first notification. -/
def startPoll : OperationSystem ρ Q :=
  { s with
    queue := (Q.sweep s.completed s.queue).2
    stack := .polling (Q.sweep s.completed s.queue).1 :: s.stack }

variable [DecidableEq ι]

/-- `set_value` or `set_error`, called from the call that is left on the stack. -/
def signal (i : ι) (c : Completion (ρ i)) (e : Event) (stack : List (Call ι)) : OperationSystem ρ Q :=
  { s with
    signals := Function.update s.signals i (s.signals i ++ [c])
    history := Function.update s.history i (s.history i ++ [e])
    stack := .receiver :: stack }

variable (ops : (i : ι) → DsaOperation (ρ i))

/-- The addresses of the completion records do not matter here. -/
def start (i : ι) : OperationSystem ρ Q :=
  let s :=
    { s with
      desc := Function.update s.desc i HwDesc.zero
      comp := Function.update s.comp i zeroRecord
      started := Function.update s.started i true }
  match (ops i).preStartValidate with
  | some e => s.signal i (.setError (.dsa e)) .rejected s.stack
  | none =>
      { s with
        desc := Function.update s.desc i ((ops i).fillDescriptor 0)
        stack := .submitting i true :: s.stack }

/-- What the `catch` blocks of `start` and of `notify` send to the receiver. -/
def caught (starting : Bool) (e : Exception) : Exception :=
  if starting then
    match e with
    | .dsa e => .dsa e
    | .std what => .dsa (dsaSubmitError what)
    | .unknown => .dsa (dsaSubmitError "unknown error")
  else e

def notify (i : ι) (stack : List (Call ι)) : OperationSystem ρ Q :=
  match (ops i).notify (s.desc i) (s.comp i) with
  | .value r => s.signal i (.setValue r) (.polled (s.comp i)) stack
  | .error e => s.signal i (.setError (.dsa e)) (.polled (s.comp i)) stack
  | .resubmit d =>
      { s with
        desc := Function.update s.desc i d
        comp := Function.update s.comp i zeroRecord
        history := Function.update s.history i (s.history i ++ [.polled (s.comp i)])
        stack := .submitting i false :: stack }

def advance : Option (OperationSystem ρ Q) :=
  match s.stack with
  | .pushing i :: rest => (Q.push s.queue i).map fun q => { s with queue := q, stack := rest }
  | .polling [] :: rest => some { s with stack := rest }
  | .polling (i :: todo) :: rest => some (s.notify ops i (.polling todo :: rest))
  | _ => none

def submitting (f : ι → Bool → List (Call ι) → OperationSystem ρ Q) : Option (OperationSystem ρ Q) :=
  match s.stack with
  | .submitting i starting :: rest => some (f i starting rest)
  | _ => none

/-- An operation is started once. -/
def step (s : OperationSystem ρ Q) : OperationAction ι → Option (OperationSystem ρ Q)
  | .start i => if s.callable ∧ s.started i = false then some (s.start ops i) else none
  | .poll => if s.callable then some s.startPoll else none
  | .throw e => s.submitting fun i starting rest =>
      s.signal i (.setError (caught starting e)) .thrown rest
  | .submitPoll => s.submitting fun _ _ _ => s.startPoll
  | .ring => s.submitting fun i _ rest =>
      { s with
        history := Function.update s.history i (s.history i ++ [.rung (s.comp i)])
        hw := i :: s.hw
        stack := .pushing i :: rest }
  | .advance => s.advance ops
  | .receiverReturn =>
      match s.stack with
      | .receiver :: rest => some { s with stack := rest }
      | _ => none
  | .complete i record =>
      if i ∈ s.hw ∧ record.status ≠ 0 then
        some
          { s with
            hw := s.hw.erase i
            comp := Function.update s.comp i record
            history := Function.update s.history i (s.history i ++ [.answered record]) }
      else none

def machine (Q : TaskQueue ι) : Machine (OperationSystem ρ Q) (OperationAction ι) where
  init := init
  step := step ops

end OperationSystem

end

end DsaStdexec.Engine

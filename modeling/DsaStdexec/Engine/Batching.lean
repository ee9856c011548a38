import DsaStdexec.Submitter.Device

/-!
# `DsaEngine` over the batching submitters

`submit(op, desc)` polls while `inflight() >= wq_capacity()` and then calls `submit_descriptor`. `poll`
calls `pre_poll`, which may ring a doorbell, and then `task_queue_.poll()`, whose callbacks may call the
engine again; a ring submitter runs them from its own loops as well. `notify_complete` of a batching
submitter does nothing. Which operations a poll finds completed does not matter here: any callback may
run in any poll.

The device takes the doorbells out of the work queue in their order, and answers those that it has taken
in any order.
-/

namespace DsaStdexec.Engine

open DsaStdexec.Lib DsaStdexec.Submitter

/-- What `DsaEngine` calls of a batching submitter, as actions of its machine. -/
structure Driven (σ α D A R : Type*) extends Port σ α D A R where
  submitDescriptor : D → α
  prePoll : α
  /-- The innermost call of `submit_descriptor` goes on. -/
  advance : α
  /-- `poll_fn_` returns to the loop that called it. -/
  pollReturn : Option α
  /-- The number of calls of `submit_descriptor` that have not returned. -/
  running : σ → Nat
  /-- The innermost of them is in `poll_fn_`. -/
  polling : σ → Bool
  inflight : σ → Nat
  wqCapacity : σ → Nat
  isComplete_submitDescriptor : ∀ d, isComplete (submitDescriptor d) = false
  isComplete_prePoll : isComplete prePoll = false
  isComplete_advance : isComplete advance = false
  isComplete_pollReturn : ∀ b, pollReturn = some b → isComplete b = false

inductive BatchFrame (D : Type*) where
  /-- `submit` is about to test its gate. -/
  | gate (d : D)
  /-- `poll` is in `task_queue_.poll()`. -/
  | poll
  /-- `submit` is in `submit_descriptor`. -/
  | call

structure BatchingEngine (σ D : Type*) where
  sub : σ
  stack : List (BatchFrame D)

inductive EngineAction (D R : Type*) where
  | submit (d : D)
  | poll
  | advance
  | pollReturn
  | complete (r : R) (status : UInt8)

namespace BatchingEngine

variable {σ α D A R : Type*} (P : Driven σ α D A R) (s : BatchingEngine σ D)

/-- The engine is called from outside or by a callback. -/
def callable : Bool :=
  match s.stack with
  | [] | .poll :: _ => true
  | .call :: _ => P.polling s.sub
  | .gate _ :: _ => false

def gateClosed : Bool := 0 < P.wqCapacity s.sub && P.wqCapacity s.sub ≤ P.inflight s.sub

/-- What a step does in the submitter. -/
def calls : EngineAction D R → Option α
  | .submit _ => none
  | .poll => some P.prePoll
  | .advance =>
      match s.stack with
      | .gate d :: _ => if s.gateClosed P then some P.prePoll else some (P.submitDescriptor d)
      | .call :: _ => some P.advance
      | _ => none
  | .pollReturn =>
      match s.stack with
      | .call :: _ => P.pollReturn
      | _ => none
  | .complete r status => some (P.complete r status)

/-- The control flow of the engine around a step of the submitter to `t`. -/
def resume (t : σ) : EngineAction D R → Option (List (BatchFrame D))
  | .submit d => if s.callable P then some (.gate d :: s.stack) else none
  | .poll => if s.callable P then some (.poll :: s.stack) else none
  | .advance =>
      match s.stack with
      | .gate _ :: rest => if s.gateClosed P then some (.poll :: s.stack) else some (.call :: rest)
      | .call :: rest => some (if P.running t < P.running s.sub then rest else s.stack)
      | _ => none
  | .pollReturn =>
      match s.stack with
      | .poll :: rest => some rest
      | .call :: _ => some s.stack
      | _ => none
  | .complete _ _ => some s.stack

def step (s : BatchingEngine σ D) (a : EngineAction D R) : Option (BatchingEngine σ D) :=
  match s.calls P a with
  | none => (s.resume P s.sub a).map fun stack => { s with stack := stack }
  | some b => (P.machine.step s.sub b).bind fun t =>
      (s.resume P t a).map fun stack => { sub := t, stack := stack }

def machine : Machine (BatchingEngine σ D) (EngineAction D R) where
  init := { sub := P.machine.init, stack := [] }
  step := step P

def port : Port (BatchingEngine σ D) (EngineAction D R) D A R where
  machine := machine P
  complete := .complete
  isComplete
    | .complete _ _ => true
    | _ => false
  desc?
    | .submit d => some d
    | _ => none
  portal := fun s => P.portal s.sub
  addresses := fun s t => P.addresses s.sub t.sub
  entry := fun s => P.entry s.sub
  status := fun s => P.status s.sub
  setStatus := fun s r status => { s with sub := P.setStatus s.sub r status }
  staged := fun s => P.staged s.sub
  pending := fun s => P.pending s.sub ++ s.stack.filterMap fun
    | .gate d => some d
    | _ => none

end BatchingEngine

/-! ## The work queue -/

/-- `removed` is the number of doorbells that the device has taken out of the work queue. -/
structure WorkQueue {σ α D A R : Type*} (P : Port σ α D A R) where
  world : P.State
  removed : Nat

inductive QueueAction (α : Type*) where
  | act (a : MarketAction α Nat Answer)
  | remove

namespace WorkQueue

variable {σ α D A R : Type*} {P : Port σ α D A R}

def occupancy (q : WorkQueue P) : Nat := q.world.loans.length - q.removed

/-- The device answers only what it has taken. -/
def permits (q : WorkQueue P) : MarketAction α Nat Answer → Bool
  | .giveBack j _ => j < q.removed
  | _ => true

def step (q : WorkQueue P) : QueueAction α → Option (WorkQueue P)
  | .act a =>
      if q.permits a then (P.system.step q.world a).map fun w => { q with world := w } else none
  | .remove =>
      if q.removed < q.world.loans.length then some { q with removed := q.removed + 1 } else none

def machine (P : Port σ α D A R) : Machine (WorkQueue P) (QueueAction α) where
  init := { world := P.system.init, removed := 0 }
  step := step

end WorkQueue

/-! ## The submitters -/

section Submitters

variable {D : Type*} [Inhabited D]

def fixedDriven (args : InitArgs) : Driven (FixedSystem D) (FixedAction D) D Nat Nat where
  toPort := FixedSystem.port args
  submitDescriptor := .submit
  prePoll := .prePoll
  advance := .advance
  pollReturn := none
  running := fun s => if s.call.isSome then 1 else 0
  polling := fun _ => false
  inflight := fun s => s.ring.direct.inflight
  wqCapacity := fun s => s.ring.direct.wqCapacity
  isComplete_submitDescriptor := fun _ => rfl
  isComplete_prePoll := rfl
  isComplete_advance := rfl
  isComplete_pollReturn := nofun

def ringDriven (k : RingKind) (args : InitArgs) : Driven (RingSystem D) (RingAction D) D Nat Nat where
  toPort := RingSystem.port k args
  submitDescriptor := .submit
  prePoll := .prePoll
  advance := .advance
  pollReturn := some .pollReturn
  running := fun s => s.stack.length
  polling := fun s => s.callable
  inflight := fun s => s.ring.direct.inflight
  wqCapacity := fun s => s.ring.direct.wqCapacity
  isComplete_submitDescriptor := fun _ => rfl
  isComplete_prePoll := rfl
  isComplete_advance := rfl
  isComplete_pollReturn := fun _ h => by cases h; rfl

end Submitters

end DsaStdexec.Engine

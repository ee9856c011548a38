import DsaStdexec.Engine.DirectEngine
import DsaStdexec.Submitter.Shared

/-!
# `DsaEngine` with its background poller

One thread calls `submit`, the other one is the thread that the constructor starts, and calls `poll` again
and again. The queue is one that two threads may use: a call of its `poll` takes completed operations one
by one, whatever the other thread does in between. The submitter is used access by access.
-/

namespace DsaStdexec.Engine

open DsaStdexec.Lib DsaStdexec.Submitter

instance : Inhabited Op := ⟨⟨0, false⟩⟩

inductive Thread where
  | user
  | poller
  deriving DecidableEq

def Thread.other : Thread → Thread
  | .user => .poller
  | .poller => .user

/-- Where a thread is. `caller` is the operation of the `submit` whose loop has called `poll`, and `none` on
the background thread. -/
inductive Stage where
  | idle
  /-- `submit(op, desc)` is about to test `inflight() >= cap`. -/
  | gating (op : Op)
  /-- `submit_descriptor` -/
  | submitting (op : Op)
  /-- `task_queue_.push` -/
  | pushing (op : Op)
  /-- `pre_poll` -/
  | prePolling (caller : Option Op)
  /-- `task_queue_.poll`, which has notified `taken`. -/
  | taking (caller : Option Op) (taken : List Op)
  /-- `notify_complete` -/
  | reporting (caller : Option Op) (taken : List Op)
  /-- `drain`, in the destructor. -/
  | draining
  | finished

namespace Stage

/-- Where `poll` returns to. -/
def back : Option Op → Stage
  | none => .idle
  | some op => .gating op

/-- Where the thread is after the call of the submitter. -/
def next : Stage → Stage
  | .submitting op => .pushing op
  | .prePolling caller => .taking caller []
  | .reporting caller _ => back caller
  | .draining => .finished
  | stage => stage

/-- The descriptor that the thread hands to the submitter when it calls it. -/
def hands : Stage → List Op
  | .submitting op => [op]
  | _ => []

/-- The destructor runs; it has joined the background thread. -/
def closing : Stage → Bool
  | .draining | .finished => true
  | _ => false

/-- The call of the submitter that a stage is for. -/
def code (S : SharedSubmitter Op) : Stage → Option (Program S.Memory Unit)
  | .submitting op => some (S.submitDescriptor op)
  | .prePolling _ => some S.prePoll
  | .reporting _ taken => some (S.notifyComplete taken.length)
  | .draining => some S.drain
  | _ => none

end Stage

/-- `call` is what is left of the call of the submitter, as long as accesses are left. -/
structure Control (σ : Type) where
  stage : Stage
  call : Option (Program σ Unit)

def Control.settle {σ : Type} (stage : Stage) (p : Program σ Unit) : Control σ :=
  if p.returned then ⟨stage.next, none⟩ else ⟨stage, some p⟩

/-- `handed` are the descriptors that `submit_descriptor` was called with, `reported` the operations that
the calls of `task_queue_.poll()` have counted, and `answered` those whose descriptor the device has
answered, each as often as that happened. -/
structure ThreadedEngine (S : SharedSubmitter Op) where
  sub : S.Memory
  queue : List Op
  status : Op → UInt8
  threads : Thread → Control S.Memory
  handed : List Op
  reported : List Op
  answered : List Op

inductive ThreadAction where
  /-- The user thread calls `submit(op, desc)`; `desc` is null for an operation without a descriptor. -/
  | submit (op : Op)
  /-- The background thread calls `poll`. -/
  | poll
  /-- The destructor. -/
  | drain
  /-- The next step of a thread. -/
  | step (t : Thread)
  /-- `task_queue_.poll()` takes an operation and notifies it. -/
  | take (t : Thread) (op : Op)
  /-- The device writes the completion record of an operation. -/
  | complete (op : Op) (status : UInt8)
  | record (b : Bool) (status : UInt8)

namespace ThreadedEngine

variable {S : SharedSubmitter Op}

def init (S : SharedSubmitter Op) : ThreadedEngine S where
  sub := S.init
  queue := []
  status := fun _ => 0
  threads := fun _ => ⟨.idle, none⟩
  handed := []
  reported := []
  answered := []

variable (s : ThreadedEngine S)

def rung : List Op := (S.portal s.sub).flatMap Doorbell.executed

/-- The test of the loop in `submit`. -/
def gateClosed : Bool := 0 < S.wqCapacity s.sub && S.wqCapacity s.sub ≤ S.inflight s.sub

def setControl (t : Thread) (c : Control S.Memory) : ThreadedEngine S :=
  { s with threads := Function.update s.threads t c }

/-- The next step of a thread that is not in a call of the submitter and is not about to begin one. -/
def move (t : Thread) : Stage → Option (ThreadedEngine S)
  | .gating op =>
      some (s.setControl t ⟨if s.gateClosed then .prePolling (some op) else .submitting op, none⟩)
  | .pushing op => some { s.setControl t ⟨.idle, none⟩ with queue := op :: s.queue }
  | .taking caller taken =>
      some { s.setControl t ⟨.reporting caller taken, none⟩ with reported := s.reported ++ taken }
  | _ => none

/-- A call of the submitter begins. -/
def enter (t : Thread) (p : Program S.Memory Unit) : ThreadedEngine S :=
  { s.setControl t (.settle (s.threads t).stage p) with
    handed := s.handed ++ (s.threads t).stage.hands }

/-- The next access of a call. -/
def access (t : Thread) (p : Program S.Memory Unit) : ThreadedEngine S :=
  { s.setControl t (.settle (s.threads t).stage (p.step s.sub).1) with sub := (p.step s.sub).2 }

def advance (t : Thread) : Option (ThreadedEngine S) :=
  match (s.threads t).call, (s.threads t).stage.code S with
  | some p, _ => some (s.access t p)
  | none, some p => some (s.enter t p)
  | none, none => s.move t (s.threads t).stage

/-- The operation clears its completion record before it calls `submit`. -/
def submit (op : Op) : ThreadedEngine S :=
  { s.setControl .user ⟨if op.hasDescriptor then .gating op else .pushing op, none⟩ with
    status := Function.update s.status op (if op.hasDescriptor then 0 else 1) }

def take (t : Thread) (op : Op) : Option (ThreadedEngine S) :=
  match (s.threads t).stage with
  | .taking caller taken =>
      if op ∈ s.queue ∧ s.status op ≠ 0 then
        some { s.setControl t ⟨.taking caller (taken ++ [op]), none⟩ with queue := s.queue.erase op }
      else none
  | _ => none

def step (s : ThreadedEngine S) : ThreadAction → Option (ThreadedEngine S)
  | .submit op =>
      match (s.threads .user).stage with
      | .idle => if op ∉ s.queue then some (s.submit op) else none
      | _ => none
  | .poll =>
      match (s.threads .poller).stage with
      | .idle =>
          if (s.threads .user).stage.closing then none
          else some (s.setControl .poller ⟨.prePolling none, none⟩)
      | _ => none
  | .drain =>
      match (s.threads .user).stage, (s.threads .poller).stage with
      | .idle, .idle => some (s.setControl .user ⟨.draining, none⟩)
      | _, _ => none
  | .step t => s.advance t
  | .take t op => s.take t op
  | .complete op status =>
      if s.answered.count op < s.rung.count op ∧ status ≠ 0 then
        some { s with status := Function.update s.status op status, answered := s.answered ++ [op] }
      else none
  | .record b status => some { s with sub := S.record b status s.sub }

def machine (S : SharedSubmitter Op) : Machine (ThreadedEngine S) ThreadAction where
  init := init S
  step := step

/-- No thread begins a call of the submitter while the other one is in one. -/
def Exclusive (s : ThreadedEngine S) : ThreadAction → Bool
  | .step t =>
      match (s.threads t).call, (s.threads t).stage.code S with
      | none, some p => p.returned || (s.threads t.other).call.isNone
      | _, _ => true
  | _ => true

/-- `submit` is called with a descriptor. -/
def Supplied : ThreadAction → Bool
  | .submit op => op.hasDescriptor
  | _ => true

end ThreadedEngine

end DsaStdexec.Engine

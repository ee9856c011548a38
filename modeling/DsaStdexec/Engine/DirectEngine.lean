import DsaStdexec.Engine.TaskQueue
import DsaStdexec.Lib.Machine
import DsaStdexec.Submitter.Direct
import Mathlib.Logic.Function.Basic

/-!
# `DsaEngine` over `DirectSubmitter`

One thread uses the engine. `submit` polls while the work queue is full, `poll` notifies the completed
operations one by one, and a callback may call `submit` and `poll` again, so the calls that have not
returned form a stack. The device answers the descriptors it was given in any order.
-/

namespace DsaStdexec.Engine

open DsaStdexec.Lib DsaStdexec.Submitter

/-- An operation. `ScheduleOperation` has no descriptor, and its completion record reads as answered
from the start. -/
structure Op where
  id : Nat
  hasDescriptor : Bool
  deriving DecidableEq, Repr

inductive Frame where
  /-- `submit(op, desc)` is about to test `inflight() >= cap`. -/
  | submitting (op : Op)
  /-- `submit` is about to push the operation. -/
  | pushing (op : Op)
  /-- `task_queue_.poll()` has taken the completed operations out of the queue. It has still to notify
  `todo`; `current` is the operation whose callback is running. -/
  | polling (todo : List Op) (current : Option Op) (notified : List Op)

/-- `status` is the byte of an operation's completion record; `hw` are the descriptors that the device
was given and has not answered. -/
structure DirectEngine (Q : TaskQueue Op) where
  submitter : DirectSubmitter Op
  queue : Q.Store
  status : Op → UInt8
  hw : List Op
  stack : List Frame

inductive Action where
  /-- `submit(op, desc)`, or `submit(op)` for an operation without a descriptor. -/
  | submit (op : Op)
  | poll
  /-- The innermost call goes on. -/
  | advance
  | callbackReturn
  /-- The device writes the completion record of an operation. -/
  | complete (op : Op) (status : UInt8)

/-- The operations that a call is going to put into the queue or to notify. -/
def Frame.live : Frame → List Op
  | .submitting op | .pushing op => [op]
  | .polling todo _ _ => todo

namespace DirectEngine

variable {Q : TaskQueue Op}

def init (wq : Wq) : DirectEngine Q where
  submitter := DirectSubmitter.init .dedicated (some wq)
  queue := Q.empty
  status := fun _ => 0
  hw := []
  stack := []

variable (s : DirectEngine Q)

def callable : Bool :=
  match s.stack with
  | [] => true
  | .polling _ (some _) _ :: _ => true
  | _ => false

/-- The test of the loop in `submit`. -/
def gateClosed : Bool :=
  0 < s.submitter.wqCapacity && s.submitter.wqCapacity ≤ s.submitter.inflight

/-- The operations that are with the queue or with a call. None of them is submitted again before it
is notified. -/
def live : List Op := Q.contents s.queue ++ s.stack.flatMap Frame.live

/-- `check_completion` -/
def completed (op : Op) : Bool := s.status op ≠ 0

/-- `poll` up to the first notification; `pre_poll` does nothing here. -/
def startPoll : DirectEngine Q :=
  { s with
    queue := (Q.sweep s.completed s.queue).2
    stack := .polling (Q.sweep s.completed s.queue).1 none [] :: s.stack }

/-- The operation clears its completion record before it calls `submit`. -/
def submit (op : Op) : DirectEngine Q :=
  if op.hasDescriptor then
    { s with status := Function.update s.status op 0, stack := .submitting op :: s.stack }
  else
    { s with status := Function.update s.status op 1, stack := .pushing op :: s.stack }

def advance : Option (DirectEngine Q) :=
  match s.stack with
  | .submitting op :: rest =>
      if s.gateClosed then some s.startPoll
      else some
        { s with
          submitter := s.submitter.submitDescriptor (.single op)
          hw := op :: s.hw
          stack := .pushing op :: rest }
  | .pushing op :: rest => (Q.push s.queue op).map fun q => { s with queue := q, stack := rest }
  | .polling [] none notified :: rest =>
      some
        { s with
          submitter := s.submitter.notifyComplete notified.length
          stack := rest }
  | .polling (op :: todo) none notified :: rest =>
      some { s with stack := .polling todo (some op) notified :: rest }
  | _ => none

def callbackReturn : Option (DirectEngine Q) :=
  match s.stack with
  | .polling todo (some op) notified :: rest =>
      some { s with stack := .polling todo none (notified ++ [op]) :: rest }
  | _ => none

def step (s : DirectEngine Q) : Action → Option (DirectEngine Q)
  | .submit op => if s.callable ∧ op ∉ s.live then some (s.submit op) else none
  | .poll => if s.callable then some s.startPoll else none
  | .advance => s.advance
  | .callbackReturn => s.callbackReturn
  | .complete op status =>
      if op ∈ s.hw ∧ status ≠ 0 then
        some { s with hw := s.hw.erase op, status := Function.update s.status op status }
      else none

def machine (Q : TaskQueue Op) (wq : Wq) : Machine (DirectEngine Q) Action where
  init := init wq
  step := step

end DirectEngine

end DsaStdexec.Engine

import DsaStdexec.Lib.Machine
import Mathlib.Logic.Function.Basic

/-!
# `PollingRunLoop`

The tasks are linked through their fields `next` into a circle that begins and ends at `head_`. A
pointer to a task is `some t`, and `none` is the address of `head_`. The loop is cut at the lock of the
queue and where it calls out; between any two of its steps tasks are pushed and `finish` and `reset` are
called, by the task that is executed, by the poll function or by another thread.
-/

namespace DsaStdexec.Engine

open DsaStdexec.Lib

/-- The union of a task: the function pointer of a task that can be executed, the tail in `head_`. -/
inductive Overlay (T : Type*) where
  | executeFn
  | tail (p : Option T)

structure Task (T : Type*) where
  next : Option T
  overlay : Overlay T

/-- Where `run` is. -/
inductive RunStage (T : Type*) where
  | stopped
  | testing
  | popping
  | popped (t : T)
  | executing (t : T)
  | polling
  deriving DecidableEq

inductive RunAction (T : Type*) where
  | push (t : T)
  | finish
  | reset
  | run
  | test
  | pop
  | execute
  | executed
  | polled

structure PollingRunLoop (T : Type*) where
  nodes : Option T → Task T
  stop : Bool
  stage : RunStage T
  /-- What was pushed and what was executed so far. -/
  pushed : List T
  ran : List T

namespace PollingRunLoop

variable {T : Type*} [DecidableEq T]

section Memory

variable (nodes : Option T → Task T)

def setNext (p q : Option T) : Option T → Task T :=
  Function.update nodes p { nodes p with next := q }

/-- `head_.tail`; the other member of the union cannot be read as a pointer. -/
def tail : Option (Option T) :=
  match (nodes none).overlay with
  | .tail p => some p
  | .executeFn => none

def setTail (p : Option T) : Option T → Task T :=
  Function.update nodes none { nodes none with overlay := .tail p }

def pushBack (t : T) : Option (Option T → Task T) :=
  let nodes := setNext nodes (some t) none
  (tail nodes).map fun last => setTail (setNext nodes last (some t)) (some t)

/-- The task, if there is one, and the nodes without it. -/
def tryPopFront : Option (Option T × (Option T → Task T)) :=
  match (nodes none).next with
  | none => some (none, nodes)
  | some first =>
      (tail nodes).map fun last =>
        let nodes := if last = some first then setTail nodes none else nodes
        (some first, setNext nodes none (nodes (some first)).next)

end Memory

variable (s : PollingRunLoop T)

def step (s : PollingRunLoop T) : RunAction T → Option (PollingRunLoop T)
  | .push t =>
      (pushBack s.nodes t).map fun nodes => { s with nodes := nodes, pushed := s.pushed ++ [t] }
  | .finish => some { s with stop := true }
  | .reset => some { s with stop := false }
  | .run =>
      match s.stage with
      | .stopped => some { s with stage := .testing }
      | _ => none
  | .test =>
      match s.stage with
      | .testing => some { s with stage := if s.stop then .stopped else .popping }
      | _ => none
  | .pop =>
      match s.stage with
      | .popping =>
          (tryPopFront s.nodes).map fun x =>
            { s with
              nodes := x.2
              stage := match x.1 with
                | some t => .popped t
                | none => .polling }
      | _ => none
  | .execute =>
      match s.stage with
      | .popped t =>
          match (s.nodes (some t)).overlay with
          | .executeFn => some { s with stage := .executing t, ran := s.ran ++ [t] }
          | .tail _ => none
      | _ => none
  | .executed =>
      match s.stage with
      | .executing _ => some { s with stage := .polling }
      | _ => none
  | .polled =>
      match s.stage with
      | .polling => some { s with stage := .testing }
      | _ => none

/-- A new loop: `head_` points to itself. The fields `next` of the tasks hold anything. -/
def new (next : T → Option T) : PollingRunLoop T where
  nodes
    | none => ⟨none, .tail none⟩
    | some t => ⟨next t, .executeFn⟩
  stop := false
  stage := .stopped
  pushed := []
  ran := []

def machine (next : T → Option T) : Machine (PollingRunLoop T) (RunAction T) := ⟨new next, step⟩

end PollingRunLoop

/-! ## A FIFO executor -/

/-- The same loop over a queue. -/
structure FifoLoop (T : Type*) where
  queue : List T
  stop : Bool
  stage : RunStage T
  pushed : List T
  ran : List T

namespace FifoLoop

variable {T : Type*}

def step (q : FifoLoop T) : RunAction T → Option (FifoLoop T)
  | .push t => some { q with queue := q.queue ++ [t], pushed := q.pushed ++ [t] }
  | .finish => some { q with stop := true }
  | .reset => some { q with stop := false }
  | .run =>
      match q.stage with
      | .stopped => some { q with stage := .testing }
      | _ => none
  | .test =>
      match q.stage with
      | .testing => some { q with stage := if q.stop then .stopped else .popping }
      | _ => none
  | .pop =>
      match q.stage, q.queue with
      | .popping, [] => some { q with stage := .polling }
      | .popping, t :: rest => some { q with queue := rest, stage := .popped t }
      | _, _ => none
  | .execute =>
      match q.stage with
      | .popped t => some { q with stage := .executing t, ran := q.ran ++ [t] }
      | _ => none
  | .executed =>
      match q.stage with
      | .executing _ => some { q with stage := .polling }
      | _ => none
  | .polled =>
      match q.stage with
      | .polling => some { q with stage := .testing }
      | _ => none

def machine (T : Type*) : Machine (FifoLoop T) (RunAction T) := ⟨⟨[], false, .stopped, [], []⟩, step⟩

/-- A task is pushed only while it is not queued. -/
def PushesUnqueued (q : FifoLoop T) : RunAction T → Prop
  | .push t => t ∉ q.queue
  | _ => True

instance [DecidableEq T] (q : FifoLoop T) : ∀ a, Decidable (q.PushesUnqueued a)
  | .push t => inferInstanceAs (Decidable (t ∉ q.queue))
  | .finish | .reset | .run | .test | .pop | .execute | .executed | .polled => .isTrue trivial

end FifoLoop

end DsaStdexec.Engine

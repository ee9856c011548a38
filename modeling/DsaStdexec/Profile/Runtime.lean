import DsaStdexec.Lib.Machine
import Mathlib.Logic.Function.Basic

/-!
# A measured run

A client runs a warm-up phase and then a measured phase with `concurrency` tasks each; a server counts
the requests of both and issues a notification once it has counted enough. A handler records its
request, loads the counter and responds, each as a step of its own; it can be dropped where it awaits
the lock of the histogram. Its load is relaxed: it sees its own increment and nothing that is not there
yet. `measured` counts the requests of the measured phase whose replies were built and recorded.
-/

namespace DsaStdexec.Profile

open DsaStdexec.Lib

/-- The arguments of the two processes; `validate_args` refuses a client without tasks. -/
structure RunArgs where
  shutdownAfterRequests : Option Nat
  requests : Option Nat
  warmupMs : Nat
  measureMs : Nat
  concurrency : Nat
  concurrency_pos : 0 < concurrency

inductive Phase where
  | warmup
  | measured
  deriving DecidableEq, Repr

/-- A task of `run_phase`: at the head of its loop, past the check of the deadline, or waiting for the
reply of a handler. -/
inductive TaskStage where
  | loop
  | checked
  | waiting (h : Nat)
  | finished
  | failed
  deriving DecidableEq, Repr

/-- A call of `unary_echo`. -/
inductive HandlerStage where
  | received
  | recorded (completed : Nat)
  | loaded (completed : Nat)
  | returned
  | dropped
  deriving DecidableEq, Repr

structure Handler where
  phase : Phase
  stage : HandlerStage
  deriving DecidableEq, Repr

structure ProfileRun where
  now : Nat
  phase : Phase
  deadline : Nat
  /-- `request_counter` of the phase. -/
  counter : Nat
  tasks : Nat → TaskStage
  handlers : List Handler
  /-- `requests_completed` of the server. -/
  completed : Nat
  measured : Nat
  notified : Bool

inductive RunAction where
  | tick (ms : Nat)
  | check (w : Nat)
  | request (w : Nat)
  | receive (w : Nat)
  | fail (w : Nat)
  | beginMeasured
  | record (h : Nat)
  | load (h completed : Nat)
  | respond (h : Nat)
  | drop (h : Nat)
  deriving DecidableEq, Repr

namespace ProfileRun

variable (args : RunArgs)

/-- The deadline of the warm-up is set before its tasks are spawned. -/
def new : ProfileRun := ⟨0, .warmup, args.warmupMs, 0, fun _ => .loop, [], 0, 0, false⟩

variable (s : ProfileRun)

def setTask (w : Nat) (stage : TaskStage) : ProfileRun :=
  { s with tasks := Function.update s.tasks w stage }

def setHandler (h : Nat) (x : Handler) : ProfileRun := { s with handlers := s.handlers.set h x }

def requestsTarget : Option Nat :=
  match s.phase with
  | .warmup => none
  | .measured => args.requests

def check (w : Nat) : Option ProfileRun :=
  match s.tasks w with
  | .loop => some (s.setTask w (if s.deadline ≤ s.now then .finished else .checked))
  | _ => none

/-- `fetch_add` on the counter of the phase, and the request unless the target is reached. -/
def request (w : Nat) : Option ProfileRun :=
  match s.tasks w with
  | .checked =>
      if ∃ target ∈ s.requestsTarget args, target ≤ s.counter then
        some { s.setTask w .finished with counter := s.counter + 1 }
      else
        some { s.setTask w (.waiting s.handlers.length) with
          counter := s.counter + 1
          handlers := s.handlers ++ [⟨s.phase, .received⟩] }
  | _ => none

def receive (w : Nat) : Option ProfileRun :=
  match s.tasks w with
  | .waiting h =>
      if s.handlers[h]?.map (·.stage) = some .returned then some (s.setTask w .loop) else none
  | _ => none

/-- The call fails, or the validation of the reply does. -/
def fail (w : Nat) : Option ProfileRun :=
  match s.tasks w with
  | .waiting _ => some (s.setTask w .failed)
  | _ => none

/-- All tasks of the warm-up are joined, and none has failed. -/
def beginMeasured : Option ProfileRun :=
  if s.phase = .warmup ∧ ∀ w < args.concurrency, s.tasks w = .finished then
    some { s with
      phase := .measured
      deadline := s.now + args.measureMs
      counter := 0
      tasks := fun _ => .loop }
  else none

/-- `record_request` for a reply that is built. -/
def record (h : Nat) : Option ProfileRun :=
  match s.handlers[h]? with
  | some ⟨phase, .received⟩ =>
      some { s.setHandler h ⟨phase, .recorded (s.completed + 1)⟩ with
        completed := s.completed + 1
        measured := if phase = .measured then s.measured + 1 else s.measured }
  | _ => none

def load (h completed : Nat) : Option ProfileRun :=
  match s.handlers[h]? with
  | some ⟨phase, .recorded own⟩ =>
      if own ≤ completed ∧ completed ≤ s.completed then
        some (s.setHandler h ⟨phase, .loaded completed⟩)
      else none
  | _ => none

/-- The notification comes before the reply is returned. -/
def respond (h : Nat) : Option ProfileRun :=
  match s.handlers[h]? with
  | some ⟨phase, .loaded completed⟩ =>
      if ∃ target ∈ args.shutdownAfterRequests, target ≤ completed then
        some { s.setHandler h ⟨phase, .returned⟩ with notified := true }
      else some (s.setHandler h ⟨phase, .returned⟩)
  | _ => none

def drop (h : Nat) : Option ProfileRun :=
  match s.handlers[h]? with
  | some ⟨phase, .recorded _⟩ => some (s.setHandler h ⟨phase, .dropped⟩)
  | _ => none

def step (s : ProfileRun) : RunAction → Option ProfileRun
  | .tick ms => some { s with now := s.now + ms }
  | .check w => if w < args.concurrency then s.check w else none
  | .request w => if w < args.concurrency then s.request args w else none
  | .receive w => if w < args.concurrency then s.receive w else none
  | .fail w => if w < args.concurrency then s.fail w else none
  | .beginMeasured => s.beginMeasured args
  | .record h => s.record h
  | .load h completed => s.load h completed
  | .respond h => s.respond args h
  | .drop h => s.drop h

def machine : Machine ProfileRun RunAction where
  init := new args
  step s a := s.step args a

end ProfileRun

end DsaStdexec.Profile

import DsaStdexec.Lib.Machine

/-!
# `CrossThreadWakeFuture`

One future and the worker thread that wakes it. A poll loads `ready`, stores its waker under the lock
and sends the command, the worker stores `ready`, takes the waker under the lock and wakes it; each is
a step of its own. The polls of the future are numbered in the order in which they begin, and the number
of a poll stands for the waker that it is given.

Commands of other futures hold another state; while the worker is at one of them it takes no step here.
-/

namespace DsaStdexec.Bench

open DsaStdexec.Lib

/-- The commands that matter to the future: its own `Wake`, and `Shutdown`. -/
inductive WorkerCommand where
  | wake
  | shutdown
  deriving DecidableEq, Repr

/-- Where the last poll is. -/
inductive PollStage where
  | unpolled
  /-- `ready` was loaded and was not set. -/
  | loaded (k : Nat)
  | stored (k : Nat)
  | requested (k : Nat)
  | pending (k : Nat)
  | ready
  /-- `CrossThreadWakeWorkerUnavailable`. -/
  | unavailable
  deriving DecidableEq, Repr

inductive WorkerStage where
  | receiving
  | received
  | stored
  /-- The waker was taken out of its slot, which may have been empty. -/
  | taken (waker : Option Nat)
  /-- The loop is left and the receiver is dropped. -/
  | exited
  deriving DecidableEq, Repr

structure CrossThreadWake where
  ready : Bool
  waker : Option Nat
  requested : Bool
  channel : List WorkerCommand
  /-- The number of polls that have begun. -/
  polls : Nat
  poll : PollStage
  worker : WorkerStage
  /-- The worker has finished processing `Wake`. -/
  processed : Bool
  /-- The wakers that were woken. -/
  woken : List Nat
  deriving DecidableEq, Repr

inductive WakeAction where
  | load
  | storeWaker
  | sendWake
  | returnPending
  | sendShutdown
  | receive
  | storeReady
  | takeWaker
  | wakeWaker
  deriving DecidableEq, Repr

/-- The worker has the waker in its hands. -/
def WorkerStage.hasTaken : WorkerStage → Bool
  | .taken _ => true
  | _ => false

/-- No poll is under way. -/
def PollStage.returned : PollStage → Bool
  | .unpolled | .pending _ | .ready | .unavailable => true
  | _ => false

namespace CrossThreadWake

def new : CrossThreadWake := ⟨false, none, false, [], 0, .unpolled, .receiving, false, []⟩

variable (s : CrossThreadWake)

/-- A poll begins with its own waker. -/
def load : Option CrossThreadWake :=
  if s.poll.returned then
    if s.ready then some { s with polls := s.polls + 1, poll := .ready }
    else some { s with polls := s.polls + 1, poll := .loaded s.polls }
  else none

def storeWaker : Option CrossThreadWake :=
  match s.poll with
  | .loaded k => some { s with waker := some k, poll := .stored k }
  | _ => none

/-- The command is sent once; the send fails when the receiver is gone. -/
def sendWake : Option CrossThreadWake :=
  match s.poll with
  | .stored k =>
      if s.requested then some { s with poll := .requested k }
      else if s.worker = .exited then some { s with poll := .unavailable }
      else some { s with requested := true, channel := s.channel ++ [.wake], poll := .requested k }
  | _ => none

def returnPending : Option CrossThreadWake :=
  match s.poll with
  | .requested k => some { s with poll := .pending k }
  | _ => none

/-- The harness is dropped. -/
def sendShutdown : Option CrossThreadWake := some { s with channel := s.channel ++ [.shutdown] }

def receive : Option CrossThreadWake :=
  match s.worker, s.channel with
  | .receiving, .wake :: rest => some { s with worker := .received, channel := rest }
  | .receiving, .shutdown :: _ => some { s with worker := .exited, channel := [] }
  | _, _ => none

def storeReady : Option CrossThreadWake :=
  match s.worker with
  | .received => some { s with ready := true, worker := .stored }
  | _ => none

def takeWaker : Option CrossThreadWake :=
  match s.worker with
  | .stored => some { s with waker := none, worker := .taken s.waker }
  | _ => none

def wakeWaker : Option CrossThreadWake :=
  match s.worker with
  | .taken waker =>
      some { s with worker := .receiving, processed := true, woken := s.woken ++ waker.toList }
  | _ => none

def step (s : CrossThreadWake) : WakeAction → Option CrossThreadWake
  | .load => s.load
  | .storeWaker => s.storeWaker
  | .sendWake => s.sendWake
  | .returnPending => s.returnPending
  | .sendShutdown => s.sendShutdown
  | .receive => s.receive
  | .storeReady => s.storeReady
  | .takeWaker => s.takeWaker
  | .wakeWaker => s.wakeWaker

def machine : Machine CrossThreadWake WakeAction := ⟨new, step⟩

/-! ## Lost wake-ups -/

/-- The worker has taken what was in the slot of the waker. -/
def hasTaken : Bool := s.processed || s.worker.hasTaken

/-- Once the command is processed, a poll that has returned `Pending` as the last one was woken. -/
def NoLostWake : Prop :=
  s.processed = true → ∀ k, s.poll = .pending k → k ∈ s.woken

/-- A poll stores its waker only before the worker takes the waker. -/
def StoresBeforeTake (s : CrossThreadWake) (a : WakeAction) : Prop :=
  a = .storeWaker → s.hasTaken = false

instance (s : CrossThreadWake) (a : WakeAction) : Decidable (StoresBeforeTake s a) :=
  inferInstanceAs (Decidable (a = .storeWaker → s.hasTaken = false))

end CrossThreadWake

end DsaStdexec.Bench

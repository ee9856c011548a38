import DsaStdexec.Ffi.Session
import DsaStdexec.Lib.Machine
import Mathlib.Logic.Function.Basic

/-!
# `AsyncDsaSession`

One worker thread owns the session. Callers check the lifecycle, send a command with a reply channel of
its own and await the reply, each as a step of its own; the owner shuts the worker down. The calls of
all handles are numbered, and `requests` says what each of them asks for. The worker does not panic.

A caller can be aborted only where it awaits. The owner holds a sender until it has joined the worker,
so `blocking_recv` never finds the channel closed. The receiver is dropped when the worker thread ends,
and every command that is still in the channel is dropped with it.
-/

namespace DsaStdexec.Ffi

open DsaStdexec.Lib

/-! ## Requests, results and errors -/

/-- `with_destination_len` refuses every other request. -/
structure AsyncMemmoveRequest where
  src : List UInt8
  dstLen : Nat
  valid : (MemmoveRequest.forBuffers dstLen src.length).isOk = true

structure AsyncMemmoveResult where
  bytes : List UInt8
  report : MemmoveValidationReport
  deriving DecidableEq, Repr

inductive AsyncLifecycleFailureKind where
  | ownerShutdown
  deriving DecidableEq, Repr

inductive AsyncWorkerFailureKind where
  | workerInitClosed
  | requestChannelClosed
  | responseChannelClosed
  | workerPanicked
  deriving DecidableEq, Repr

inductive AsyncMemmoveError where
  | memmove (e : MemmoveError)
  | lifecycleFailure (kind : AsyncLifecycleFailureKind)
  | workerFailure (kind : AsyncWorkerFailureKind)
  deriving DecidableEq, Repr

/-- What a worker sends back. -/
abbrev WorkerReply := Except MemmoveError AsyncMemmoveResult

/-- `From<MemmoveError>` on the reply. -/
def WorkerReply.outcome : WorkerReply → Except AsyncMemmoveError AsyncMemmoveResult
  | .ok result => .ok result
  | .error e => .error (.memmove e)

/-! ## The worker -/

/-- A worker may answer depending on its own state and on what its device does; it has no answer while
it still waits. -/
structure AsyncMemmoveWorker (W E : Type*) where
  memmove : W → E → List UInt8 → List UInt8 →
    Option (W × List UInt8 × Except MemmoveError MemmoveValidationReport)

def DsaSession.worker : AsyncMemmoveWorker DsaSession (Placement × List Reply) where
  memmove s env dst src :=
    let out := s.memmove env.1 dst src env.2
    out.result.map fun result => (s, out.dst, result)

def runMemmove {W E : Type*} (worker : AsyncMemmoveWorker W E) (w : W) (env : E)
    (request : AsyncMemmoveRequest) : Option (W × WorkerReply) :=
  (worker.memmove w env (List.replicate request.dstLen 0) request.src).map fun x =>
    (x.1, match x.2.2 with
      | .ok report => .ok ⟨x.2.1, report⟩
      | .error e => .error e)

/-! ## The state -/

def lifecycleRunning : UInt8 := 0
def lifecycleShutdownRequested : UInt8 := 1
def lifecycleShutdownComplete : UInt8 := 2

/-- A command of call `i` carries the request and the reply channel of that call. -/
inductive WorkerCommand where
  | memmove (i : Nat)
  | shutdown
  deriving DecidableEq, Repr

/-- The `oneshot` channel of a call. -/
inductive ReplySlot where
  | pending
  | sent (reply : WorkerReply)
  /-- The sender is gone and has sent nothing. -/
  | dropped

inductive CallStage where
  | unstarted
  | checked
  | sendFailed
  | awaiting
  | replyFailed
  | ended (outcome : Except AsyncMemmoveError AsyncMemmoveResult)
  | aborted
  deriving DecidableEq

inductive WorkerStage where
  | receiving
  | running (i : Nat)
  /-- The loop is left, the receiver still exists. -/
  | stopped
  | exited
  deriving DecidableEq, Repr

/-- Where `shutdown_inner` is; `shutdown` drops the session when it returns, which calls it again. -/
inductive OwnerStage where
  | running
  | requested
  | stopping
  | joined
  | completed
  | dropped
  deriving DecidableEq, Repr

inductive WorkerEvent where
  | started (i : Nat)
  | finished (i : Nat) (reply : WorkerReply)

structure AsyncDsaSession (W : Type*) where
  lifecycle : UInt8
  /-- Every command that was sent, in order. -/
  channel : List WorkerCommand
  /-- How many of them the worker has received. -/
  received : Nat
  worker : W
  stage : WorkerStage
  owner : OwnerStage
  calls : Nat → CallStage
  replies : Nat → ReplySlot
  /-- What the worker has done. -/
  log : List WorkerEvent

inductive AsyncAction (E : Type*) where
  | check (i : Nat)
  | send (i : Nat)
  | await (i : Nat)
  | classify (i : Nat)
  | abort (i : Nat)
  | receive
  | finish (env : E)
  | dropReceiver
  | markShutdownRequested
  | sendShutdown
  | join
  | markShutdownComplete
  | dropOwner

/-- The action is a step of call `i`. -/
def AsyncAction.Of {E : Type*} (i : Nat) : AsyncAction E → Prop
  | .check j | .send j | .await j | .classify j | .abort j => j = i
  | _ => False

/-! ## Steps -/

def ownerShutdown : AsyncMemmoveError := .lifecycleFailure .ownerShutdown

namespace AsyncDsaSession

variable {W E : Type*} (worker : AsyncMemmoveWorker W E) (requests : Nat → AsyncMemmoveRequest)

def new (w : W) : AsyncDsaSession W :=
  ⟨lifecycleRunning, [], 0, w, .receiving, .running, fun _ => .unstarted, fun _ => .pending, []⟩

variable (s : AsyncDsaSession W)

def isShutdownRequested : Bool := decide (lifecycleShutdownRequested ≤ s.lifecycle)

def classifySendFailure : AsyncMemmoveError :=
  if s.isShutdownRequested then ownerShutdown else .workerFailure .requestChannelClosed

def classifyReplyFailure : AsyncMemmoveError :=
  if s.isShutdownRequested then ownerShutdown else .workerFailure .responseChannelClosed

def setCall (i : Nat) (stage : CallStage) : AsyncDsaSession W :=
  { s with calls := Function.update s.calls i stage }

def check (i : Nat) : Option (AsyncDsaSession W) :=
  match s.calls i with
  | .unstarted =>
      if s.isShutdownRequested then some (s.setCall i (.ended (.error ownerShutdown)))
      else some (s.setCall i .checked)
  | _ => none

def send (i : Nat) : Option (AsyncDsaSession W) :=
  match s.calls i with
  | .checked =>
      if s.stage = .exited then some (s.setCall i .sendFailed)
      else some { s.setCall i .awaiting with channel := s.channel ++ [.memmove i] }
  | _ => none

def await (i : Nat) : Option (AsyncDsaSession W) :=
  match s.calls i, s.replies i with
  | .awaiting, .sent reply => some (s.setCall i (.ended reply.outcome))
  | .awaiting, .dropped => some (s.setCall i .replyFailed)
  | _, _ => none

def classify (i : Nat) : Option (AsyncDsaSession W) :=
  match s.calls i with
  | .sendFailed => some (s.setCall i (.ended (.error s.classifySendFailure)))
  | .replyFailed => some (s.setCall i (.ended (.error s.classifyReplyFailure)))
  | _ => none

def abort (i : Nat) : Option (AsyncDsaSession W) :=
  match s.calls i with
  | .awaiting => some (s.setCall i .aborted)
  | _ => none

/-- `blocking_recv` and the match on the command. -/
def receive : Option (AsyncDsaSession W) :=
  match s.stage, s.channel[s.received]? with
  | .receiving, some (.memmove i) =>
      some { s with stage := .running i, received := s.received + 1, log := s.log ++ [.started i] }
  | .receiving, some .shutdown => some { s with stage := .stopped, received := s.received + 1 }
  | _, _ => none

/-- `run_memmove` returns and the reply is sent. Nobody sees a reply to a call that was aborted. -/
def finish (env : E) : Option (AsyncDsaSession W) :=
  match s.stage with
  | .running i =>
      (runMemmove worker s.worker env (requests i)).map fun x =>
        { s with
          worker := x.1
          stage := .receiving
          replies := Function.update s.replies i (.sent x.2)
          log := s.log ++ [.finished i x.2] }
  | _ => none

def undelivered : List WorkerCommand := s.channel.drop s.received

/-- The worker thread ends. -/
def dropReceiver : Option (AsyncDsaSession W) :=
  match s.stage with
  | .stopped =>
      some { s with
        stage := .exited
        replies := fun i => if .memmove i ∈ s.undelivered then .dropped else s.replies i }
  | _ => none

def step (s : AsyncDsaSession W) : AsyncAction E → Option (AsyncDsaSession W)
  | .check i => s.check i
  | .send i => s.send i
  | .await i => s.await i
  | .classify i => s.classify i
  | .abort i => s.abort i
  | .receive => s.receive
  | .finish env => s.finish worker requests env
  | .dropReceiver => s.dropReceiver
  | .markShutdownRequested =>
      if s.owner = .running then
        some { s with lifecycle := lifecycleShutdownRequested, owner := .requested }
      else none
  | .sendShutdown =>
      if s.owner = .requested then
        -- The result of the send is ignored.
        if s.stage = .exited then some { s with owner := .stopping }
        else some { s with owner := .stopping, channel := s.channel ++ [.shutdown] }
      else none
  | .join =>
      if s.owner = .stopping ∧ s.stage = .exited then some { s with owner := .joined } else none
  | .markShutdownComplete =>
      if s.owner = .joined then
        some { s with lifecycle := lifecycleShutdownComplete, owner := .completed }
      else none
  | .dropOwner =>
      if s.owner = .completed then
        some { s with lifecycle := lifecycleShutdownComplete, owner := .dropped }
      else none

def machine (w : W) : Machine (AsyncDsaSession W) (AsyncAction E) where
  init := new w
  step s a := s.step worker requests a

end AsyncDsaSession

end DsaStdexec.Ffi

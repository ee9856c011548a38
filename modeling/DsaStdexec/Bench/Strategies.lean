import DsaStdexec.Lib.Driver

/-!
# The strategies of the `dsa` benchmark

The strategies that start operations in slots of their own (`noalloc.cpp`), as programs over the `ready`
flags of the slots, and the workers of `scoped_workers.cpp`. An operation is known by the offset of its
buffers. Polling the engine and yielding let operations complete, which they do at any time here; that only
adds runs to those of the strategies that complete operations inside of `poll`. The operation type, the
latency samples and the counter `in_flight`, which nobody reads, are left out.
-/

namespace DsaStdexec.Bench

open DsaStdexec.Lib Driver

/-- `OperationSlot::ready`: `start_op` clears the flag, and the receiver of the operation sets it. The
loops that wait for a flag never give up. -/
def slotReady : Statuses Bool where
  unset := false
  initial := true
  seen := id
  expired := none
  fault := fun _ => false
  fault_unset := rfl

section Noalloc

variable (concurrency msgSize totalBytes : Nat)

def numOps : Nat := totalBytes / msgSize

/-- The wait for `scope.on_empty()`: the operation of every slot is over. -/
def awaitEmpty : Driver Nat Bool Unit :=
  forEach (List.range concurrency) fun slot => do
    let _ ← pollSlot slot
    return ()

/-- What the scan of `sliding_window_noalloc_impl_inline` does at a slot. -/
def startNext (slot nextOp : Nat) : Driver Nat Bool Nat :=
  if numOps msgSize totalBytes ≤ nextOp then return nextOp
  else do
    let ready ← peekSlot slot
    if ready then do
      submitSlot slot (nextOp * msgSize)
      return nextOp + 1
    else return nextOp

def slidingWindowNoallocInline : Driver Nat Bool Unit := do
  iterate (fun nextOp =>
    if nextOp < numOps msgSize totalBytes then do
      let nextOp ← foldEach (startNext msgSize totalBytes) (List.range concurrency) nextOp
      return .inl nextOp
    else return .inr ()) 0
  awaitEmpty concurrency

/-- A scan of `sliding_window_noalloc_impl_threaded` for the first slot that is ready. -/
def startFirst (offset : Nat) : List Nat → Driver Nat Bool Bool
  | [] => return false
  | slot :: slots => do
      let ready ← peekSlot slot
      if ready then do
        submitSlot slot offset
        return true
      else startFirst offset slots

def slidingWindowNoallocThreaded : Driver Nat Bool Unit := do
  forEach (List.range (numOps msgSize totalBytes)) fun opIdx =>
    iterate (fun _ => do
      let started ← startFirst (opIdx * msgSize) (List.range concurrency)
      if started then return .inr () else return .inl ()) ()
  awaitEmpty concurrency

/-- The test of the barrier, up to the first slot that is not ready. -/
def allDone : List Nat → Driver Nat Bool Bool
  | [] => return true
  | slot :: slots => do
      let ready ← peekSlot slot
      if ready then allDone slots else return false

/-- `batch_noalloc_impl_inline` and `batch_noalloc_impl_threaded`. -/
def batchNoalloc : Driver Nat Bool Unit :=
  iterate (fun opIdx =>
    if opIdx < numOps msgSize totalBytes then do
      let batchEnd := min (opIdx + concurrency) (numOps msgSize totalBytes)
      let batchSize := batchEnd - opIdx
      forEach (List.range batchSize) fun i => submitSlot i ((opIdx + i) * msgSize)
      iterate (fun _ => do
        let done ← allDone (List.range batchSize)
        if done then return .inr () else return .inl ()) ()
      return .inl batchEnd
    else return .inr ()) 0

inductive NoallocStrategy where
  | slidingWindowInline
  | slidingWindowThreaded
  | batch

def NoallocStrategy.program : NoallocStrategy → Driver Nat Bool Unit
  | slidingWindowInline => slidingWindowNoallocInline concurrency msgSize totalBytes
  | slidingWindowThreaded => slidingWindowNoallocThreaded concurrency msgSize totalBytes
  | batch => batchNoalloc concurrency msgSize totalBytes

end Noalloc

/-- The offsets of the operations that were started. -/
def startedAt (log : List (DriverEvent Nat Bool)) : List Nat :=
  log.filterMap fun e =>
    match e with
    | .submitted _ offset => some offset
    | .polled _ _ => none

/-! ## Workers -/

/-- Where a worker of `scoped_workers.cpp` is: not started by its scheduler yet, in `co_await` of an
operation, about to go on after it, or at `co_return`. -/
inductive Worker where
  | scheduled
  | awaiting (op : Nat)
  | resumed (op : Nat)
  | finished
deriving DecidableEq

def Worker.awaited : Worker → Option Nat
  | .awaiting op => some op
  | .scheduled | .resumed _ | .finished => none

/-- The workers and, in their order, the operations that were started. -/
structure ScopedWorkers where
  workers : Nat → Worker
  started : List Nat

inductive WorkerAction where
  | run (workerId : Nat)
  /-- The operation that the worker awaits completes. -/
  | complete (workerId : Nat)

namespace ScopedWorkers

variable (concurrency numOps : Nat)

def actualWorkers : Nat := min concurrency numOps

/-- The test of the loop of `worker_coro`, and the start of the operation. -/
def proceed (s : ScopedWorkers) (workerId currentOp : Nat) : ScopedWorkers :=
  if currentOp < numOps then
    { workers := Function.update s.workers workerId (.awaiting currentOp)
      started := s.started ++ [currentOp] }
  else { s with workers := Function.update s.workers workerId .finished }

def step (s : ScopedWorkers) : WorkerAction → Option ScopedWorkers
  | .run workerId =>
      if workerId < actualWorkers concurrency numOps then
        match s.workers workerId with
        | .scheduled => some (s.proceed numOps workerId workerId)
        | .resumed op => some (s.proceed numOps workerId (op + actualWorkers concurrency numOps))
        | .awaiting _ | .finished => none
      else none
  | .complete workerId =>
      match s.workers workerId with
      | .awaiting op => some { s with workers := Function.update s.workers workerId (.resumed op) }
      | _ => none

def machine : Machine ScopedWorkers WorkerAction := ⟨⟨fun _ => .scheduled, []⟩, step concurrency numOps⟩

/-- The scope is empty. -/
def Returned (s : ScopedWorkers) : Prop := ∀ w < actualWorkers concurrency numOps, s.workers w = .finished

/-- The operations that are awaited. -/
def running (s : ScopedWorkers) : List Nat :=
  (List.range (actualWorkers concurrency numOps)).filterMap fun w => (s.workers w).awaited

end ScopedWorkers

end DsaStdexec.Bench

import DsaStdexec.Bench.SlidingWindow
import DsaStdexec.Lib.Driver

/-!
# The benchmarks of `hw-eval`

The loops of the benchmarks for one size and one level of concurrency, as programs that drive a device
through completion records: those of the latencies, of the bursts and of the batches. The sliding windows
(`bench_sliding_window` and its twin for IAX) have a model of their own, see `Bench.SlidingWindow`.

A slot is a descriptor with its record, or a batch descriptor with the records and descriptors of its batch.
Zeroing the record, filling in the descriptor and submitting it is one command; the clock, the buffers and the
pages that `touch_fault_page` touches are left out. A panic is an error with the status that its message shows.
-/

namespace DsaStdexec.Bench

open DsaStdexec.Lib

/-- `poll_status` masks what it reads. After 2,000,000,000 reads it gives up and returns `0xFF`. -/
def Accelerator.statuses (acc : Accelerator) : Statuses UInt8 where
  unset := compNone
  initial := compNone
  seen := fun status => status &&& statusMask
  expired := some 0xFF
  fault := fun status => status == acc.fault
  fault_unset := by
    simpa [compNone, statusMask] using acc.fault_ne.symm

/-- A batch of which some descriptor failed. -/
def batchFail : UInt8 := 0x05

section Loops

open Driver

def drainCompletions (slots : List Nat) : Driver Unit UInt8 Unit :=
  forEach slots fun slot => do
    let status ← peekSlot slot
    if status = compNone then do
      let _ ← pollSlot slot
      return ()
    else return ()

def submitAll (count : Nat) : Driver Unit UInt8 Unit := forEach (List.range count) fun slot => submitSlot slot ()

def pollAll (count : Nat) : Driver Unit UInt8 Unit :=
  forEach (List.range count) fun slot => do
    let _ ← pollSlot slot
    return ()

def submitAndPoll (slot : Nat) : Driver Unit UInt8 UInt8 := do
  submitSlot slot ()
  pollSlot slot

/-- `count` operations, one after the other on one record. Nobody looks at their statuses. -/
def latencies (count : Nat) : Driver Unit UInt8 Unit :=
  forEach (List.range count) fun _ => do
    let _ ← submitAndPoll 0
    return ()

/-- The warm-up, and the operations that are measured. -/
def latencyLoop (warmup iterations : Nat) : Driver Unit UInt8 (Except UInt8 Unit) := do
  latencies warmup
  latencies iterations
  return .ok ()

def benchNoopLatency (iterations : Nat) : Driver Unit UInt8 (Except UInt8 Unit) := latencyLoop 100 iterations

def benchNoopLatencyIax (iterations : Nat) : Driver Unit UInt8 (Except UInt8 Unit) := latencyLoop 100 iterations

def benchSingleOpLatency (iterations : Nat) : Driver Unit UInt8 (Except UInt8 Unit) := latencyLoop 100 iterations

def benchBatchLatency (iterations : Nat) : Driver Unit UInt8 (Except UInt8 Unit) := latencyLoop 50 iterations

variable (acc : Accelerator)

/-- An operation of `bench_single_op_latency_iax_crc64`: a page fault is retried once. -/
def measureIaxCrc64 : Driver Unit UInt8 (Except UInt8 Unit) := do
  let status ← submitAndPoll 0
  if status = acc.fault then do
    let retry ← submitAndPoll 0
    if retry ≠ acc.success then return .error retry else return .ok ()
  else if status ≠ acc.success then return .error status
  else return .ok ()

def benchSingleOpLatencyIaxCrc64 (iterations : Nat) : Driver Unit UInt8 (Except UInt8 Unit) := do
  latencies 100
  tryEach (List.range iterations) fun _ => measureIaxCrc64 acc

/-- The wait for one slot of a burst. After a page fault the slots behind it are drained before the slot is
submitted again. -/
def awaitBurst (burstSize i : Nat) : Driver Unit UInt8 (Except UInt8 Unit) := do
  let status ← pollSlot i
  if status = acc.fault then do
    drainCompletions (List.range' (i + 1) (burstSize - (i + 1)))
    let retry ← submitAndPoll i
    if retry ≠ acc.success then do
      drainCompletions (List.range burstSize)
      return .error retry
    else return .ok ()
  else if status ≠ acc.success then do
    drainCompletions (List.range' (i + 1) (burstSize - (i + 1)))
    return .error status
  else return .ok ()

/-- `bench_burst` and `bench_burst_iax_crc64`. -/
def benchBurst (numBursts burstSize : Nat) : Driver Unit UInt8 (Except UInt8 Unit) :=
  tryEach (List.range numBursts) fun _ => do
    submitAll burstSize
    tryEach (List.range burstSize) (awaitBurst acc burstSize)

/-- A status that a batch benchmark goes on with. -/
def batchDone (status : UInt8) : Prop := status = acc.success ∨ status = batchFail

instance (status : UInt8) : Decidable (batchDone acc status) := inferInstanceAs (Decidable (_ ∨ _))

/-- The wait for one batch of `bench_burst_batch`. A batch with a page fault is not submitted again. -/
def awaitBurstBatch (burstSize i : Nat) : Driver Unit UInt8 (Except UInt8 Unit) := do
  let status ← pollSlot i
  if status = acc.fault then return .ok ()
  else if ¬ batchDone acc status then do
    drainCompletions (List.range burstSize)
    return .error status
  else return .ok ()

def benchBurstBatch (numRounds burstSize : Nat) : Driver Unit UInt8 (Except UInt8 Unit) := do
  submitAll burstSize
  pollAll burstSize
  tryEach (List.range numRounds) fun _ => do
    submitAll burstSize
    tryEach (List.range burstSize) (awaitBurstBatch acc burstSize)

/-- The `while` loop of `bench_pipelined_batch`, over `completed_batches` and `idx`, with the drain
behind it. -/
def pipelinedBatch (totalBatches concurrency : Nat) :
    Nat × Nat → Driver Unit UInt8 (Nat × Nat ⊕ Except UInt8 Unit)
  | (completed, idx) =>
      if completed < totalBatches then do
        let status ← pollSlot idx
        if status = acc.fault then do
          submitSlot idx ()
          return .inl (completed, idx)
        else if ¬ batchDone acc status then do
          drainCompletions (List.range concurrency)
          return .inr (.error status)
        else if completed + 1 + concurrency ≤ totalBatches then do
          submitSlot idx ()
          return .inl (completed + 1, (idx + 1) % concurrency)
        else return .inl (completed + 1, (idx + 1) % concurrency)
      else do
        drainCompletions (List.range concurrency)
        return .inr (.ok ())

def benchPipelinedBatch (totalBatches concurrency : Nat) : Driver Unit UInt8 (Except UInt8 Unit) := do
  submitAll concurrency
  pollAll concurrency
  submitAll concurrency
  iterate (pipelinedBatch acc totalBatches concurrency) (0, 0)

end Loops

/-! ## What the benchmarks report -/

/-- The benchmarks but the sliding windows; `burst` is also `bench_burst_iax_crc64`. -/
inductive Benchmark where
  | noopLatency (iterations : Nat)
  | noopLatencyIax (iterations : Nat)
  | singleOpLatency (iterations : Nat)
  | batchLatency (iterations : Nat)
  | singleOpLatencyIaxCrc64 (iterations : Nat)
  | burst (numBursts burstSize : Nat)
  | burstBatch (numRounds burstSize : Nat)
  | pipelinedBatch (totalBatches concurrency : Nat)

/-- The submissions of slots, and what was polled there. -/
abbrev PollLog := List (DriverEvent Unit UInt8)

/-- Submissions of the first slots, in their order. -/
def submissions (count : Nat) : PollLog := (List.range count).map fun slot => .submitted slot ()

def pollsOf (polls : List (Nat × UInt8)) : PollLog := polls.map fun e => .polled e.1 e.2

/-- One poll of each of the first slots, in their order. -/
def PollsAll (count : Nat) (polls : List (Nat × UInt8)) : Prop := polls.map Prod.fst = List.range count

/-- Operations one after the other on slot 0. -/
def latencyLog (statuses : List UInt8) : PollLog :=
  statuses.flatMap fun status => [.submitted 0 (), .polled 0 status]

section Reports

variable (acc : Accelerator)

/-- An operation that succeeded at once, or after one page fault. -/
def MeasuredOnce (log : PollLog) : Prop :=
  log = [.submitted 0 (), .polled 0 acc.success] ∨
    log = [.submitted 0 (), .polled 0 acc.fault, .submitted 0 (), .polled 0 acc.success]

/-- A burst in which every slot was submitted, and was found to have succeeded last. -/
def BurstSucceeded (burstSize : Nat) (log : PollLog) : Prop :=
  ∀ slot < burstSize, (log.filter (·.slot = slot)).head? = some (.submitted slot ()) ∧
    (log.filter (·.slot = slot)).getLast? = some (.polled slot acc.success)

/-- A round of batches in which every batch was polled once, with a page fault or without. -/
def BatchRound (burstSize : Nat) (log : PollLog) : Prop :=
  ∃ polls, PollsAll burstSize polls ∧ log = submissions burstSize ++ pollsOf polls ∧
    ∀ e ∈ polls, e.2 = acc.fault ∨ batchDone acc e.2

/-- The slots whose polls in the log did not fault. -/
def donePolls (log : PollLog) : List Nat :=
  log.filterMap fun e =>
    match e with
    | .submitted _ _ => none
    | .polled slot status => if status = acc.fault then none else some slot

def faultPolls (log : PollLog) : Nat :=
  log.countP fun e =>
    match e with
    | .submitted _ _ => false
    | .polled _ status => status = acc.fault

def submitted (log : PollLog) : Nat :=
  log.countP fun e =>
    match e with
    | .submitted _ _ => true
    | .polled _ _ => false

/-- The window has counted `completed` batches, round robin over the slots; each was submitted once, and once
more for every page fault. -/
structure PipelinedLog (totalBatches concurrency completed : Nat) (log : PollLog) : Prop where
  polls : ∀ slot status, .polled slot status ∈ log → status = acc.fault ∨ batchDone acc status
  counted : donePolls acc log = (List.range completed).map (· % concurrency)
  submits : submitted log =
    concurrency + min completed (totalBatches - concurrency) + faultPolls acc log

namespace Benchmark

def slots : Benchmark → Nat
  | noopLatency _ | noopLatencyIax _ | singleOpLatency _ | batchLatency _ | singleOpLatencyIaxCrc64 _ => 1
  | burst _ burstSize | burstBatch _ burstSize => burstSize
  | pipelinedBatch _ concurrency => concurrency

def program : Benchmark → Driver Unit UInt8 (Except UInt8 Unit)
  | noopLatency iterations => benchNoopLatency iterations
  | noopLatencyIax iterations => benchNoopLatencyIax iterations
  | singleOpLatency iterations => benchSingleOpLatency iterations
  | batchLatency iterations => benchBatchLatency iterations
  | singleOpLatencyIaxCrc64 iterations => benchSingleOpLatencyIaxCrc64 acc iterations
  | burst numBursts burstSize => benchBurst acc numBursts burstSize
  | burstBatch numRounds burstSize => benchBurstBatch acc numRounds burstSize
  | pipelinedBatch totalBatches concurrency => benchPipelinedBatch acc totalBatches concurrency

/-- The levels of concurrency that the benchmarks sweep start at 1. -/
def Swept : Benchmark → Prop
  | pipelinedBatch _ concurrency => 0 < concurrency
  | _ => True

/-- What the log shows when the benchmark has reported its operations. -/
def Reports : Benchmark → PollLog → Prop
  | noopLatency iterations, log | noopLatencyIax iterations, log | singleOpLatency iterations, log =>
      ∃ statuses : List UInt8, statuses.length = 100 + iterations ∧ log = latencyLog statuses
  | batchLatency iterations, log =>
      ∃ statuses : List UInt8, statuses.length = 50 + iterations ∧ log = latencyLog statuses
  | singleOpLatencyIaxCrc64 iterations, log =>
      ∃ (statuses : List UInt8) (ops : List PollLog), statuses.length = 100 ∧ ops.length = iterations ∧
        log = latencyLog statuses ++ ops.flatten ∧ ∀ op ∈ ops, MeasuredOnce acc op
  | burst numBursts burstSize, log =>
      ∃ bursts : List PollLog, bursts.length = numBursts ∧ log = bursts.flatten ∧
        ∀ b ∈ bursts, BurstSucceeded acc burstSize b
  | burstBatch numRounds burstSize, log =>
      ∃ (warmup : List (Nat × UInt8)) (rounds : List PollLog), PollsAll burstSize warmup ∧
        rounds.length = numRounds ∧
        log = submissions burstSize ++ pollsOf warmup ++ rounds.flatten ∧
        ∀ r ∈ rounds, BatchRound acc burstSize r
  | pipelinedBatch totalBatches concurrency, log =>
      ∃ (warmup : List (Nat × UInt8)) (measured : PollLog) (drained : List (Nat × UInt8)),
        PollsAll concurrency warmup ∧
        log = submissions concurrency ++ pollsOf warmup ++ measured ++ pollsOf drained ∧
        PipelinedLog acc totalBatches concurrency totalBatches measured ∧
        drained.length ≤ concurrency - totalBatches

end Benchmark

end Reports

end DsaStdexec.Bench

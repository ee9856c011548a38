import DsaStdexec.Lib.Machine
import DsaStdexec.Submitter.Geometry
import Mathlib.Logic.Function.Basic

/-!
# `RingSubmitter` and `MirroredRingSubmitter`

The two submitters share everything but the layout of the descriptor ring. `RingSubmitter` seals the
current batch when it reaches the end of the ring; `MirroredRingSubmitter` maps the ring twice and
lets a batch run over the end. The members are modelled once, over the kind of ring.

`submit_descriptor` waits in up to three loops and calls `poll_fn_` from each of them, and `poll_fn_`
may call the submitter again. The calls that have not returned are therefore a stack of frames, and
hardware may complete a batch between any two steps. A completion that lands while a call reads the
statuses is covered by one that lands just before or just after it, since the call reads each status
once.
-/

namespace DsaStdexec.Submitter

open DsaStdexec.Lib

inductive BatchState where
  | free
  | filling
  | inFlight
  deriving DecidableEq, Repr

inductive RingKind where
  | ring
  | mirrored
  deriving DecidableEq, Repr

/-- The sizes of a ring submitter after `init`. `regionSize` is the size of one mapping of the
mirrored ring in bytes. -/
@[ext] structure Geometry where
  kind : RingKind
  maxBatch : Nat
  ringSize : Nat
  regionSize : Nat
  maxBatch_pos : 0 < maxBatch
  maxBatch_lt : maxBatch < 2 ^ 32
  ringSize_isPow : ∃ k, ringSize = 2 ^ k
  room : maxBatch * kDefaultNumBatches ≤ ringSize
  region : ringSize * 64 ≤ regionSize

/-- `desc_ring_size_` of both submitters. -/
def InitArgs.ringSize (args : InitArgs) : Nat := descRingSize args.maxBatch

theorem InitArgs.batches_le (args : InitArgs) : args.maxBatch * kDefaultNumBatches ≤ 2 ^ 63 := by
  have := args.maxBatch_lt
  simp only [kDefaultNumBatches]; omega

theorem InitArgs.ringSize_eq (args : InitArgs) :
    args.ringSize = roundUpPow2 (args.maxBatch * kDefaultNumBatches) := descRingSize_eq args.batches_le

theorem InitArgs.ringSize_le (args : InitArgs) : args.ringSize ≤ 2 ^ 36 := by
  have := args.maxBatch_lt
  rw [args.ringSize_eq]
  exact roundUpPow2_le args.batches_le (by simp only [kDefaultNumBatches]; omega)

theorem InitArgs.bytes_eq (args : InitArgs) : args.ringSize * 64 % 2 ^ 64 = args.ringSize * 64 := by
  have := args.ringSize_le
  exact Nat.mod_eq_of_lt (by omega)

/-- `init` of the submitter of kind `k`. The descriptors are 64 bytes long. -/
def Geometry.ofArgs (k : RingKind) (args : InitArgs) : Geometry where
  kind := k
  maxBatch := args.maxBatch
  ringSize := args.ringSize
  regionSize := pageAlignUp (args.ringSize * 64 % 2 ^ 64)
  maxBatch_pos := args.maxBatch_pos
  maxBatch_lt := args.maxBatch_lt
  ringSize_isPow := args.ringSize_eq ▸ roundUpPow2_isPow args.batches_le
  room := args.ringSize_eq ▸ le_roundUpPow2 args.batches_le
  region := by
    have := args.ringSize_le
    rw [args.bytes_eq]
    exact le_pageAlignUp (by omega)

/-- The slot of memory behind slot `i` of the descriptor array. In the mirrored ring the virtual
slots repeat with the period of the mapping, not with the size of the ring. -/
def Geometry.cell (g : Geometry) (i : Nat) : Nat :=
  match g.kind with
  | .ring => i
  | .mirrored => i % (g.regionSize / 64)

/-- `status` is that of `batch_comp`. `taken` is not in the source: it records the descriptors that
were stored while the entry was the current one. -/
structure BatchEntry (D : Type*) where
  status : UInt8
  start : Nat
  count : Nat
  state : BatchState
  taken : List D

/-- The members of a ring submitter. `descRing` is memory by slots of 64 bytes. -/
structure RingSubmitter (D : Type*) where
  direct : DirectSubmitter D
  descRing : Nat → D
  descHead : Nat
  descTail : Nat
  batches : Nat → BatchEntry D
  batchFill : Nat
  batchHead : Nat

namespace RingSubmitter

variable {D : Type*} (g : Geometry)

def init [Inhabited D] (args : InitArgs) : RingSubmitter D where
  direct := DirectSubmitter.init args.mode (some args.wq)
  descRing := fun _ => default
  descHead := 0
  descTail := 0
  batches := fun _ => { status := 0, start := 0, count := 0, state := .free, taken := [] }
  batchFill := 0
  batchHead := 0

def descIndex (pos : Nat) : Nat := descIndexIn g.ringSize pos

def batchIndex (pos : Nat) : Nat := pos &&& (kDefaultNumBatches - 1)

variable (r : RingSubmitter D)

/-- Nested calls can store more than the ring has room for; then the difference wraps around. -/
def descAvailable : Nat := subSize g.ringSize (subSize r.descTail r.descHead)

/-- The entry at `batch_index(batch_fill_)`. -/
def current : BatchEntry D := r.batches (batchIndex r.batchFill)

def setCurrent (b : BatchEntry D) : RingSubmitter D :=
  { r with batches := Function.update r.batches (batchIndex r.batchFill) b }

/-- The loop of `reclaim_completed`; the number bounds the iterations. -/
def reclaimLoop : Nat → RingSubmitter D → RingSubmitter D
  | 0, r => r
  | n + 1, r =>
      let b := r.batches (batchIndex r.batchHead)
      if b.state = .free then reclaimLoop n { r with batchHead := r.batchHead + 1 }
      else if b.state ≠ .inFlight then r
      else if b.status = 0 then r
      else reclaimLoop n
        { r with
          descHead := r.descHead + b.count
          batches := Function.update r.batches (batchIndex r.batchHead) { b with state := .free }
          direct := r.direct.notifyComplete 1
          batchHead := r.batchHead + 1 }

/-- Each iteration advances `batch_head_` or stops, so the loop ends at `batch_fill_` at the
latest. -/
def reclaimCompleted : RingSubmitter D := reclaimLoop (r.batchFill - r.batchHead) r

/-- What the device reads at `desc_list_addr` for the current batch. -/
def listAt (start count : Nat) : List D :=
  (List.range count).map fun k => r.descRing (g.cell (start + k))

def submitBatch : RingSubmitter D :=
  if r.current.count = 1 then
    { r.setCurrent { r.current with status := 1, state := .inFlight } with
      direct :=
        -- single-desc: doorbell consumed immediately
        (r.direct.submitDescriptor (.single (r.descRing (g.cell r.current.start)))).notifyComplete 1 }
  else
    { r.setCurrent { r.current with state := .inFlight } with
      direct := r.direct.submitDescriptor
        (.batch r.current.count (r.listAt g r.current.start r.current.count)) }

def sealCurrent : RingSubmitter D :=
  let r := r.submitBatch g
  { r with batchFill := r.batchFill + 1 }

def sealAndSubmitCurrent : RingSubmitter D :=
  let b := r.current
  if b.state ≠ .filling ∨ b.count = 0 then r
  else
    let r := r.sealCurrent g
    if r.current.state ≠ .free then r.reclaimCompleted else r

/-- Start a new batch if the current slot is free. -/
def beginBatch : RingSubmitter D :=
  if r.current.state = .free then
    r.setCurrent
      { status := 0, start := descIndex g r.descTail, count := 0, state := .filling, taken := [] }
  else r

/-- After the wrap-around the new batch starts at index 0, whatever the slot held. -/
def beginBatchAtZero : RingSubmitter D :=
  r.setCurrent { status := 0, start := 0, count := 0, state := .filling, taken := [] }

/-- The `memcpy` into the ring and the two counters. -/
def store (d : D) : RingSubmitter D :=
  { r.setCurrent
      { r.current with count := (r.current.count + 1) % 2 ^ 32, taken := r.current.taken ++ [d] } with
    descRing := Function.update r.descRing (g.cell (descIndex g r.descTail)) d
    descTail := r.descTail + 1 }

/-- The end of `submit_descriptor`, once the current entry is ready to take the descriptor. -/
def append (d : D) : RingSubmitter D :=
  let r := r.store g d
  if g.maxBatch ≤ r.current.count then r.sealAndSubmitCurrent g else r

/-- The part that `pre_poll` and `drain` begin with. -/
def sealPartial : RingSubmitter D :=
  if r.current.state = .filling ∧ 0 < r.current.count then r.sealAndSubmitCurrent g else r

def prePoll : RingSubmitter D := (r.sealPartial g).reclaimCompleted

def setStatus (i : Nat) (status : UInt8) : RingSubmitter D :=
  { r with batches := Function.update r.batches i { r.batches i with status := status } }

/-- The wrap-around check; the mirrored ring has none. -/
def atWrap : Bool :=
  g.kind = .ring && 0 < r.current.count && descIndex g r.descTail = 0

end RingSubmitter

/-! ## Calls and the device -/

/-- A call that has not returned. The first three are the loops of `submit_descriptor`, with the
descriptor it was given; `polling` tells whether `poll_fn_` is running or the loop condition is to
be tested next. -/
inductive RingFrame (D : Type*) where
  | waitSpace (d : D) (polling : Bool)
  | waitSlot (d : D) (polling : Bool)
  | waitWrap (d : D) (polling : Bool)
  | drainWait (i : Nat)

def RingFrame.desc? {D : Type*} : RingFrame D → Option D
  | .waitSpace d _ | .waitSlot d _ | .waitWrap d _ => some d
  | .drainWait _ => none

/-- A submitter with its pending calls, innermost first. `log` records the descriptors in the order
in which `memcpy` stores them. -/
structure RingSystem (D : Type*) where
  ring : RingSubmitter D
  stack : List (RingFrame D)
  log : List D

inductive RingAction (D : Type*) where
  | submit (d : D)
  | prePoll
  | drain
  /-- The innermost call tests its loop condition and goes on to the next test. -/
  | advance
  /-- `poll_fn_` returns to the loop that called it. -/
  | pollReturn
  /-- The device writes the completion record of a batch. -/
  | complete (i : Nat) (status : UInt8)

def RingAction.desc? {D : Type*} : RingAction D → Option D
  | .submit d => some d
  | _ => none

namespace RingSystem

variable {D : Type*} (g : Geometry)

def init [Inhabited D] (args : InitArgs) : RingSystem D :=
  { ring := RingSubmitter.init args, stack := [], log := [] }

variable (s : RingSystem D)

/-- The submitter can be called from outside, or from a `poll_fn_` that one of its loops runs. -/
def callable : Bool :=
  match s.stack with
  | [] => true
  | .waitSpace _ polling :: _ => polling
  | .waitSlot _ polling :: _ => polling
  | .waitWrap _ polling :: _ => polling
  | .drainWait _ :: _ => false

/-- One iteration of the innermost loop of `submit_descriptor`, up to the call of `poll_fn_`. -/
def iterate (f : RingFrame D) (rest : List (RingFrame D)) : RingSystem D :=
  { s with ring := s.ring.reclaimCompleted, stack := f :: rest }

def finish (r : RingSubmitter D) (d : D) (rest : List (RingFrame D)) : RingSystem D :=
  { ring := r.append g d, stack := rest, log := s.log ++ [d] }

def advance : Option (RingSystem D) :=
  match s.stack with
  | .waitSpace d false :: rest =>
      if s.ring.descAvailable g = 0 then some (s.iterate (.waitSpace d true) rest)
      else some { s with stack := .waitSlot d false :: rest }
  | .waitSlot d false :: rest =>
      if s.ring.current.state = .inFlight then some (s.iterate (.waitSlot d true) rest)
      else
        let r := s.ring.beginBatch g
        if r.atWrap g then
          some { s with ring := r.sealAndSubmitCurrent g, stack := .waitWrap d false :: rest }
        else some (s.finish g r d rest)
  | .waitWrap d false :: rest =>
      if s.ring.current.state = .inFlight then some (s.iterate (.waitWrap d true) rest)
      else some (s.finish g s.ring.beginBatchAtZero d rest)
  | .drainWait i :: rest =>
      if kDefaultNumBatches ≤ i then some { s with stack := rest }
      else if (s.ring.batches i).state = .inFlight then some (s.iterate (.drainWait i) rest)
      else some { s with stack := .drainWait (i + 1) :: rest }
  | _ => none

def pollReturn : Option (RingSystem D) :=
  match s.stack with
  | .waitSpace d true :: rest => some { s with stack := .waitSpace d false :: rest }
  | .waitSlot d true :: rest => some { s with stack := .waitSlot d false :: rest }
  | .waitWrap d true :: rest => some { s with stack := .waitWrap d false :: rest }
  | _ => none

def complete (i : Nat) (status : UInt8) : Option (RingSystem D) :=
  let b := s.ring.batches i
  if i < kDefaultNumBatches ∧ b.state = .inFlight ∧ b.status = 0 ∧ status ≠ 0 then
    some { s with ring := s.ring.setStatus i status }
  else none

def step (s : RingSystem D) : RingAction D → Option (RingSystem D)
  | .submit d => if s.callable then some { s with stack := .waitSpace d false :: s.stack } else none
  | .prePoll => if s.callable then some { s with ring := s.ring.prePoll g } else none
  | .drain =>
      if s.stack.isEmpty then some { s with ring := s.ring.sealPartial g, stack := [.drainWait 0] }
      else none
  | .advance => s.advance g
  | .pollReturn => s.pollReturn
  | .complete i status => s.complete i status

def machine [Inhabited D] (k : RingKind) (args : InitArgs) : Machine (RingSystem D) (RingAction D) where
  init := init args
  step := step (Geometry.ofArgs k args)

/-- A call of `submit_descriptor` that has nothing to wait for. -/
def call (d : D) : List (RingAction D) := [.submit d, .advance, .advance]

end RingSystem

end DsaStdexec.Submitter

import DsaStdexec.Submitter.Ring

/-!
# `FixedRingSubmitter`

Every entry of the batch ring owns an array of descriptors. A single descriptor gives its entry back
at once, so `batch_head_` can fall behind `batch_fill_` by any number of laps.
-/

namespace DsaStdexec.Submitter

open DsaStdexec.Lib RingSubmitter

structure FixedEntry (D : Type*) where
  descs : Nat → D
  status : UInt8
  count : Nat
  state : BatchState

def FixedEntry.list {D : Type*} (b : FixedEntry D) : List D := (List.range b.count).map b.descs

structure FixedRingSubmitter (D : Type*) where
  direct : DirectSubmitter D
  batches : Nat → FixedEntry D
  batchFill : Nat
  batchHead : Nat

namespace FixedRingSubmitter

variable {D : Type*}

def init [Inhabited D] (args : InitArgs) : FixedRingSubmitter D where
  direct := DirectSubmitter.init args.mode (some args.wq)
  batches := fun _ => { descs := fun _ => default, status := 0, count := 0, state := .free }
  batchFill := 0
  batchHead := 0

variable (r : FixedRingSubmitter D)

def current : FixedEntry D := r.batches (batchIndex r.batchFill)

def setCurrent (b : FixedEntry D) : FixedRingSubmitter D :=
  { r with batches := Function.update r.batches (batchIndex r.batchFill) b }

/-- An iteration of `reclaim_completed` that frees the entry at `batch_head_`. -/
def reclaimOne : FixedRingSubmitter D :=
  { r with
    batches := Function.update r.batches (batchIndex r.batchHead)
      { r.batches (batchIndex r.batchHead) with state := .free }
    direct := r.direct.notifyComplete 1
    batchHead := r.batchHead + 1 }

/-- The loop of `reclaim_completed`; the number bounds the iterations. -/
def reclaimLoop : Nat → FixedRingSubmitter D → FixedRingSubmitter D
  | 0, r => r
  | n + 1, r =>
      if (r.batches (batchIndex r.batchHead)).state = .free then
        reclaimLoop n { r with batchHead := r.batchHead + 1 }
      else if (r.batches (batchIndex r.batchHead)).state ≠ .inFlight then r
      else if (r.batches (batchIndex r.batchHead)).status = 0 then r
      else reclaimLoop n r.reclaimOne

def reclaimCompleted : FixedRingSubmitter D := reclaimLoop (r.batchFill - r.batchHead) r

def submitBatch : FixedRingSubmitter D :=
  if r.current.count = 1 then
    { r.setCurrent { r.current with state := .free } with
      direct := (r.direct.submitDescriptor (.single (r.current.descs 0))).notifyComplete 1 }
  else
    { r.setCurrent { r.current with state := .inFlight } with
      direct := r.direct.submitDescriptor (.batch r.current.count r.current.list) }

def sealCurrent : FixedRingSubmitter D :=
  let r := r.submitBatch
  { r with batchFill := r.batchFill + 1 }

def sealAndSubmitCurrent : FixedRingSubmitter D :=
  if r.current.state ≠ .filling ∨ r.current.count = 0 then r
  else if r.sealCurrent.current.state ≠ .free then r.sealCurrent.reclaimCompleted
  else r.sealCurrent

def beginBatch : FixedRingSubmitter D :=
  if r.current.state = .free then
    r.setCurrent { r.current with status := 0, count := 0, state := .filling }
  else r

/-- The `memcpy` and the counter. -/
def store (d : D) : FixedRingSubmitter D :=
  r.setCurrent
    { r.current with
      descs := Function.update r.current.descs r.current.count d
      count := (r.current.count + 1) % 2 ^ 32 }

/-- `submit_descriptor` after its loop. -/
def append (maxBatch : Nat) (d : D) : FixedRingSubmitter D :=
  if maxBatch ≤ (r.beginBatch.store d).current.count then (r.beginBatch.store d).sealAndSubmitCurrent
  else r.beginBatch.store d

def sealPartial : FixedRingSubmitter D :=
  if r.current.state = .filling ∧ 0 < r.current.count then r.sealAndSubmitCurrent else r

def prePoll : FixedRingSubmitter D := r.sealPartial.reclaimCompleted

def setStatus (i : Nat) (status : UInt8) : FixedRingSubmitter D :=
  { r with batches := Function.update r.batches i { r.batches i with status := status } }

end FixedRingSubmitter

/-- A call that has not returned: the loop of `submit_descriptor` or that of `drain`. Neither calls
back, so there is at most one. -/
inductive FixedCall (D : Type*) where
  | waitSlot (d : D)
  | drainWait (i : Nat)

structure FixedSystem (D : Type*) where
  ring : FixedRingSubmitter D
  call : Option (FixedCall D)

inductive FixedAction (D : Type*) where
  | submit (d : D)
  | prePoll
  | drain
  /-- The call tests its loop condition. -/
  | advance
  | complete (i : Nat) (status : UInt8)

namespace FixedSystem

variable {D : Type*}

def init [Inhabited D] (args : InitArgs) : FixedSystem D :=
  { ring := FixedRingSubmitter.init args, call := none }

variable (s : FixedSystem D)

def advance (maxBatch : Nat) : Option (FixedSystem D) :=
  match s.call with
  | some (.waitSlot d) =>
      if s.ring.current.state = .inFlight then some { s with ring := s.ring.reclaimCompleted }
      else some { ring := s.ring.append maxBatch d, call := none }
  | some (.drainWait i) =>
      if kDefaultNumBatches ≤ i then some { s with call := none }
      else if (s.ring.batches i).state = .inFlight then
        some { s with ring := s.ring.reclaimCompleted }
      else some { s with call := some (.drainWait (i + 1)) }
  | none => none

def step (maxBatch : Nat) (s : FixedSystem D) : FixedAction D → Option (FixedSystem D)
  | .submit d => if s.call.isNone then some { s with call := some (.waitSlot d) } else none
  | .prePoll => if s.call.isNone then some { s with ring := s.ring.prePoll } else none
  | .drain =>
      if s.call.isNone then
        some { ring := s.ring.sealPartial, call := some (.drainWait 0) }
      else none
  | .advance => s.advance maxBatch
  | .complete i status =>
      if i < kDefaultNumBatches ∧ (s.ring.batches i).state = .inFlight ∧
          (s.ring.batches i).status = 0 ∧ status ≠ 0 then
        some { s with ring := s.ring.setStatus i status }
      else none

def machine [Inhabited D] (args : InitArgs) : Machine (FixedSystem D) (FixedAction D) where
  init := init args
  step := step args.maxBatch

end FixedSystem

end DsaStdexec.Submitter

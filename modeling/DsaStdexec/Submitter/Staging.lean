import DsaStdexec.Lib.Machine
import DsaStdexec.Submitter.Geometry
import Mathlib.Logic.Function.Basic

/-!
# `StagingSubmitter`

Descriptors are staged in one of two buffers; `flush` rings the doorbell for the active buffer and
goes on with the other one, once the device has released it.
-/

namespace DsaStdexec.Submitter

open DsaStdexec.Lib

/-- The members of `StagingSubmitter`. The two buffers are numbered by `Bool`, so that `b ^ 1` is
`!b`; `batchStatus` is `batch_comp_[b].status`. -/
structure StagingSubmitter (D : Type*) where
  direct : DirectSubmitter D
  staged : Bool → Nat → D
  batchStatus : Bool → UInt8
  stagedCount : Nat
  activeBuf : Bool
  batchSubmitted : Bool → Bool

namespace StagingSubmitter

variable {D : Type*}

def init [Inhabited D] (args : InitArgs) : StagingSubmitter D where
  direct := DirectSubmitter.init args.mode (some args.wq)
  staged := fun _ _ => default
  batchStatus := fun _ => 0
  stagedCount := 0
  activeBuf := false
  batchSubmitted := fun _ => false

variable (s : StagingSubmitter D)

/-- The `memcpy` of `submit_descriptor`. -/
def store (d : D) : StagingSubmitter D :=
  { s with
    staged := Function.update s.staged s.activeBuf
      (Function.update (s.staged s.activeBuf) s.stagedCount d)
    stagedCount := s.stagedCount + 1 }

def list : List D := (List.range s.stagedCount).map (s.staged s.activeBuf)

/-- The condition of the loop in `flush`. -/
def waits : Bool := s.batchSubmitted (!s.activeBuf) && s.batchStatus (!s.activeBuf) = 0

/-- The other buffer's batch has been answered. -/
def release : StagingSubmitter D :=
  if s.batchSubmitted (!s.activeBuf) then
    { s with
      batchSubmitted := Function.update s.batchSubmitted (!s.activeBuf) false
      direct := s.direct.notifyComplete 1 }
  else s

def ring : StagingSubmitter D :=
  if s.stagedCount = 1 then
    { s with direct := s.direct.submitDescriptor (.single (s.staged s.activeBuf 0)) }
  else
    { s with
      batchStatus := Function.update s.batchStatus s.activeBuf 0
      direct := s.direct.submitDescriptor (.batch (s.stagedCount % 2 ^ 32) s.list)
      batchSubmitted := Function.update s.batchSubmitted s.activeBuf true }

def swap : StagingSubmitter D := { s with activeBuf := !s.activeBuf, stagedCount := 0 }

/-- `flush` after its loop. -/
def flushTail : StagingSubmitter D := s.release.ring.swap

def setStatus (b : Bool) (status : UInt8) : StagingSubmitter D :=
  { s with batchStatus := Function.update s.batchStatus b status }

/-- The test in `DsaEngine::submit`. -/
def gateClosed : Bool := 0 < s.direct.wqCapacity && s.direct.wqCapacity ≤ s.direct.inflight

/-- The number of buffers that the device holds. -/
def submittedCount : Nat := (s.batchSubmitted false).toNat + (s.batchSubmitted true).toNat

end StagingSubmitter

/-- `flushing` says that a call is in the loop of `flush`. The loop calls nothing, so there is at
most one such call. -/
structure StagingSystem (D : Type*) where
  sub : StagingSubmitter D
  flushing : Bool

inductive StagingAction (D : Type*) where
  | submit (d : D)
  | flush
  | prePoll
  | drain
  /-- The loop of `flush` tests its condition. -/
  | advance
  | complete (b : Bool) (status : UInt8)

def StagingAction.desc? {D : Type*} : StagingAction D → Option D
  | .submit d => some d
  | _ => none

namespace StagingSystem

variable {D : Type*}

def init [Inhabited D] (args : InitArgs) : StagingSystem D :=
  { sub := StagingSubmitter.init args, flushing := false }

variable (s : StagingSystem D)

def submit (maxBatch : Nat) (d : D) : StagingSystem D :=
  { sub := s.sub.store d, flushing := maxBatch ≤ (s.sub.store d).stagedCount }

def flush : StagingSystem D := { s with flushing := s.sub.stagedCount ≠ 0 }

def advance : StagingSystem D :=
  if s.sub.waits then s else { sub := s.sub.flushTail, flushing := false }

def step (maxBatch : Nat) (s : StagingSystem D) : StagingAction D → Option (StagingSystem D)
  | .submit d => if s.flushing then none else some (s.submit maxBatch d)
  | .flush | .prePoll | .drain => if s.flushing then none else some s.flush
  | .advance => if s.flushing then some s.advance else none
  | .complete b status =>
      if s.sub.batchSubmitted b ∧ s.sub.batchStatus b = 0 ∧ status ≠ 0 then
        some { s with sub := s.sub.setStatus b status }
      else none

def machine [Inhabited D] (args : InitArgs) : Machine (StagingSystem D) (StagingAction D) where
  init := init args
  step := step args.maxBatch

end StagingSystem

end DsaStdexec.Submitter

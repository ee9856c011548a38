import Mathlib.Algebra.Ring.Int.Defs
import Mathlib.Data.List.Basic

/-!
# `DirectSubmitter`

The submitter that writes every descriptor to the portal at once. The batching submitters own one
and ring their doorbells through it. A descriptor is a value of an arbitrary type `D`: no submitter
looks into the 64 bytes it forwards.
-/

namespace DsaStdexec.Submitter

inductive WqMode where
  | dedicated
  | shared
  deriving DecidableEq, Repr

/-- What libaccel-config reports of a work queue. Both numbers are C `int`s. -/
structure Wq where
  size : Int
  maxBatchSize : Int
  size_lt : size < 2 ^ 31
  maxBatchSize_lt : maxBatchSize < 2 ^ 31

/-- A 64-byte write to the portal. `single` is a descriptor as it was handed in. `batch` is a
descriptor that a submitter builds itself (opcode `DSA_OPCODE_BATCH`, flags `RCR | CRAV`), with its
`desc_count` and the contents of the list at `desc_list_addr` when the doorbell rings. -/
inductive Doorbell (D : Type*) where
  | single (d : D)
  | batch (descCount : Nat) (list : List D)
  deriving DecidableEq, Repr

/-- The descriptors that a doorbell asks the device to execute. -/
def Doorbell.descs {D : Type*} : Doorbell D → List D
  | .single d => [d]
  | .batch _ list => list

structure DirectSubmitter (D : Type*) where
  mode : WqMode
  wqDepth : Nat
  inflight : Nat
  /-- Everything written to the portal so far, oldest first. -/
  portal : List (Doorbell D)

namespace DirectSubmitter

variable {D : Type*}

/-- `wq` is `none` for a null pointer. -/
def init (mode : WqMode) (wq : Option Wq) : DirectSubmitter D :=
  { mode := mode
    wqDepth :=
      match mode, wq with
      | .dedicated, some wq => if 0 < wq.size then wq.size.toNat else 0
      | _, _ => 0 -- shared WQ: `_enqcmd` has natural backpressure
    inflight := 0
    portal := [] }

/-- `_movdir64b` is accepted at once; `_enqcmd` is repeated until it is accepted. Either way the
descriptor reaches the portal exactly once. -/
def submitDescriptor (s : DirectSubmitter D) (d : Doorbell D) : DirectSubmitter D :=
  { s with portal := s.portal ++ [d], inflight := s.inflight + 1 }

def wqCapacity (s : DirectSubmitter D) : Nat := s.wqDepth

/-- The subtraction saturates at zero. -/
def notifyComplete (s : DirectSubmitter D) (n : Nat) : DirectSubmitter D :=
  { s with inflight := if n ≤ s.inflight then s.inflight - n else 0 }

@[simp] theorem submitDescriptor_inflight (s : DirectSubmitter D) (d : Doorbell D) :
    (s.submitDescriptor d).inflight = s.inflight + 1 := rfl

@[simp] theorem submitDescriptor_portal (s : DirectSubmitter D) (d : Doorbell D) :
    (s.submitDescriptor d).portal = s.portal ++ [d] := rfl

@[simp] theorem notifyComplete_inflight (s : DirectSubmitter D) (n : Nat) :
    (s.notifyComplete n).inflight = s.inflight - n := by
  simp only [notifyComplete]; split <;> omega

theorem notifyComplete_zero (s : DirectSubmitter D) : s.notifyComplete 0 = s := by
  simp [notifyComplete]

end DirectSubmitter

end DsaStdexec.Submitter

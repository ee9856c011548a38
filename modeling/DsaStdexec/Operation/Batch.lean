import DsaStdexec.Operation.Descriptor
import DsaStdexec.Submitter.Direct

/-!
# `BatchOperation`

`dsa_batch(dsa, count, factory)` builds a BATCH descriptor over its own array of descriptors and hands
it to the engine like any other descriptor.
-/

namespace DsaStdexec.Operation

open DsaStdexec.Submitter

/-- A descriptor with the array at its `desc_list_addr`, which only a BATCH descriptor has. -/
structure Submitted where
  desc : HwDesc
  list : List HwDesc
  deriving DecidableEq, Repr

instance : Inhabited Submitted := ⟨HwDesc.zero, []⟩

def kMaxBatch : Nat := 32

/-- The addresses of `sub_descs_`, `sub_comps_` and of the operation's own completion record. -/
structure BatchOperation where
  subDescs : BitVec 64
  subComps : BitVec 64
  comp : BitVec 64

namespace BatchOperation

variable (op : BatchOperation) {count : Nat}

/-- The zeroed descriptors with their completion addresses; a completion record has 32 bytes. -/
def zeroed (count : Nat) : Vector HwDesc count :=
  Vector.ofFn fun i =>
    { HwDesc.zero with completionAddr := op.subComps + BitVec.ofNat 64 (32 * i) }

/-- The cast to `uint16_t` and the assignment to a 32-bit field. -/
def batchDesc (count : Nat) : HwDesc :=
  { HwDesc.zero with
    opcode := .batch
    flags := opFlagRcr ||| opFlagCrav
    srcAddr := op.subDescs
    xferSize := BitVec.ofNat 32 (count % 2 ^ 16)
    completionAddr := op.comp }

/-- `start` up to the call of `submit`. There is no check of `count`; beyond `kMaxBatch` the `memset`
runs over the end of the arrays, and nothing can be said. -/
def start (factory : Vector HwDesc count → Vector HwDesc count) : Option Submitted :=
  if count ≤ kMaxBatch then
    some { desc := op.batchDesc count, list := (factory (op.zeroed count)).toList }
  else none

end BatchOperation

/-! ## What the device accepts -/

/-- A batch of `n` descriptors is not too small, and not larger than the maximum that the WQ
reports. -/
def SizeAccepted (wq : Wq) (n : Nat) : Prop :=
  2 ≤ n ∧ (0 < wq.maxBatchSize → (n : Int) ≤ wq.maxBatchSize)

/-- A write to the portal: if it is a BATCH descriptor, its size is accepted and no descriptor of its
list is a BATCH descriptor. -/
def WellFormed (wq : Wq) : Doorbell Submitted → Prop
  | .single d => d.desc.opcode = .batch →
      SizeAccepted wq d.desc.xferSize.toNat ∧ ∀ x ∈ d.list, x.opcode ≠ .batch
  | .batch descCount list => SizeAccepted wq descCount ∧ ∀ x ∈ list, x.desc.opcode ≠ .batch

end DsaStdexec.Operation

import DsaStdexec.Operation.Batch
import DsaStdexec.Submitter.Lemmas.Batches

/-!
# BATCH descriptors of operations and of submitters
-/

namespace DsaStdexec.Operation

open DsaStdexec.Submitter

def batchRule (wq : Wq) : BatchRule Submitted where
  IsBatch d := d.desc.opcode = .batch
  Accepted d := SizeAccepted wq d.desc.xferSize.toNat ∧ ∀ x ∈ d.list, x.opcode ≠ .batch

theorem not_isBatch_default (wq : Wq) : ¬ (batchRule wq).IsBatch default := by
  intro h
  cases h

theorem wellFormed_of_proper {args : InitArgs} {b : Doorbell Submitted}
    (h : b.Proper (batchRule args.wq) args.maxBatch) : WellFormed args.wq b := by
  cases b with
  | single d => exact h
  | batch n list =>
      obtain ⟨h2, hle, hall⟩ := h
      refine ⟨⟨h2, fun hwq => ?_⟩, hall⟩
      have := args.maxBatch_le_wq hwq
      omega

/-- Which of the descriptors of `dsa_batch` are accepted. -/
theorem accepted_start_iff {wq : Wq} {op : BatchOperation} {count : Nat}
    {factory : Vector HwDesc count → Vector HwDesc count} {d : Submitted}
    (h : op.start factory = some d) : (batchRule wq).Accepted d ↔
      SizeAccepted wq count ∧ ∀ x ∈ (factory (op.zeroed count)).toList, x.opcode ≠ .batch := by
  unfold BatchOperation.start at h
  split at h <;> cases h
  rename_i hle
  have hcount : (op.batchDesc count).xferSize.toNat = count := by
    simp only [kMaxBatch] at hle
    simp only [BatchOperation.batchDesc, BitVec.toNat_ofNat]
    omega
  simp only [batchRule, hcount]

end DsaStdexec.Operation

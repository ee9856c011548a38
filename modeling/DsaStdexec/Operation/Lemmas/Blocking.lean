import DsaStdexec.Operation.Blocking
import DsaStdexec.Operation.Lemmas.Resume

/-!
# When the two ways to move data end well
-/

namespace DsaStdexec.Operation

open DsaStdexec.Submitter

variable {mode : WqMode} {d : HwDesc} {as : List Answer} {o : DsaOperation Unit}

theorem dataMoveRetry_ok_iff : dataMoveRetry mode d as = some (.ok ()) ↔
    EndsInSuccess as ∧ (mode = .dedicated ∨ Accepted as) := by
  induction as generalizing d with
  | nil => simp [dataMoveRetry, EndsInSuccess]
  | cons a as ih =>
      have hne : compPageFaultNobof ≠ compSuccess := by decide
      by_cases hs : a.record.code = compSuccess
      · have hf : a.record.code ≠ compPageFaultNobof := by rw [hs]; exact hne.symm
        cases mode <;> simp [dataMoveRetry, EndsInSuccess, Accepted, hs, hne.symm]
      · by_cases hf : a.record.code = compPageFaultNobof
        · cases mode with
          | dedicated => simp [dataMoveRetry, EndsInSuccess, hf, hne, ih]
          | shared =>
              by_cases hb : kEnqueueSpinLimit ≤ a.busy
              · simp [dataMoveRetry, Accepted, hb, Nat.not_lt.mpr hb]
              · simp [dataMoveRetry, EndsInSuccess, Accepted, hf, hne, hb, ih, Nat.not_le.mp hb]
        · simp only [dataMoveRetry, EndsInSuccess, hs, hf, false_and, or_self, iff_false]
          split <;> simp

theorem await_value_iff (hv : o.hasResult = false) :
    o.await true d as = some (.value ()) ↔ EndsInSuccess as := by
  induction as generalizing d with
  | nil => simp [DsaOperation.await, EndsInSuccess]
  | cons a as ih =>
      by_cases hs : a.record.code = compSuccess
      · have hsucc : o.succeeds a.record = true := by simp [DsaOperation.succeeds, hs]
        simp [DsaOperation.await, DsaOperation.notify_success hsucc, EndsInSuccess, hs]
      · by_cases hf : a.record.code = compPageFaultNobof
        · simp [DsaOperation.await, DsaOperation.notify_fault hf, EndsInSuccess, hf, ih,
            show compPageFaultNobof ≠ compSuccess by decide]
        · have hsucc : o.succeeds a.record = false := by simp [DsaOperation.succeeds, hs, hv]
          simp [DsaOperation.await, DsaOperation.notify, hsucc, hf, EndsInSuccess, hs]

theorem signal_value_iff {mapped : Bool} {src dst comp : BitVec 64} {size : Nat} :
    (dataMoveOperation src dst size).signal mapped comp as = some (.value ()) ↔
      mapped = true ∧ EndsInSuccess as := by
  cases mapped with
  | false => cases as <;> simp [DsaOperation.signal, dataMoveOperation, voidOperation, DsaOperation.await]
  | true =>
      rw [eq_self_iff_true, true_and]
      exact await_value_iff rfl

theorem dataMove_zero {mapped : Bool} {src dst comp : BitVec 64} :
    dataMove mapped mode src dst 0 comp as = some (.ok ()) := by
  simp [dataMove]

theorem dataMove_ok_iff {src dst comp : BitVec 64} {size : Nat} (hsrc : src ≠ 0) (hdst : dst ≠ 0)
    (h0 : size ≠ 0) : dataMove true mode src dst size comp as = some (.ok ()) ↔
      size < 2 ^ 32 ∧ EndsInSuccess as ∧ (mode = .dedicated ∨ Accepted as) := by
  have hnull : ¬ (src = 0 ∨ dst = 0) := not_or.mpr ⟨hsrc, hdst⟩
  rw [dataMove, if_neg h0, if_neg (by decide), if_neg hnull]
  by_cases hlt : size < 2 ^ 32
  · rw [if_neg (by simp only [uint32Max]; omega), dataMoveRetry_ok_iff]
    simp only [hlt, true_and]
  · rw [if_pos (by simp only [uint32Max]; omega)]
    simp only [hlt, false_and, iff_false]
    intro h
    cases h

theorem transferred_eq (ht : d.opcode.transfers = true) (hc : Conforming d as)
    (he : EndsInSuccess as) : o.transferred d (as.map Answer.record) = d.xferSize.toNat := by
  induction as generalizing d with
  | nil => cases he
  | cons a as ih =>
      rcases he with hs | ⟨hf, he⟩
      · have hsucc : o.succeeds a.record = true := by simp [DsaOperation.succeeds, hs]
        simp [DsaOperation.transferred, DsaOperation.submissions, DsaOperation.notify_success hsucc,
          processed_success hsucc]
      · obtain ⟨hle, hrest⟩ := hc hf
        have hle' : a.record.bytesCompleted.toNat ≤ d.xferSize.toNat := hle
        have := ih (by rw [adjust_opcode]; exact ht) hrest he
        rw [DsaOperation.transferred, adjust_xferSize ht hle] at this
        simp only [DsaOperation.transferred, List.map_cons, DsaOperation.submissions_fault hf,
          List.sum_cons, processed_fault hf, this]
        omega

end DsaStdexec.Operation

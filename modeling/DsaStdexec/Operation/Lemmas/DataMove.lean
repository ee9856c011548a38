import DsaStdexec.Operation.DataMove
import DsaStdexec.Operation.Lemmas.Mixin

/-!
# Resuming a Memory Move
-/

namespace DsaStdexec.Operation

open DsaStdexec.Lib

variable {o : DsaOperation Unit} {d : HwDesc} {c : CompletionRecord} {m : Memory}

/-! ## One fault -/

/-- The descriptor for what is left after `n` bytes. -/
def HwDesc.after (d : HwDesc) (n : BitVec 32) : HwDesc :=
  { d with
    srcAddr := d.srcAddr + n.setWidth 64, dstAddr := d.dstAddr + n.setWidth 64
    xferSize := d.xferSize - n }

theorem adjust_eq (hd : d.opcode = .memmove) :
    adjustForPageFault d c = d.after c.bytesCompleted := by
  simp [adjustForPageFault, hd, HwDesc.after]

theorem run_move_fault {cs : List CompletionRecord} (hd : d.opcode = .memmove)
    (hc : c.code = compPageFaultNobof) :
    o.run perform m d (c :: cs) = o.run perform (movePart m d c) (d.after c.bytesCompleted) cs := by
  have hne : c.code ≠ compSuccess := by rw [hc]; decide
  rw [DsaOperation.run_fault hc, adjust_eq hd, perform, if_neg hne]

theorem run_move_success (hc : c.code = compSuccess) :
    o.run perform m d [c] = some ((), moveAll m d) := by
  rw [DsaOperation.run_success (by simp [DsaOperation.succeeds, hc]), perform, if_pos hc]

theorem toNat_setWidth_64 (n : BitVec 32) : (n.setWidth 64).toNat = n.toNat := by
  have := n.isLt
  rw [BitVec.toNat_setWidth, Nat.mod_eq_of_lt (by omega)]

theorem after_xferSize {n : BitVec 32} (h : n ≤ d.xferSize) :
    (d.after n).xferSize.toNat = d.xferSize.toNat - n.toNat :=
  BitVec.toNat_sub_of_le h

/-- A harmless fault leaves the first bytes moved, whichever way the device worked. -/
theorem movePart_eq (h : Harmless d c) :
    movePart m d c = move m d.srcAddr d.dstAddr c.bytesCompleted.toNat := by
  simp only [movePart]
  rcases h with h0 | hall | ⟨hr, _⟩
  · simp [h0]
  · simp [hall]
  · simp [hr]

/-- The bytes of the source that are left are not in the part of the destination that is written. -/
theorem Harmless.apart (h : Harmless d c) {k : BitVec 64} (h1 : c.bytesCompleted.toNat ≤ k.toNat)
    (h2 : k.toNat < d.xferSize.toNat) :
    c.bytesCompleted.toNat ≤ (d.srcAddr + k - d.dstAddr).toNat := by
  rcases h with h0 | hall | ⟨_, hgap⟩
  · simp [h0]
  · rw [hall] at h1; omega
  · have he : d.srcAddr + k - d.dstAddr = k - (d.dstAddr - d.srcAddr) := by
      rw [sub_sub_eq_add_sub, add_comm]
    have hlt := (d.dstAddr - d.srcAddr).isLt
    rw [he, toNat_sub_of_lt (by omega)]
    omega

/-! ## A sequence of faults -/

theorem movePart_outside (hn : c.bytesCompleted ≤ d.xferSize) {a : BitVec 64}
    (ha : d.xferSize.toNat ≤ (a - d.dstAddr).toNat) : movePart m d c a = m a := by
  have hn' : c.bytesCompleted.toNat ≤ d.xferSize.toNat := hn
  simp only [movePart]
  split
  · exact move_of_le (by omega)
  · have hrest : ((d.xferSize - c.bytesCompleted).setWidth 64).toNat =
        d.xferSize.toNat - c.bytesCompleted.toNat := by
      rw [toNat_setWidth_64]; exact BitVec.toNat_sub_of_le hn
    have hsub : a - (d.dstAddr + (d.xferSize - c.bytesCompleted).setWidth 64) =
        (a - d.dstAddr) - (d.xferSize - c.bytesCompleted).setWidth 64 := sub_add_eq_sub_sub _ _ _
    refine move_of_le ?_
    rw [hsub, BitVec.toNat_sub_of_le (BitVec.le_def.mpr (by omega)), hrest]
    omega

theorem after_outside {n : BitVec 32} (hn : n ≤ d.xferSize) {a : BitVec 64}
    (ha : d.xferSize.toNat ≤ (a - d.dstAddr).toNat) :
    (d.after n).xferSize.toNat ≤ (a - (d.after n).dstAddr).toNat := by
  have hn' : n.toNat ≤ d.xferSize.toNat := hn
  have hsub : a - (d.after n).dstAddr = (a - d.dstAddr) - n.setWidth 64 := sub_add_eq_sub_sub _ _ _
  have hw := toNat_setWidth_64 n
  rw [hsub, BitVec.toNat_sub_of_le (BitVec.le_def.mpr (by omega)), after_xferSize hn]
  omega

variable {ok : CompletionRecord} {cs : List CompletionRecord}

/-- The operation ends, and it has written inside the destination only. -/
theorem run_frame (hok : ok.code = compSuccess) (hd : d.opcode = .memmove) (hf : Faults d cs) :
    ∃ m', o.run perform m d (cs ++ [ok]) = some ((), m') ∧
      ∀ a, d.xferSize.toNat ≤ (a - d.dstAddr).toNat → m' a = m a := by
  induction cs generalizing d m with
  | nil => exact ⟨_, run_move_success hok, fun a ha => move_of_le ha⟩
  | cons c cs ih =>
      obtain ⟨hc, hn, _, hrest⟩ := hf
      rw [adjust_eq hd] at hrest
      obtain ⟨m', he, hm'⟩ := ih (m := movePart m d c) (d := d.after c.bytesCompleted) hd hrest
      refine ⟨m', by rw [List.cons_append, run_move_fault hd hc, he], fun a ha => ?_⟩
      rw [hm' a (after_outside hn ha), movePart_outside hn ha]

theorem run_moved (hok : ok.code = compSuccess) (hd : d.opcode = .memmove) (hf : Faults d cs)
    (hh : AllHarmless d cs) : ∃ m', o.run perform m d (cs ++ [ok]) = some ((), m') ∧
      Moved m m' d.srcAddr d.dstAddr d.xferSize.toNat := by
  induction cs generalizing d m with
  | nil =>
      refine ⟨_, run_move_success hok, fun k hk => ?_⟩
      rw [moveAll, move_of_lt (by rwa [add_sub_cancel_left]), add_sub_cancel_left]
  | cons c cs ih =>
      obtain ⟨hc, hn, _, hrest⟩ := hf
      obtain ⟨hharm, hh⟩ := hh
      rw [adjust_eq hd] at hrest hh
      obtain ⟨m', he, hmoved⟩ := ih (m := movePart m d c) (d := d.after c.bytesCompleted) hd hrest hh
      obtain ⟨m'', he', hframe⟩ := run_frame (m := movePart m d c) hok
        (d := d.after c.bytesCompleted) hd hrest
      obtain ⟨_, rfl⟩ := Prod.mk.inj (Option.some.inj (he.symm.trans he'))
      refine ⟨m', by rw [List.cons_append, run_move_fault hd hc, he], fun k hk => ?_⟩
      have hn' : c.bytesCompleted.toNat ≤ d.xferSize.toNat := hn
      have hw := toNat_setWidth_64 c.bytesCompleted
      have hpart := movePart_eq (m := m) hharm
      rcases Nat.lt_or_ge k.toNat c.bytesCompleted.toNat with hlt | hge
      · -- the byte was moved before the fault and is not touched again
        rw [hframe (d.dstAddr + k), hpart, move_of_lt (by rwa [add_sub_cancel_left]),
          add_sub_cancel_left]
        have hsub : d.dstAddr + k - (d.after c.bytesCompleted).dstAddr =
            k - c.bytesCompleted.setWidth 64 := add_sub_add_left_eq_sub _ _ _
        rw [hsub, toNat_sub_of_lt (by omega), after_xferSize hn, hw]
        have := d.xferSize.isLt
        omega
      · -- the byte is still in the source
        have hk' : (k - c.bytesCompleted.setWidth 64).toNat = k.toNat - c.bytesCompleted.toNat := by
          rw [BitVec.toNat_sub_of_le (BitVec.le_def.mpr (by omega)), hw]
        have := hmoved (k - c.bytesCompleted.setWidth 64) (by rw [after_xferSize hn]; omega)
        simp only [HwDesc.after, add_assoc, add_sub_cancel] at this
        rw [this, hpart, move_of_le (hharm.apart hge hk)]

theorem run_same (hok : ok.code = compSuccess) (hd : d.opcode = .memmove) (hf : Faults d cs)
    (heq : d.srcAddr = d.dstAddr) : o.run perform m d (cs ++ [ok]) = some ((), m) := by
  induction cs generalizing d m with
  | nil => rw [List.nil_append, run_move_success hok, moveAll, heq, move_self]
  | cons c cs ih =>
      obtain ⟨hc, _, _, hrest⟩ := hf
      rw [adjust_eq hd] at hrest
      have hpart : movePart m d c = m := by
        simp only [movePart, heq]
        split <;> exact move_self
      rw [List.cons_append, run_move_fault hd hc, hpart]
      exact ih (d := d.after c.bytesCompleted) hd hrest (by simp [HwDesc.after, heq])

/-! ## A fault that is not harmless -/

def single (a : BitVec 64) : Memory := fun b => if b = a then 1 else 0

theorem run_zero (hok : ok.code = compSuccess) (hd : d.opcode = .memmove) (hf : Faults d cs) :
    o.run perform (fun _ => 0) d (cs ++ [ok]) = some ((), fun _ => 0) := by
  induction cs generalizing d with
  | nil => rw [List.nil_append, run_move_success hok, moveAll, move_const]
  | cons c cs ih =>
      obtain ⟨hc, _, _, hrest⟩ := hf
      rw [adjust_eq hd] at hrest
      have hpart : movePart (fun _ => 0) d c = fun _ => 0 := by
        simp only [movePart]
        split <;> exact move_const 0
      rw [List.cons_append, run_move_fault hd hc, hpart]
      exact ih (d := d.after c.bytesCompleted) hd hrest

/-- A byte of the source that is still to be moved stays the only one in memory. -/
theorem move_single {n : Nat} {src dst p : BitVec 64} (h1 : n ≤ p.toNat)
    (h2 : n ≤ (src + p - dst).toNat) : move (single (src + p)) src dst n = single (src + p) := by
  funext a
  by_cases ha : (a - dst).toNat < n
  · have hne : a - dst ≠ p := by rintro rfl; omega
    have hne' : a ≠ src + p := by rintro rfl; omega
    rw [move_of_lt ha]
    simp [single, hne, hne']
  · exact move_of_le (by omega)

/-- A byte of the source that is overwritten before it was moved is gone. -/
theorem move_single_lost {n : Nat} {src dst p : BitVec 64} (h1 : n ≤ p.toNat)
    (h2 : (src + p - dst).toNat < n) : move (single (src + p)) src dst n = fun _ => 0 := by
  funext a
  by_cases ha : (a - dst).toNat < n
  · have hne : a - dst ≠ p := by rintro rfl; omega
    rw [move_of_lt ha]
    simp [single, hne]
  · have hne : a ≠ src + p := by rintro rfl; omega
    rw [move_of_le (by omega)]
    simp [single, hne]

/-- The device works forwards and the destination begins inside the source: a byte of the source is
overwritten before it was moved. -/
theorem run_loses_forward (hok : ok.code = compSuccess) (hd : d.opcode = .memmove)
    (hf : Faults d (c :: cs)) (hne : d.srcAddr ≠ d.dstAddr) (h0 : 0 < c.bytesCompleted.toNat)
    (hall : c.bytesCompleted.toNat < d.xferSize.toNat) (hr : c.result = 0)
    (hlt : (d.dstAddr - d.srcAddr).toNat < d.xferSize.toNat) :
    ∃ p : BitVec 64, p.toNat < d.xferSize.toNat ∧ ∃ m',
      o.run perform (single (d.srcAddr + p)) d (c :: cs ++ [ok]) = some ((), m') ∧ m' (d.dstAddr + p) = 0 := by
  obtain ⟨hc, _, _, hrest⟩ := hf
  rw [adjust_eq hd] at hrest
  have hpos : 0 < (d.dstAddr - d.srcAddr).toNat := by
    rcases Nat.eq_zero_or_pos (d.dstAddr - d.srcAddr).toNat with hz | hpos
    · exact absurd (sub_eq_zero.mp (BitVec.eq_of_toNat_eq hz)).symm hne
    · exact hpos
  have hw := toNat_setWidth_64 c.bytesCompleted
  obtain ⟨p, hp1, hp2, hp3, hp4⟩ : ∃ p : BitVec 64, c.bytesCompleted.toNat ≤ p.toNat ∧
      (d.dstAddr - d.srcAddr).toNat ≤ p.toNat ∧ p.toNat < d.xferSize.toNat ∧
      p.toNat - (d.dstAddr - d.srcAddr).toNat < c.bytesCompleted.toNat := by
    rcases Nat.le_total c.bytesCompleted.toNat (d.dstAddr - d.srcAddr).toNat with hle | hle
    · exact ⟨d.dstAddr - d.srcAddr, hle, Nat.le_refl _, hlt, by omega⟩
    · exact ⟨c.bytesCompleted.setWidth 64, by omega, by omega, by omega, by omega⟩
  have hsub : d.srcAddr + p - d.dstAddr = p - (d.dstAddr - d.srcAddr) := by
    rw [sub_sub_eq_add_sub, add_comm]
  refine ⟨p, hp3, fun _ => 0, ?_, rfl⟩
  rw [List.cons_append, run_move_fault hd hc]
  simp only [movePart, hr, ↓reduceIte]
  rw [move_single_lost hp1 (by
    rw [hsub, BitVec.toNat_sub_of_le (BitVec.le_def.mpr hp2)]; exact hp4)]
  exact run_zero hok hd hrest

/-- The device works backwards: the first byte is skipped. -/
theorem run_loses_backward (hok : ok.code = compSuccess) (hd : d.opcode = .memmove)
    (hf : Faults d (c :: cs)) (hne : d.srcAddr ≠ d.dstAddr) (h0 : 0 < c.bytesCompleted.toNat)
    (hall : c.bytesCompleted.toNat < d.xferSize.toNat) (hr : ¬ c.result = 0) :
    ∃ m', o.run perform (single (d.srcAddr + 0)) d (c :: cs ++ [ok]) = some ((), m') ∧
      m' (d.dstAddr + 0) = 0 := by
  obtain ⟨hc, hn, _, hrest⟩ := hf
  rw [adjust_eq hd] at hrest
  obtain ⟨m', he, hframe⟩ := run_frame (m := movePart (single (d.srcAddr + 0)) d c) hok
    (d := d.after c.bytesCompleted) hd hrest
  refine ⟨m', by rw [List.cons_append, run_move_fault hd hc, he], ?_⟩
  have hw := toNat_setWidth_64 c.bytesCompleted
  have hx := d.xferSize.isLt
  have hleft : ((d.xferSize - c.bytesCompleted).setWidth 64).toNat =
      d.xferSize.toNat - c.bytesCompleted.toNat := by
    rw [toNat_setWidth_64]; exact BitVec.toNat_sub_of_le hn
  rw [hframe]
  · simp only [movePart, hr, ↓reduceIte]
    rw [move_before (by rw [hleft]; simp; omega) (by omega)]
    simp [single, hne.symm]
  · have hsub : d.dstAddr + 0 - (d.after c.bytesCompleted).dstAddr =
        0 - c.bytesCompleted.setWidth 64 := add_sub_add_left_eq_sub _ _ _
    rw [hsub, toNat_sub_of_lt (by simp; omega), after_xferSize hn, hw]
    simp; omega

theorem run_loses (hok : ok.code = compSuccess) (hd : d.opcode = .memmove)
    (hf : Faults d (c :: cs)) (hne : d.srcAddr ≠ d.dstAddr) (hh : ¬ Harmless d c) :
    ∃ p : BitVec 64, p.toNat < d.xferSize.toNat ∧ ∃ m',
      o.run perform (single (d.srcAddr + p)) d (c :: cs ++ [ok]) = some ((), m') ∧ m' (d.dstAddr + p) = 0 := by
  have hn : c.bytesCompleted.toNat ≤ d.xferSize.toNat := hf.2.1
  simp only [Harmless, not_or, not_and, Nat.not_le] at hh
  obtain ⟨h0, hall, hgap⟩ := hh
  have h0' : 0 < c.bytesCompleted.toNat := by
    rcases Nat.eq_zero_or_pos c.bytesCompleted.toNat with hz | hpos
    · exact absurd (BitVec.eq_of_toNat_eq hz) h0
    · exact hpos
  have hall' : c.bytesCompleted.toNat < d.xferSize.toNat := by
    rcases Nat.lt_or_eq_of_le hn with hlt | heq
    · exact hlt
    · exact absurd (BitVec.eq_of_toNat_eq heq) hall
  by_cases hr : c.result = 0
  · exact run_loses_forward hok hd hf hne h0' hall' hr (hgap hr)
  · exact ⟨0, by simp; omega, run_loses_backward hok hd hf hne h0' hall' hr⟩

/-- One fault that is not harmless is enough to lose a byte. -/
theorem exists_lost (hok : ok.code = compSuccess) (hd : d.opcode = .memmove) (hf : Faults d cs)
    (hne : d.srcAddr ≠ d.dstAddr) (hh : ¬ AllHarmless d cs) :
    ∃ p : BitVec 64, p.toNat < d.xferSize.toNat ∧ ∃ m',
      o.run perform (single (d.srcAddr + p)) d (cs ++ [ok]) = some ((), m') ∧ m' (d.dstAddr + p) = 0 := by
  induction cs generalizing d with
  | nil => exact absurd trivial hh
  | cons c cs ih =>
      by_cases hharm : Harmless d c
      · obtain ⟨hc, hn, _, hrest⟩ := hf
        have hh' : ¬ AllHarmless (d.after c.bytesCompleted) cs := by
          intro hall
          exact hh ⟨hharm, by rw [adjust_eq hd]; exact hall⟩
        rw [adjust_eq hd] at hrest
        obtain ⟨p, hp, m', he, hm'⟩ := ih (d := d.after c.bytesCompleted) hd hrest
          (by simpa [HwDesc.after] using hne) hh'
        rw [after_xferSize hn] at hp
        have hw := toNat_setWidth_64 c.bytesCompleted
        have hx := d.xferSize.isLt
        have hsum : (c.bytesCompleted.setWidth 64 + p).toNat = c.bytesCompleted.toNat + p.toNat := by
          rw [BitVec.toNat_add, hw, Nat.mod_eq_of_lt (by omega)]
        refine ⟨c.bytesCompleted.setWidth 64 + p, by omega, m', ?_, ?_⟩
        · rw [List.cons_append, run_move_fault hd hc, movePart_eq hharm,
            move_single (by omega) (hharm.apart (by omega) (by omega)), ← add_assoc]
          exact he
        · rw [← add_assoc]; exact hm'
      · exact run_loses hok hd hf hne hharm

end DsaStdexec.Operation

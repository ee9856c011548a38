import DsaStdexec.Operation.Lemmas.Resume

/-!
# Compare and Memory Copy with Dualcast
-/

namespace DsaStdexec.Operation

open DsaStdexec.Lib

variable {crc : BitVec 32 → List UInt8 → BitVec 32} {m : Memory} {d : HwDesc}
  {c ok : CompletionRecord} {cs : List CompletionRecord}

/-! ## Compare -/

variable {q : DsaOperation Bool}

theorem matches_adjust (hd : d.opcode = .compare) (k : Nat) :
    Matches m (adjustForPageFault d c) k ↔ Matches m d (c.bytesCompleted.toNat + k) := by
  have hd' : (adjustForPageFault d c).opcode = .compare := by rw [adjust_opcode, hd]
  have hsrc := adjust_srcAddr (d := d) (c := c) (by rw [hd]; rfl)
  have hdst : (adjustForPageFault d c).dstAddr =
      d.dstAddr + BitVec.ofNat 64 c.bytesCompleted.toNat := by simp [adjustForPageFault, hd]
  simp only [Matches, hd, hd', hsrc, hdst, BitVec.ofNat_add, add_assoc]

theorem compare_result (hd : d.opcode = .compare) (h : q.Answered crc ok m d cs) :
    ok.result = 0 ↔ ∀ k < d.xferSize.toNat, Matches m d k := by
  induction cs generalizing d with
  | nil =>
      obtain ⟨hok, hrep⟩ := h
      simpa [Reports, hd, DsaOperation.not_fault_of_succeeds hok, processed_success hok] using hrep
  | cons c cs ih =>
      obtain ⟨hc, hle, hrep, hrest⟩ := h
      have hle' : c.bytesCompleted.toNat ≤ d.xferSize.toNat := hle
      have hx := adjust_xferSize (by rw [hd]; rfl) hle
      rw [performForwards_compare (Or.inl hd)] at hrest
      simp only [Reports, hd, hc, ↓reduceIte, processed_fault hc] at hrep
      rw [ih (by rw [adjust_opcode, hd]) hrest, hx]
      constructor
      · intro hall k hk
        rcases Nat.lt_or_ge k c.bytesCompleted.toNat with hlt | hge
        · exact hrep.2 k hlt
        · have := (matches_adjust hd _).mp (hall (k - c.bytesCompleted.toNat) (by omega))
          rwa [Nat.add_sub_cancel' hge] at this
      · intro hall k hk
        exact (matches_adjust hd k).mpr (hall _ (by omega))

/-- Both sources of `d` have advanced by the same number of bytes. -/
structure Aligned (src1 src2 : BitVec 64) (d : HwDesc) : Prop where
  opcode : d.opcode = .compare
  offset : d.dstAddr - src2 = d.srcAddr - src1

theorem Aligned.adjust {src1 src2 : BitVec 64} (h : Aligned src1 src2 d) :
    Aligned src1 src2 (adjustForPageFault d c) := by
  refine ⟨by rw [adjust_opcode, h.opcode], ?_⟩
  simp only [adjustForPageFault, h.opcode]
  rw [add_sub_right_comm, h.offset, add_sub_right_comm]

/-! ## Descriptors along a dualcast -/

/-- `d` is the descriptor of a dualcast whose first `n` bytes are done. -/
structure Advanced (src dst1 dst2 : BitVec 64) (size : Nat) (d : HwDesc) : Prop where
  opcode : d.opcode = .dualcast
  offset : ∃ n : BitVec 64, d.srcAddr = src + n ∧ d.dstAddr = dst1 + n ∧ d.dest2 = dst2 + n ∧
    n.toNat + d.xferSize.toNat = size

theorem Advanced.adjust {src dst1 dst2 : BitVec 64} {size : Nat} (hs : size < 2 ^ 64)
    (h : Advanced src dst1 dst2 size d) (hn : c.bytesCompleted ≤ d.xferSize) :
    Advanced src dst1 dst2 size (adjustForPageFault d c) := by
  have hd := h.opcode
  obtain ⟨n, h1, h2, h3, h4⟩ := h.offset
  have hle : c.bytesCompleted.toNat ≤ d.xferSize.toNat := hn
  have hx := adjust_xferSize (by rw [hd]; rfl) hn
  refine ⟨by rw [adjust_opcode, hd], n + c.bytesCompleted.setWidth 64, ?_, ?_, ?_, ?_⟩
  · simp [adjustForPageFault, hd, h1, add_assoc]
  · simp [adjustForPageFault, hd, h2, add_assoc]
  · simp [adjustForPageFault, hd, h3, add_assoc]
  · rw [BitVec.toNat_add, toNat_setWidth_64, hx, Nat.mod_eq_of_lt (by omega)]
    omega

theorem and_low_eq_iff (a b : BitVec 64) :
    a &&& 0xfff = b &&& 0xfff ↔ a.toNat % 4096 = b.toNat % 4096 := by
  have hmask : ∀ x : BitVec 64, (x &&& 0xfff).toNat = x.toNat % 4096 := fun x => by
    rw [BitVec.toNat_and]
    exact Nat.and_two_pow_sub_one_eq_mod x.toNat 12
  rw [← BitVec.toNat_inj, hmask, hmask]

/-- Advancing both destinations by the same number of bytes keeps their low bits equal. -/
theorem Advanced.low_bits {src dst1 dst2 : BitVec 64} {size : Nat}
    (h : Advanced src dst1 dst2 size d) (hlow : dst1 &&& 0xfff = dst2 &&& 0xfff) :
    d.dstAddr &&& 0xfff = d.dest2 &&& 0xfff := by
  obtain ⟨n, _, h2, h3, _⟩ := h.offset
  rw [and_low_eq_iff] at hlow ⊢
  rw [h2, h3, BitVec.toNat_add, BitVec.toNat_add]
  omega

/-! ## Dualcast -/

variable {o : DsaOperation Unit}

/-- The three buffers of `d` do not overlap. -/
structure Separate (d : HwDesc) : Prop where
  src_dst : Apart d.srcAddr d.dstAddr d.xferSize.toNat
  src_dest2 : Apart d.srcAddr d.dest2 d.xferSize.toNat
  dst_dest2 : Apart d.dstAddr d.dest2 d.xferSize.toNat

theorem Separate.adjust (hd : d.opcode = .dualcast) (h : Separate d)
    (hn : c.bytesCompleted ≤ d.xferSize) : Separate (adjustForPageFault d c) := by
  have hx := adjust_xferSize (by rw [hd]; rfl) hn
  have hlt := d.xferSize.isLt
  have hw := toNat_setWidth_64 c.bytesCompleted
  have hle : (c.bytesCompleted.setWidth 64).toNat ≤ d.xferSize.toNat := by rw [hw]; exact hn
  have hsrc : (adjustForPageFault d c).srcAddr = d.srcAddr + c.bytesCompleted.setWidth 64 := by
    simp [adjustForPageFault, hd]
  have hdst : (adjustForPageFault d c).dstAddr = d.dstAddr + c.bytesCompleted.setWidth 64 := by
    simp [adjustForPageFault, hd]
  have hdst2 : (adjustForPageFault d c).dest2 = d.dest2 + c.bytesCompleted.setWidth 64 := by
    simp [adjustForPageFault, hd]
  refine ⟨?_, ?_, ?_⟩
  · rw [hsrc, hdst, hx, ← hw]; exact h.src_dst.drop hle (by omega)
  · rw [hsrc, hdst2, hx, ← hw]; exact h.src_dest2.drop hle (by omega)
  · rw [hdst, hdst2, hx, ← hw]; exact h.dst_dest2.drop hle (by omega)

/-- `m'` is `m` with the first `n` bytes of the source copied to both destinations. -/
structure Copied (m m' : Memory) (d : HwDesc) (n : Nat) : Prop where
  first : ∀ k : BitVec 64, k.toNat < n → m' (d.dstAddr + k) = m (d.srcAddr + k)
  second : ∀ k : BitVec 64, k.toNat < n → m' (d.dest2 + k) = m (d.srcAddr + k)
  frame : ∀ a, n ≤ (a - d.dstAddr).toNat → n ≤ (a - d.dest2).toNat → m' a = m a

theorem Separate.copied (h : Separate d) (hd : d.opcode = .dualcast) {n : Nat}
    (hn : n ≤ d.xferSize.toNat) : Copied m (work m d n) d n := by
  have hwork : work m d n = move (move m d.srcAddr d.dstAddr n) d.srcAddr d.dest2 n := by
    simp [work, hd]
  rw [hwork]
  refine ⟨fun k hk => ?_, fun k hk => ?_, fun a h1 h2 => ?_⟩
  · have hout := h.dst_dest2.le_sub (i := k) (by omega)
    rw [move_of_le (by omega), move_of_lt (by rwa [add_sub_cancel_left]), add_sub_cancel_left]
  · have hout := h.src_dst.le_sub (i := k) (by omega)
    rw [move_of_lt (by rwa [add_sub_cancel_left]), add_sub_cancel_left, move_of_le (by omega)]
  · rw [move_of_le h2, move_of_le h1]

/-- The part before a fault and the part after it make up the whole. -/
theorem Copied.trans {m₁ m₂ : Memory} (h : Separate d) (hd : d.opcode = .dualcast)
    (hn : c.bytesCompleted ≤ d.xferSize) (h1 : Copied m m₁ d c.bytesCompleted.toNat)
    (h2 : Copied m₁ m₂ (adjustForPageFault d c) (adjustForPageFault d c).xferSize.toNat) :
    Copied m m₂ d d.xferSize.toNat := by
  have hx := adjust_xferSize (by rw [hd]; rfl) hn
  have hle : c.bytesCompleted.toNat ≤ d.xferSize.toNat := hn
  have hlt := d.xferSize.isLt
  have hw := toNat_setWidth_64 c.bytesCompleted
  have hsrc : (adjustForPageFault d c).srcAddr = d.srcAddr + c.bytesCompleted.setWidth 64 := by
    simp [adjustForPageFault, hd]
  have hdst : (adjustForPageFault d c).dstAddr = d.dstAddr + c.bytesCompleted.setWidth 64 := by
    simp [adjustForPageFault, hd]
  have hdst2 : (adjustForPageFault d c).dest2 = d.dest2 + c.bytesCompleted.setWidth 64 := by
    simp [adjustForPageFault, hd]
  obtain ⟨hf2, hs2, hframe2⟩ := h2
  rw [hdst, hx, hsrc] at hf2
  rw [hdst2, hx, hsrc] at hs2
  rw [hdst, hdst2, hx] at hframe2
  -- an address outside a whole buffer is outside the rest of it
  have hrest : ∀ a b : BitVec 64, d.xferSize.toNat ≤ (a - b).toNat →
      d.xferSize.toNat - c.bytesCompleted.toNat ≤
        (a - (b + c.bytesCompleted.setWidth 64)).toNat := by
    intro a b hab
    rw [sub_add_eq_sub_sub, BitVec.toNat_sub_of_le (BitVec.le_def.mpr (by omega)), hw]
    omega
  -- an address in the part that is done is outside the rest of its own buffer
  have hdone : ∀ (b k : BitVec 64), k.toNat < c.bytesCompleted.toNat →
      d.xferSize.toNat - c.bytesCompleted.toNat ≤
        (b + k - (b + c.bytesCompleted.setWidth 64)).toNat := by
    intro b k hk
    rw [add_sub_add_left_eq_sub, toNat_sub_of_lt (by omega), hw]
    omega
  -- the bytes of the source that are left have not been written
  have hkept : ∀ k : BitVec 64, c.bytesCompleted.toNat ≤ k.toNat → k.toNat < d.xferSize.toNat →
      m₁ (d.srcAddr + k) = m (d.srcAddr + k) := by
    intro k _ hk
    have h3 := h.src_dst.le_sub hk
    have h4 := h.src_dest2.le_sub hk
    exact h1.frame _ (by omega) (by omega)
  have hlate : ∀ k : BitVec 64, c.bytesCompleted.toNat ≤ k.toNat → k.toNat < d.xferSize.toNat →
      ∃ j : BitVec 64, k = c.bytesCompleted.setWidth 64 + j ∧
        j.toNat < d.xferSize.toNat - c.bytesCompleted.toNat := by
    intro k hge hk
    refine ⟨k - c.bytesCompleted.setWidth 64, (add_sub_cancel _ _).symm, ?_⟩
    rw [BitVec.toNat_sub_of_le (BitVec.le_def.mpr (by omega)), hw]
    omega
  refine ⟨fun k hk => ?_, fun k hk => ?_, fun a ha1 ha2 => ?_⟩
  · rcases Nat.lt_or_ge k.toNat c.bytesCompleted.toNat with hlt' | hge
    · rw [hframe2 _ (hdone _ k hlt') (hrest _ _ (h.dst_dest2.le_sub hk)), h1.first k hlt']
    · obtain ⟨j, rfl, hj⟩ := hlate k hge hk
      rw [← hkept _ hge hk, ← add_assoc, hf2 j hj, add_assoc]
  · rcases Nat.lt_or_ge k.toNat c.bytesCompleted.toNat with hlt' | hge
    · rw [hframe2 _ (hrest _ _ (h.dst_dest2.symm.le_sub hk)) (hdone _ k hlt'), h1.second k hlt']
    · obtain ⟨j, rfl, hj⟩ := hlate k hge hk
      rw [← hkept _ hge hk, ← add_assoc, hs2 j hj, add_assoc]
  · rw [hframe2 a (hrest a _ ha1) (hrest a _ ha2), h1.frame a (by omega) (by omega)]

theorem dualcast_run (hd : d.opcode = .dualcast) (hs : Separate d) (h : o.Answered crc ok m d cs) :
    ∃ m', o.run performForwards m d (cs ++ [ok]) = some ((), m') ∧
      Copied m m' d d.xferSize.toNat := by
  induction cs generalizing m d with
  | nil =>
      refine ⟨_, DsaOperation.run_success h.1, ?_⟩
      rw [performForwards, processed_success h.1]
      exact hs.copied hd (Nat.le_refl _)
  | cons c cs ih =>
      obtain ⟨hc, hle, _, hrest⟩ := h
      obtain ⟨m', hrun, hcop⟩ := ih (by rw [adjust_opcode, hd]) (hs.adjust hd hle) hrest
      refine ⟨m', by rw [List.cons_append, DsaOperation.run_fault hc, hrun], ?_⟩
      have hfirst := hs.copied (m := m) hd (n := c.bytesCompleted.toNat) hle
      rw [performForwards, processed_fault hc] at hcop
      exact hfirst.trans hs hd hle hcop

end DsaStdexec.Operation

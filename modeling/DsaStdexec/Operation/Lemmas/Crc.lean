import DsaStdexec.Operation.Lemmas.Resume

/-!
# CRC Generation and Copy with CRC Generation
-/

namespace DsaStdexec.Operation

open DsaStdexec.Lib

variable {crc : BitVec 32 → List UInt8 → BitVec 32} {m m' : Memory} {d : HwDesc}
  {c ok : CompletionRecord} {cs : List CompletionRecord}

/-! ## Bytes of memory -/

theorem bytes_add (m : Memory) (a : BitVec 64) (i j : Nat) :
    bytes m a (i + j) = bytes m a i ++ bytes m (a + BitVec.ofNat 64 i) j := by
  simp only [bytes, List.range_add, List.map_append, List.map_map]
  congr 2
  funext k
  simp only [Function.comp_apply, BitVec.ofNat_add, add_assoc]

theorem bytes_congr {a : BitVec 64} {n : Nat}
    (h : ∀ k < n, m (a + BitVec.ofNat 64 k) = m' (a + BitVec.ofNat 64 k)) :
    bytes m a n = bytes m' a n := by
  apply List.map_congr_left
  intro k hk
  exact h k (List.mem_range.mp hk)

theorem crc32c_append (s : BitVec 32) (a b : List UInt8) :
    crc32c (crc32c s a) b = crc32c s (a ++ b) := by
  simp [crc32c, List.foldl_append]

/-! ## One fault -/

/-- The descriptors that end with a CRC. A copy must not overwrite its source. -/
def CrcDesc (d : HwDesc) : Prop :=
  d.opcode = .crcgen ∨ d.opcode = .copyCrc ∧ Apart d.srcAddr d.dstAddr d.xferSize.toNat

theorem CrcDesc.transfers (h : CrcDesc d) : d.opcode.transfers = true := by
  rcases h with h | ⟨h, _⟩ <;> rw [h] <;> rfl

theorem CrcDesc.movesSource (h : CrcDesc d) : d.opcode.movesSource = true := by
  rcases h with h | ⟨h, _⟩ <;> rw [h] <;> rfl

theorem CrcDesc.adjust_crcSeed (h : CrcDesc d) :
    (adjustForPageFault d c).crcSeed = c.crcVal.setWidth 32 := by
  rcases h with h | ⟨h, _⟩ <;> simp [adjustForPageFault, h]

theorem CrcDesc.adjust (h : CrcDesc d) (hn : c.bytesCompleted ≤ d.xferSize) :
    CrcDesc (adjustForPageFault d c) := by
  rcases h with h | ⟨h, hap⟩
  · exact Or.inl (by rw [adjust_opcode, h])
  · refine Or.inr ⟨by rw [adjust_opcode, h], ?_⟩
    have hlt := d.xferSize.isLt
    have hw := toNat_setWidth_64 c.bytesCompleted
    have hle : (c.bytesCompleted.setWidth 64).toNat ≤ d.xferSize.toNat := by rw [hw]; exact hn
    have hdrop := hap.drop hle (by omega)
    rw [adjust_xferSize (by rw [h]; rfl) hn, ← hw]
    simpa [adjustForPageFault, h] using hdrop

theorem CrcDesc.reports_iff (h : CrcDesc d) : Reports crc m d c ↔
    c.code = compPageFaultNobof ∧ c.bytesCompleted = 0 ∨
      c.crcVal.setWidth 32 = crc d.crcSeed (bytes m d.srcAddr (processed d c)) := by
  rcases h with h | ⟨h, _⟩ <;> simp [Reports, h]

/-- What the device does leaves the source as it was. -/
theorem CrcDesc.source_kept (h : CrcDesc d) {n k : Nat} (hn : n ≤ d.xferSize.toNat)
    (hk : k < d.xferSize.toNat) :
    work m d n (d.srcAddr + BitVec.ofNat 64 k) = m (d.srcAddr + BitVec.ofNat 64 k) := by
  rcases h with h | ⟨h, hap⟩
  · simp [work, h]
  · have hlt := d.xferSize.isLt
    have hk' : (BitVec.ofNat 64 k).toNat = k := by
      rw [BitVec.toNat_ofNat, Nat.mod_eq_of_lt (by omega)]
    have hout := hap.le_sub (i := BitVec.ofNat 64 k) (by omega)
    simp only [work, h]
    exact move_of_le (by omega)

/-! ## A sequence of faults -/

variable {o : DsaOperation (BitVec 32)}

theorem CrcDesc.run (h : CrcDesc d) (ha : o.Answered crc ok m d cs) :
    ∃ m', o.run performForwards m d (cs ++ [ok]) = some (o.extractResult ok, m') := by
  induction cs generalizing m d with
  | nil => exact ⟨_, DsaOperation.run_success ha.1⟩
  | cons c cs ih =>
      obtain ⟨hc, hle, _, hrest⟩ := ha
      obtain ⟨m', hrun⟩ := ih (h.adjust hle) hrest
      exact ⟨m', by rw [List.cons_append, DsaOperation.run_fault hc, hrun]⟩

/-- The seed of `d` is right, unless a later fault without progress replaces it. -/
def SeedStands (s : BitVec 32) (d : HwDesc) (cs : List CompletionRecord) : Prop :=
  (∀ c ∈ cs, c.bytesCompleted ≠ 0) → d.crcSeed = s

/-- No fault reports more bytes than its descriptor had. -/
def Within : HwDesc → List CompletionRecord → Prop
  | _, [] => True
  | d, c :: cs => c.bytesCompleted ≤ d.xferSize ∧ Within (adjustForPageFault d c) cs

theorem DsaOperation.Answered.within (h : o.Answered crc ok m d cs) : Within d cs := by
  induction cs generalizing m d with
  | nil => trivial
  | cons c cs ih => exact ⟨h.2.1, ih h.2.2.2⟩

/-- The condition on the seeds looks at the source only. -/
theorem seedRestored_congr {s : BitVec 32} (h : CrcDesc d) (hw : Within d cs)
    (hm : ∀ k < d.xferSize.toNat,
      m (d.srcAddr + BitVec.ofNat 64 k) = m' (d.srcAddr + BitVec.ofNat 64 k)) :
    SeedRestored crc m s d cs ↔ SeedRestored crc m' s d cs := by
  induction cs generalizing d s with
  | nil => exact Iff.rfl
  | cons c cs ih =>
      obtain ⟨hle, hw⟩ := hw
      have hle' : c.bytesCompleted.toNat ≤ d.xferSize.toNat := hle
      have hx := adjust_xferSize h.transfers hle
      have hb : bytes m d.srcAddr c.bytesCompleted.toNat = bytes m' d.srcAddr c.bytesCompleted.toNat :=
        bytes_congr fun k hk => hm k (by omega)
      simp only [SeedRestored, hb]
      apply and_congr Iff.rfl
      apply ih (h.adjust hle) hw
      intro k hk
      rw [adjust_srcAddr h.movesSource, add_assoc, ← BitVec.ofNat_add]
      exact hm _ (by omega)

section

variable (happend : ∀ s a b, crc (crc s a) b = crc s (a ++ b))

include happend

/-- The CRC of what `d` is left to do, continued from `s`. -/
theorem CrcDesc.split (h : CrcDesc d) (hle : c.bytesCompleted ≤ d.xferSize) (s : BitVec 32) :
    crc (if c.bytesCompleted = 0 then s else crc s (bytes m d.srcAddr c.bytesCompleted.toNat))
        (bytes m (adjustForPageFault d c).srcAddr (adjustForPageFault d c).xferSize.toNat) =
      crc s (bytes m d.srcAddr d.xferSize.toNat) := by
  have hle' : c.bytesCompleted.toNat ≤ d.xferSize.toNat := hle
  have hsplit := bytes_add m d.srcAddr c.bytesCompleted.toNat
    (d.xferSize.toNat - c.bytesCompleted.toNat)
  rw [Nat.add_sub_cancel' hle'] at hsplit
  rw [adjust_srcAddr h.movesSource, adjust_xferSize h.transfers hle, hsplit]
  split
  · rename_i h0
    simp [h0, bytes]
  · exact happend _ _ _

/-- The value is right if the seeds are, and only then where different seeds give different values. -/
theorem CrcDesc.value (h : CrcDesc d) (ha : o.Answered crc ok m d cs) (s : BitVec 32) :
    (SeedStands s d cs → SeedRestored crc m s d cs →
      ok.crcVal.setWidth 32 = crc s (bytes m d.srcAddr d.xferSize.toNat)) ∧
    ((∀ l, Function.Injective fun s => crc s l) →
      ok.crcVal.setWidth 32 = crc s (bytes m d.srcAddr d.xferSize.toNat) →
      SeedStands s d cs ∧ SeedRestored crc m s d cs) := by
  induction cs generalizing m d s with
  | nil =>
      obtain ⟨hok, hrep⟩ := ha
      have hnf := DsaOperation.not_fault_of_succeeds hok
      rw [h.reports_iff, processed_success hok] at hrep
      have hval : ok.crcVal.setWidth 32 = crc d.crcSeed (bytes m d.srcAddr d.xferSize.toNat) := by
        rcases hrep with ⟨hf, _⟩ | hval
        · exact absurd hf hnf
        · exact hval
      constructor
      · intro hst _
        rw [hval, hst (by simp)]
      · intro hinj hright
        exact ⟨fun _ => hinj _ (hval.symm.trans hright), trivial⟩
  | cons c cs ih =>
      obtain ⟨hc, hle, hrep, hrest⟩ := ha
      have hle' : c.bytesCompleted.toNat ≤ d.xferSize.toNat := hle
      have hx := adjust_xferSize h.transfers hle
      have h' := h.adjust hle
      -- the next descriptor reads the same source
      have hkept : ∀ k < (adjustForPageFault d c).xferSize.toNat,
          m ((adjustForPageFault d c).srcAddr + BitVec.ofNat 64 k) =
            performForwards m d c ((adjustForPageFault d c).srcAddr + BitVec.ofNat 64 k) := by
        intro k hk
        rw [performForwards, processed_fault hc, adjust_srcAddr h.movesSource, add_assoc,
          ← BitVec.ofNat_add, h.source_kept hle' (by omega)]
      have hseed := h.adjust_crcSeed (c := c)
      rw [h.reports_iff, processed_fault hc] at hrep
      obtain ⟨ih1, ih2⟩ := ih h' hrest
        (if c.bytesCompleted = 0 then s else crc s (bytes m d.srcAddr c.bytesCompleted.toNat))
      rw [← bytes_congr hkept, CrcDesc.split happend h hle,
        ← seedRestored_congr h' hrest.within hkept] at ih1 ih2
      by_cases h0 : c.bytesCompleted = 0
      · -- nothing was done, and the seed is whatever the record holds
        constructor
        · rintro _ ⟨hlast, hres⟩
          refine ih1 (fun hall => ?_) hres
          rw [hseed, if_pos h0]
          exact hlast h0 hall
        · intro hinj hright
          obtain ⟨hst, hres⟩ := ih2 hinj hright
          refine ⟨fun hall => absurd h0 (hall c List.mem_cons_self), fun _ hall => ?_, hres⟩
          have := hst hall
          rwa [hseed, if_pos h0] at this
      · have hval : c.crcVal.setWidth 32 =
            crc d.crcSeed (bytes m d.srcAddr c.bytesCompleted.toNat) := by
          rcases hrep with ⟨_, hz⟩ | hval
          · exact absurd hz h0
          · exact hval
        constructor
        · rintro hst ⟨_, hres⟩
          refine ih1 (fun hall => ?_) hres
          have hd : d.crcSeed = s := hst fun c' hc' => by
            rcases List.mem_cons.mp hc' with rfl | hc'
            · exact h0
            · exact hall c' hc'
          rw [hseed, if_neg h0, hval, hd]
        · intro hinj hright
          obtain ⟨hst, hres⟩ := ih2 hinj hright
          refine ⟨fun hall => ?_, fun hz => absurd hz h0, hres⟩
          have := hst fun c' hc' => hall c' (List.mem_cons_of_mem _ hc')
          rw [hseed, if_neg h0, hval] at this
          exact hinj _ this

end

end DsaStdexec.Operation

import DsaStdexec.Operation.Lemmas.Resume

/-!
# Fill and Compare Pattern

Each descriptor applies the pattern from its own start, so a sequence of faults restarts the pattern
after each partial completion.
-/

namespace DsaStdexec.Operation

open DsaStdexec.Lib

variable {crc : BitVec 32 → List UInt8 → BitVec 32} {m : Memory} {d : HwDesc}
  {ok : CompletionRecord} {cs : List CompletionRecord}

/-- The lengths of the parts that were done before each of the faults. -/
def lengths (cs : List CompletionRecord) : List Nat := cs.map fun c => c.bytesCompleted.toNat

/-- The bytes that the descriptors from `d` on apply. -/
def applied (pattern : BitVec 64) (cs : List CompletionRecord) : Nat → UInt8 :=
  restarted (patternByte pattern) (lengths cs)

theorem applied_nil (pattern : BitVec 64) : applied pattern [] = patternByte pattern := rfl

theorem applied_cons (pattern : BitVec 64) (c : CompletionRecord) (k : Nat) :
    applied pattern (c :: cs) k =
      if k < c.bytesCompleted.toNat then patternByte pattern k
      else applied pattern cs (k - c.bytesCompleted.toNat) := rfl

theorem inPhase_iff {pattern : BitVec 64} {o : Nat} (ht : d.opcode.transfers = true)
    (h : Interrupts d cs) : InPhase pattern o d cs ↔
      ∀ k < d.xferSize.toNat, applied pattern cs k = patternByte pattern (o + k) := by
  induction cs generalizing d o with
  | nil =>
      simp only [InPhase, PhaseKept, applied_nil]
      exact forall₂_congr fun k _ => eq_comm
  | cons c cs ih =>
      obtain ⟨_, hle, _, hrest⟩ := h
      have hle' : c.bytesCompleted.toNat ≤ d.xferSize.toNat := hle
      have hx := adjust_xferSize ht hle
      rw [InPhase, ih (by rw [adjust_opcode]; exact ht) hrest, hx]
      constructor
      · rintro ⟨hphase, hall⟩ k hk
        rw [applied_cons]
        split
        · rename_i hlt
          exact (hphase k hlt).symm
        · rename_i hge
          rw [hall _ (by omega)]
          congr 1; omega
      · intro hall
        constructor
        · intro k hk
          have := hall k (by omega)
          rw [applied_cons, if_pos hk] at this
          exact this.symm
        · intro k hk
          have := hall (c.bytesCompleted.toNat + k) (by omega)
          rw [applied_cons, if_neg (by omega), Nat.add_sub_cancel_left] at this
          rw [this, Nat.add_assoc]

/-- The region holds the pattern whatever it held before, exactly when all of it is written and the
descriptors apply the right bytes. -/
theorem write_applied_iff {pattern a : BitVec 64} {size : Nat} {g : Nat → UInt8}
    (hs : size < 2 ^ 64) :
    (∀ m : Memory, ∀ i < size,
      write m a (size % 2 ^ 32) g (a + BitVec.ofNat 64 i) = patternByte pattern i) ↔
      size < 2 ^ 32 ∧ ∀ k < size % 2 ^ 32, g k = patternByte pattern k := by
  have hle : size % 2 ^ 32 ≤ size := Nat.mod_le _ _
  constructor
  · intro hall
    constructor
    · by_contra hge
      have hlt : size % 2 ^ 32 < size :=
        Nat.lt_of_lt_of_le (Nat.mod_lt _ (by decide)) (Nat.not_lt.mp hge)
      have := hall (fun _ => patternByte pattern (size % 2 ^ 32) + 1) _ hlt
      rw [write_at (by omega), if_neg (Nat.lt_irrefl _)] at this
      simp at this
    · intro k hk
      have := hall (fun _ => 0) k (by omega)
      rwa [write_at (by omega), if_pos hk] at this
  · rintro ⟨hlt, hall⟩ m i hi
    rw [Nat.mod_eq_of_lt hlt] at hall ⊢
    rw [write_at (by omega), if_pos hi]
    exact hall i hi

/-! ## Fill -/

variable {o : DsaOperation Unit}

theorem performForwards_memfill {c : CompletionRecord} (hd : d.opcode = .memfill) :
    performForwards m d c = write m d.dstAddr (processed d c) (patternByte d.srcAddr) := by
  simp [performForwards, work, hd]

theorem memFill_run (hd : d.opcode = .memfill) (h : o.Answered crc ok m d cs) :
    o.run performForwards m d (cs ++ [ok]) =
      some ((), write m d.dstAddr d.xferSize.toNat (applied d.srcAddr cs)) := by
  induction cs generalizing m d with
  | nil =>
      rw [List.nil_append, DsaOperation.run_success h.1, performForwards_memfill hd,
        processed_success h.1, applied_nil]
  | cons c cs ih =>
      obtain ⟨hc, hle, _, hrest⟩ := h
      have hle' : c.bytesCompleted.toNat ≤ d.xferSize.toNat := hle
      have hx := adjust_xferSize (by rw [hd]; rfl) hle
      have hdst : (adjustForPageFault d c).dstAddr =
          d.dstAddr + BitVec.ofNat 64 c.bytesCompleted.toNat := by simp [adjustForPageFault, hd]
      have hpat : (adjustForPageFault d c).srcAddr = d.srcAddr := by simp [adjustForPageFault, hd]
      have hlt := d.xferSize.isLt
      rw [List.cons_append, DsaOperation.run_fault hc, ih (by rw [adjust_opcode, hd]) hrest,
        performForwards_memfill hd, processed_fault hc, hx, hdst, hpat,
        write_write hle' (by omega)]
      rfl

theorem memFill_answered (hd : d.opcode = .memfill) (hi : Interrupts d cs)
    (hok : o.succeeds ok = true) : o.Answered crc ok m d cs := by
  induction cs generalizing m d with
  | nil => exact ⟨hok, by simp [Reports, hd]⟩
  | cons c cs ih =>
      obtain ⟨hc, hle, _, hrest⟩ := hi
      exact ⟨hc, hle, by simp [Reports, hd], ih (by rw [adjust_opcode, hd]) hrest⟩

/-! ## Compare Pattern -/

variable {q : DsaOperation Bool}

theorem compval_result (hd : d.opcode = .compval) (h : q.Answered crc ok m d cs) :
    ok.result = 0 ↔ ∀ k < d.xferSize.toNat,
      m (d.srcAddr + BitVec.ofNat 64 k) = applied d.dstAddr cs k := by
  induction cs generalizing d with
  | nil =>
      obtain ⟨hok, hrep⟩ := h
      simpa [Reports, hd, DsaOperation.not_fault_of_succeeds hok, processed_success hok, Matches,
        applied_nil] using hrep
  | cons c cs ih =>
      obtain ⟨hc, hle, hrep, hrest⟩ := h
      have hle' : c.bytesCompleted.toNat ≤ d.xferSize.toNat := hle
      have hx := adjust_xferSize (by rw [hd]; rfl) hle
      have hpat : (adjustForPageFault d c).dstAddr = d.dstAddr := by simp [adjustForPageFault, hd]
      rw [performForwards_compare (Or.inr hd)] at hrest
      simp only [Reports, hd, hc, ↓reduceIte, processed_fault hc, Matches] at hrep
      rw [ih (by rw [adjust_opcode, hd]) hrest, hx, hpat, adjust_srcAddr (by rw [hd]; rfl)]
      constructor
      · intro hall k hk
        rw [applied_cons]
        split
        · rename_i hlt
          exact hrep.2 k hlt
        · rename_i hge
          have := hall (k - c.bytesCompleted.toNat) (by omega)
          rwa [add_assoc, ← BitVec.ofNat_add, Nat.add_sub_cancel' (by omega)] at this
      · intro hall k hk
        have := hall (c.bytesCompleted.toNat + k) (by omega)
        rwa [applied_cons, if_neg (by omega), Nat.add_sub_cancel_left, BitVec.ofNat_add,
          ← add_assoc] at this

/-- On a memory that holds the bytes that the descriptors apply, the device finds no difference. -/
theorem compval_answered (hd : d.opcode = .compval) (hi : Interrupts d cs)
    (hok : q.succeeds ok = true) (hr : ok.result = 0)
    (hm : ∀ k < d.xferSize.toNat, m (d.srcAddr + BitVec.ofNat 64 k) = applied d.dstAddr cs k) :
    q.Answered crc ok m d cs := by
  induction cs generalizing d with
  | nil =>
      refine ⟨hok, ?_⟩
      simpa [Reports, hd, DsaOperation.not_fault_of_succeeds hok, processed_success hok, Matches, hr,
        applied_nil] using hm
  | cons c cs ih =>
      obtain ⟨hc, hle, hr', hrest⟩ := hi
      have hle' : c.bytesCompleted.toNat ≤ d.xferSize.toNat := hle
      have hx := adjust_xferSize (by rw [hd]; rfl) hle
      have hpat : (adjustForPageFault d c).dstAddr = d.dstAddr := by simp [adjustForPageFault, hd]
      refine ⟨hc, hle, ?_, ?_⟩
      · simp only [Reports, hd, hc, ↓reduceIte, processed_fault hc, Matches]
        refine ⟨hr', fun k hk => ?_⟩
        rw [hm k (by omega), applied_cons, if_pos hk]
      · rw [performForwards_compare (Or.inr hd)]
        refine ih (by rw [adjust_opcode, hd]) hrest fun k hk => ?_
        have := hm (c.bytesCompleted.toNat + k) (by omega)
        rw [hpat, adjust_srcAddr (by rw [hd]; rfl)]
        rwa [applied_cons, if_neg (by omega), Nat.add_sub_cancel_left, BitVec.ofNat_add,
          ← add_assoc] at this

end DsaStdexec.Operation

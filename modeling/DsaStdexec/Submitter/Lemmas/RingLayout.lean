import DsaStdexec.Submitter.Lemmas.RingSteps

/-!
# The descriptor ring of a ring submitter

Descriptors take consecutive positions, and the sealed batches, followed by the one being filled,
split the positions from `desc_head_` to `desc_tail_` among them.
-/

namespace DsaStdexec.Submitter

open DsaStdexec.Lib

namespace RingSubmitter

variable {D : Type*} {g : Geometry} {r : RingSubmitter D} {log : List D}

theorem descIndex_eq (g : Geometry) (pos : Nat) : descIndex g pos = pos % g.ringSize := by
  obtain ⟨k, hk⟩ := g.ringSize_isPow
  rw [descIndex, hk]
  exact descIndexIn_two_pow k pos

def begins (r : RingSubmitter D) (b : Nat) : Nat :=
  offset r.descHead r.batchHead (fun b => (r.entry b).count) b

def staged (r : RingSubmitter D) : Nat := if r.current.state = .filling then r.current.count else 0

/-- The batches that are not reclaimed yet: the sealed ones and the one being filled. -/
def Live (r : RingSubmitter D) (b : Nat) : Prop :=
  r.batchHead ≤ b ∧ (b < r.batchFill ∨ b = r.batchFill ∧ r.current.state = .filling)

/-- The entry of a batch that begins at position `p`. -/
structure Placed (g : Geometry) (log : List D) (p : Nat) (e : BatchEntry D) : Prop where
  start : e.start = p % g.ringSize
  fits : g.kind = .ring → e.start + e.count ≤ g.ringSize
  taken : e.taken = (log.drop p).take e.count

structure Layout (g : Geometry) (r : RingSubmitter D) (log : List D) : Prop where
  placed : ∀ b, r.Live b → Placed g log (r.begins b) (r.entry b)
  tail : r.descTail = r.begins r.batchFill + r.staged
  log_length : log.length = r.descTail
  stored : ∀ p, r.descHead ≤ p → p < r.descTail → log[p]? = some (r.descRing (p % g.ringSize))

theorem Layout.filling (hl : Layout g r log) (hle : r.batchHead ≤ r.batchFill)
    (hf : r.current.state = .filling) : Placed g log (r.begins r.batchFill) r.current :=
  hl.placed _ ⟨hle, Or.inr ⟨rfl, hf⟩⟩

theorem Layout.ends_le (hl : Layout g r log) {b : Nat} (hb : r.Live b) :
    r.begins b + (r.entry b).count ≤ r.descTail := by
  obtain ⟨h1, h2 | ⟨rfl, hf⟩⟩ := hb
  · have : r.begins b + (r.entry b).count ≤ r.begins r.batchFill := offset_add_len_le h1 h2
    have := hl.tail
    omega
  · rw [hl.tail, staged, if_pos hf, current_eq]

/-! ## Room -/

theorem ringSize_pos (g : Geometry) : 0 < g.ringSize := by
  have := g.room
  have := g.maxBatch_pos
  simp only [kDefaultNumBatches] at *
  omega

/-- The slots of the ring lie in the first mapping. -/
theorem cell_eq (g : Geometry) {i : Nat} (h : i < g.ringSize) : g.cell i = i := by
  unfold Geometry.cell
  split
  · rfl
  · have := g.region
    exact Nat.mod_eq_of_lt (by omega)

theorem Shape.begins_le (h : Shape g r) :
    r.begins r.batchFill ≤ r.descHead + (r.batchFill - r.batchHead) * g.maxBatch :=
  offset_le fun b h1 h2 => (h.count b h1 h2).2

theorem Shape.staged_le (h : Shape g r) : r.staged ≤ g.maxBatch := by
  unfold staged
  split
  · rename_i hf; exact h.filling hf
  · omega

theorem Layout.tail_le (h : Shape g r) (hl : Layout g r log) :
    r.descTail ≤ r.descHead + g.ringSize := by
  have hb := h.begins_le
  have hs := h.staged_le
  have hroom := g.room
  have ht := hl.tail
  simp only [kDefaultNumBatches] at hroom
  have hle := h.head_le
  by_cases hf : r.current.state = .filling
  · -- a batch that is being filled has its own entry
    have hlt := h.fill_lt (by rw [hf]; decide)
    have : (r.batchFill - r.batchHead) * g.maxBatch ≤ 15 * g.maxBatch :=
      Nat.mul_le_mul_right _ (by omega)
    omega
  · have hz : r.staged = 0 := if_neg hf
    have hwin := h.fill_le
    have : (r.batchFill - r.batchHead) * g.maxBatch ≤ 16 * g.maxBatch :=
      Nat.mul_le_mul_right _ (by omega)
    omega

/-- While the entry at `batch_fill_` can take a descriptor, the ring has a free slot. -/
theorem Layout.tail_lt (h : Shape g r) (hl : Layout g r log) (hc : r.current.state ≠ .inFlight)
    (hs : r.staged < g.maxBatch) : r.descTail < r.descHead + g.ringSize := by
  have hb := h.begins_le
  have hroom := g.room
  have ht := hl.tail
  simp only [kDefaultNumBatches] at hroom
  have hle := h.head_le
  have hlt := h.fill_lt hc
  have : (r.batchFill - r.batchHead) * g.maxBatch ≤ 15 * g.maxBatch :=
    Nat.mul_le_mul_right _ (by omega)
  omega

theorem Settled.staged_lt (hs : Settled g r) : r.staged < g.maxBatch := by
  unfold staged
  split
  · rename_i hf; exact (hs hf).2
  · exact g.maxBatch_pos

theorem Layout.head_le_tail (hl : Layout g r log) : r.descHead ≤ r.descTail := by
  rw [hl.tail]
  exact Nat.le_trans base_le_offset (Nat.le_add_right _ _)

/-! ## Slots -/

def Holds (r : RingSubmitter D) (b j : Nat) : Prop :=
  (r.entry b).start ≤ j ∧ j < (r.entry b).start + (r.entry b).count

/-- The slots of a batch are those of its positions. -/
theorem Layout.holds_iff (hl : Layout g r log) (hg : g.kind = .ring) {b j : Nat} (hb : r.Live b) :
    r.Holds b j ↔
      ∃ p, r.begins b ≤ p ∧ p < r.begins b + (r.entry b).count ∧ p % g.ringSize = j := by
  obtain ⟨hstart, hfits, _⟩ := hl.placed b hb
  have hfit := hfits hg
  constructor
  · rintro ⟨h1, h2⟩
    refine ⟨r.begins b + (j - (r.entry b).start), by omega, by omega, ?_⟩
    rw [← Nat.mod_add_mod, ← hstart, Nat.mod_eq_of_lt (by omega)]
    omega
  · rintro ⟨p, h1, h2, rfl⟩
    have hp : p = r.begins b + (p - r.begins b) := by omega
    rw [hp, ← Nat.mod_add_mod, ← hstart, Nat.mod_eq_of_lt (by omega)]
    exact ⟨by omega, by omega⟩

theorem Layout.holds_unique (h : Shape g r) (hl : Layout g r log) (hg : g.kind = .ring) {b c j : Nat}
    (hb : r.Live b) (hc : r.Live c) (hbj : r.Holds b j) (hcj : r.Holds c j) : b = c := by
  obtain ⟨p, hp1, hp2, hpj⟩ := (hl.holds_iff hg hb).mp hbj
  obtain ⟨q, hq1, hq2, hqj⟩ := (hl.holds_iff hg hc).mp hcj
  have hbe := hl.ends_le hb
  have hce := hl.ends_le hc
  have htail := hl.tail_le h
  have hbh : r.descHead ≤ r.begins b := base_le_offset
  have hch : r.descHead ≤ r.begins c := base_le_offset
  obtain rfl : p = q := eq_of_mod_eq (a := r.descHead) (by omega) (by omega) (by omega) (by omega)
    (hpj.trans hqj.symm)
  exact segment_unique hb.1 hc.1 hp1 hp2 hq1 hq2

theorem Layout.exists_live (h : Shape g r) (hl : Layout g r log) {p : Nat} (h1 : r.descHead ≤ p)
    (h2 : p < r.descTail) :
    ∃ b, r.Live b ∧ r.begins b ≤ p ∧ p < r.begins b + (r.entry b).count := by
  have htail := hl.tail
  rcases Nat.lt_or_ge p (r.begins r.batchFill) with hlt | hge
  · obtain ⟨b, hb1, hb2, hb⟩ := exists_segment h1 hlt
    exact ⟨b, ⟨hb1, Or.inl hb2⟩, hb⟩
  · have hf : r.current.state = .filling := by
      by_contra hnf
      have hz : r.staged = 0 := if_neg hnf
      omega
    have hs : r.staged = r.current.count := if_pos hf
    exact ⟨r.batchFill, ⟨h.head_le, Or.inr ⟨rfl, hf⟩⟩, hge, by rw [← current_eq]; omega⟩

theorem Layout.tail_not_held (h : Shape g r) (hs : Settled g r) (hl : Layout g r log)
    (hg : g.kind = .ring) (hc : r.current.state ≠ .inFlight) {b : Nat} (hb : r.Live b) :
    ¬ r.Holds b (descIndex g r.descTail) := by
  intro hbj
  obtain ⟨p, hp1, hp2, hpj⟩ := (hl.holds_iff hg hb).mp hbj
  have hbe := hl.ends_le hb
  have hbh : r.descHead ≤ r.begins b := base_le_offset
  have htail := hl.tail_lt h hc hs.staged_lt
  rw [descIndex_eq] at hpj
  have := eq_of_mod_eq (a := r.descHead) (by omega) (by omega) (by omega) htail hpj
  omega

/-! ## Reclaiming -/

theorem Reclaimed.begins {r' : RingSubmitter D} {n b : Nat} (h : Shape g r) (hr : Reclaimed r r' n)
    (h1 : r.batchHead + n ≤ b) (h2 : b ≤ r.batchFill) : r'.begins b = r.begins b := by
  have hwin := h.fill_le
  have hdrop := offset_drop (o := r.descHead) (f := fun b => (r.entry b).count)
    (Nat.le_add_right r.batchHead n) h1
  unfold RingSubmitter.begins
  rw [hr.batchHead, hr.descHead, ← hdrop]
  refine offset_congr fun j hj1 hj2 => ?_
  rw [hr.entry_kept hj1 (by omega)]

theorem Reclaimed.staged {r' : RingSubmitter D} {n : Nat} (h : Shape g r) (hr : Reclaimed r r' n) :
    r'.staged = r.staged := by
  unfold RingSubmitter.staged
  by_cases hf : r.current.state = .filling
  · have hlt := h.fill_lt (by rw [hf]; decide)
    have he : r'.current = r.current := by
      rw [current_eq, current_eq, hr.batchFill]; exact hr.entry_kept hr.le hlt
    rw [he]
  · have hf' : ¬ r'.current.state = .filling := fun hf' => hf (hr.current_filling h hf').2
    rw [if_neg hf, if_neg hf']

theorem Layout.of_reclaimed {r' : RingSubmitter D} {n : Nat} (h : Shape g r) (hl : Layout g r log)
    (hr : Reclaimed r r' n) : Layout g r' log := by
  have hle := hr.le
  have hwin := h.fill_le
  have hh := hr.batchHead
  have hf := hr.batchFill
  refine ⟨?_, ?_, ?_, ?_⟩
  · rintro b ⟨h1, h2 | ⟨rfl, hfill⟩⟩
    · rw [hr.entry_kept (by omega) (by omega), hr.begins h (by omega) (by omega)]
      exact hl.placed b ⟨by omega, Or.inl (by omega)⟩
    · obtain ⟨he, hfill'⟩ := hr.current_filling h hfill
      rw [← current_eq, he, hf, hr.begins h hle (Nat.le_refl _)]
      exact hl.filling h.head_le hfill'
  · rw [hr.descTail, hf, hr.begins h hle (Nat.le_refl _), hr.staged h, hl.tail]
  · rw [hr.descTail]; exact hl.log_length
  · intro p h1 h2
    rw [hr.descRing]
    rw [hr.descTail] at h2
    exact hl.stored p (Nat.le_trans (hr.descHead ▸ base_le_offset) h1) h2

/-! ## Sealing -/

@[simp] theorem sealCurrent_descHead : (r.sealCurrent g).descHead = r.descHead := by
  unfold RingSubmitter.sealCurrent submitBatch; split <;> rfl

@[simp] theorem sealCurrent_descTail : (r.sealCurrent g).descTail = r.descTail := by
  unfold RingSubmitter.sealCurrent submitBatch; split <;> rfl

@[simp] theorem sealCurrent_descRing : (r.sealCurrent g).descRing = r.descRing := by
  unfold RingSubmitter.sealCurrent submitBatch; split <;> rfl

theorem Shape.sealCurrent_begins (h : Shape g r) (hf : r.current.state = .filling) {b : Nat}
    (h2 : b ≤ r.batchFill + 1) : (r.sealCurrent g).begins b = r.begins b := by
  have hc : r.current.state ≠ .inFlight := by rw [hf]; decide
  have hlt := h.fill_lt hc
  unfold RingSubmitter.begins
  rw [sealCurrent_descHead, sealCurrent_batchHead]
  refine offset_congr fun j hj1 hj2 => ?_
  by_cases hj : j = r.batchFill
  · subst hj
    rw [sealCurrent_entry_self, sealedEntry_count, current_eq]
  · rw [RingSubmitter.sealCurrent_entry (h.ne_fill hc hj1 (by omega) hj)]

theorem Layout.sealCurrent (h : Shape g r) (hl : Layout g r log) (hf : r.current.state = .filling) :
    Layout g (r.sealCurrent g) log := by
  have hc : r.current.state ≠ .inFlight := by rw [hf]; decide
  have hlt := h.fill_lt hc
  have hle := h.head_le
  have hnf := h.sealCurrent_not_filling hf
  refine ⟨?_, ?_, ?_, ?_⟩
  · rintro b ⟨h1, h2 | ⟨_, hf'⟩⟩
    · rw [sealCurrent_batchHead] at h1
      rw [sealCurrent_batchFill] at h2
      rw [h.sealCurrent_begins hf (by omega)]
      by_cases hb : b = r.batchFill
      · subst hb
        obtain ⟨hstart, hfits, htaken⟩ := hl.filling hle hf
        rw [sealCurrent_entry_self]
        exact ⟨by simpa using hstart, by simpa using hfits, by simpa using htaken⟩
      · rw [RingSubmitter.sealCurrent_entry (h.ne_fill hc h1 (by omega) hb)]
        exact hl.placed b ⟨h1, Or.inl (by omega)⟩
    · exact absurd hf' hnf
  · have hz : (r.sealCurrent g).staged = 0 := if_neg hnf
    have hs : r.staged = r.current.count := if_pos hf
    rw [sealCurrent_descTail, sealCurrent_batchFill, h.sealCurrent_begins hf (Nat.le_refl _),
      hz, hl.tail, hs, RingSubmitter.begins, RingSubmitter.begins, offset_succ hle, current_eq,
      Nat.add_zero]
  · rw [sealCurrent_descTail]; exact hl.log_length
  · rw [sealCurrent_descTail, sealCurrent_descHead, sealCurrent_descRing]; exact hl.stored

theorem Layout.sealAndSubmitCurrent (h : Shape g r) (hl : Layout g r log) :
    Layout g (r.sealAndSubmitCurrent g) log := by
  rcases sealAndSubmitCurrent_cases g r with he | ⟨hf, hn, he | he⟩
  · rw [he]; exact hl
  · rw [he]; exact hl.sealCurrent h hf
  · rw [he]
    obtain ⟨n, hr⟩ := (h.sealCurrent hf hn).reclaimed
    exact (hl.sealCurrent h hf).of_reclaimed (h.sealCurrent hf hn) hr

theorem Layout.sealPartial (h : Shape g r) (hl : Layout g r log) :
    Layout g (r.sealPartial g) log := by
  unfold RingSubmitter.sealPartial
  split
  · exact hl.sealAndSubmitCurrent h
  · exact hl

/-! ## Filling -/

theorem Shape.setCurrent_begins (h : Shape g r) (hc : r.current.state ≠ .inFlight) (e : BatchEntry D)
    {b : Nat} (hb : b ≤ r.batchFill) : (r.setCurrent e).begins b = r.begins b := by
  have hlt := h.fill_lt hc
  refine offset_congr fun j hj1 hj2 => ?_
  rw [setCurrent_entry e (h.ne_fill hc hj1 (by
    have : (r.setCurrent e).batchHead = r.batchHead := rfl
    omega) (by omega))]

theorem Layout.setCurrent (h : Shape g r) (hl : Layout g r log) (hc : r.current.state ≠ .inFlight)
    {e : BatchEntry D} (he : e.state = .filling) (hn : e.count = r.staged)
    (hp : Placed g log (r.begins r.batchFill) e) : Layout g (r.setCurrent e) log := by
  have hlt := h.fill_lt hc
  refine ⟨?_, ?_, hl.log_length, hl.stored⟩
  · rintro b ⟨(h1 : r.batchHead ≤ b), (h2 : b < r.batchFill) | ⟨(h2 : b = r.batchFill), _⟩⟩
    · rw [h.setCurrent_begins hc e (by omega),
        setCurrent_entry e (h.ne_fill hc h1 (by omega) (by omega))]
      exact hl.placed b ⟨h1, Or.inl h2⟩
    · subst h2
      rw [h.setCurrent_begins hc e (Nat.le_refl _)]
      show Placed g log _ (r.setCurrent e).current
      rw [setCurrent_current]; exact hp
  · have hs : (r.setCurrent e).staged = r.staged := by
      rw [← hn]; unfold RingSubmitter.staged; rw [setCurrent_current, if_pos he]
    have hb := h.setCurrent_begins hc e (Nat.le_refl _)
    show r.descTail = (r.setCurrent e).begins r.batchFill + _
    rw [hb, hs]; exact hl.tail

theorem Layout.beginBatch (h : Shape g r) (hl : Layout g r log) (hc : r.current.state ≠ .inFlight) :
    Layout g (r.beginBatch g) log := by
  unfold RingSubmitter.beginBatch
  split
  · rename_i hfree
    have hz : r.staged = 0 := if_neg (by rw [hfree]; decide)
    refine hl.setCurrent h hc rfl hz.symm ⟨?_, fun _ => ?_, by simp⟩
    · rw [descIndex_eq, hl.tail, hz, Nat.add_zero]
    · rw [descIndex_eq]
      exact Nat.le_of_lt (Nat.mod_lt _ (ringSize_pos g))
  · exact hl

/-- At index 0 of a free slot the wrap-around starts the same batch as any other call would. -/
theorem beginBatchAtZero_eq (hfree : r.current.state = .free) (hz : descIndex g r.descTail = 0) :
    r.beginBatchAtZero = r.beginBatch g := by
  simp [RingSubmitter.beginBatchAtZero, RingSubmitter.beginBatch, hfree, hz]

theorem atWrap_of_free (hfree : r.current.state = .free) : (r.beginBatch g).atWrap g = false := by
  have : (r.beginBatch g).current.count = 0 := by
    simp [RingSubmitter.beginBatch, hfree, setCurrent_current]
  simp [RingSubmitter.atWrap, this]

/-- What is stored later does not concern a batch that ends before. -/
theorem Placed.concat {p : Nat} {e : BatchEntry D} (h : Placed g log p e)
    (hle : p + e.count ≤ log.length) (d : D) : Placed g (log ++ [d]) p e := by
  refine ⟨h.start, h.fits, ?_⟩
  rw [h.taken, List.drop_append_of_le_length (by omega), List.take_append_of_le_length]
  rw [List.length_drop]; omega

/-- The batch that takes the next descriptor ends before the end of the ring, or the wrap-around check
would have fired. -/
theorem Placed.store {p : Nat} {e : BatchEntry D} (h : Placed g log p e)
    (hlog : log.length = p + e.count)
    (hw : g.kind = .ring → 0 < e.count → (p + e.count) % g.ringSize ≠ 0) (d : D) :
    Placed g (log ++ [d]) p { e with count := e.count + 1, taken := e.taken ++ [d] } := by
  refine ⟨h.start, fun hk => ?_, ?_⟩
  · have hle := h.fits hk
    have hlt : e.start < g.ringSize := h.start ▸ Nat.mod_lt _ (ringSize_pos g)
    show e.start + (e.count + 1) ≤ g.ringSize
    by_contra hend
    have hfull : e.start + e.count = g.ringSize := by omega
    refine hw hk (by omega) ?_
    rw [← Nat.mod_add_mod, ← h.start, hfull, Nat.mod_self]
  · show e.taken ++ [d] = _
    have hlen : (log.drop p).length = e.count := by rw [List.length_drop]; omega
    rw [h.taken, List.drop_append_of_le_length (by omega), List.take_of_length_le (by omega),
      List.take_of_length_le (by simp; omega)]

/-- The descriptor goes to the slot after the last one of its batch, which no other batch holds. -/
theorem Layout.store (h : Shape g r) (hl : Layout g r log) (hr : Ready g r)
    (hw : r.atWrap g = false) (d : D) : Layout g (r.store g d) (log ++ [d]) := by
  have hc : r.current.state ≠ .inFlight := by rw [hr.1]; decide
  have hlt := h.fill_lt hc
  have hs : r.staged = r.current.count := if_pos hr.1
  have htail := hl.tail_lt h hc (hs ▸ hr.2)
  have hcur := hr.store_current d
  have hbegins : ∀ b, b ≤ r.batchFill → (r.store g d).begins b = r.begins b :=
    fun b hb => h.setCurrent_begins hc _ hb
  have htl := hl.tail
  have hlog := hl.log_length
  refine ⟨?_, ?_, ?_, ?_⟩
  · rintro b ⟨(h1 : r.batchHead ≤ b), (h2 : b < r.batchFill) | ⟨(h2 : b = r.batchFill), _⟩⟩
    · have he : (r.store g d).entry b = r.entry b :=
        setCurrent_entry _ (h.ne_fill hc h1 (by omega) (by omega))
      have hb : r.Live b := ⟨h1, Or.inl h2⟩
      rw [hbegins b (by omega), he]
      exact (hl.placed b hb).concat (hlog ▸ hl.ends_le hb) d
    · subst h2
      rw [hbegins _ (Nat.le_refl _)]
      show Placed g _ _ (r.store g d).current
      rw [hcur]
      refine (hl.filling h.head_le hr.1).store (by omega) (fun hk hpos hzero => ?_) d
      rw [← hs, ← htl, ← descIndex_eq] at hzero
      simp [RingSubmitter.atWrap, hk, hzero] at hw
      omega
  · have hs' : (r.store g d).staged = r.current.count + 1 := by
      unfold RingSubmitter.staged; rw [hcur, if_pos hr.1]
    show r.descTail + 1 = (r.store g d).begins r.batchFill + _
    rw [hbegins _ (Nat.le_refl _), hs', htl, hs]; omega
  · show (log ++ [d]).length = r.descTail + 1
    rw [List.length_append, hl.log_length]; rfl
  · intro p (h1 : r.descHead ≤ p) (h2 : p < r.descTail + 1)
    have hix : g.cell (descIndex g r.descTail) = r.descTail % g.ringSize := by
      rw [descIndex_eq, cell_eq g (Nat.mod_lt _ (ringSize_pos g))]
    show (log ++ [d])[p]? = some (Function.update r.descRing _ d (p % g.ringSize))
    rw [hix]
    by_cases hp : p = r.descTail
    · subst hp
      rw [Function.update_self, List.getElem?_append_right (by rw [hl.log_length]), hl.log_length]
      simp
    · have hne : p % g.ringSize ≠ r.descTail % g.ringSize := fun he =>
        hp (eq_of_mod_eq h1 (by omega) hl.head_le_tail htail he)
      rw [Function.update_of_ne hne, List.getElem?_append_left (by rw [hl.log_length]; omega)]
      exact hl.stored p h1 (by omega)

theorem Layout.append (h : Shape g r) (hl : Layout g r log) (hr : Ready g r)
    (hw : r.atWrap g = false) (d : D) : Layout g (r.append g d) (log ++ [d]) := by
  unfold RingSubmitter.append
  simp only
  split
  · exact (hl.store h hr hw d).sealAndSubmitCurrent (h.store hr d)
  · exact hl.store h hr hw d

theorem setStatus_begins (i : Nat) (status : UInt8) (b : Nat) :
    (r.setStatus i status).begins b = r.begins b := by
  refine offset_congr fun j _ _ => ?_
  rw [setStatus_entry]; split <;> rfl

theorem setStatus_current_state (i : Nat) (status : UInt8) :
    (r.setStatus i status).current.state = r.current.state := by
  rw [current_eq, setStatus_entry]; split <;> rfl

theorem setStatus_staged (i : Nat) (status : UInt8) : (r.setStatus i status).staged = r.staged := by
  have hc : (r.setStatus i status).current.count = r.current.count := by
    rw [current_eq, setStatus_entry]; split <;> rfl
  rw [RingSubmitter.staged, setStatus_current_state, hc, RingSubmitter.staged]

theorem Layout.setStatus (hl : Layout g r log) (i : Nat) (status : UInt8) :
    Layout g (r.setStatus i status) log := by
  refine ⟨?_, ?_, hl.log_length, hl.stored⟩
  · intro b hb
    have hb' : r.Live b := by
      rw [Live, setStatus_current_state] at hb; exact hb
    obtain ⟨hstart, hfits, htaken⟩ := hl.placed b hb'
    rw [setStatus_begins, setStatus_entry]
    split <;> exact ⟨hstart, hfits, htaken⟩
  · rw [setStatus_begins, setStatus_staged]; exact hl.tail

end RingSubmitter

/-! ## Runs -/

namespace RingSystem

open RingSubmitter

variable {D : Type*} {g : Geometry}

/-- The invariant of the runs in which no nested call disturbs the wait at the end of the ring. -/
structure Tidy (g : Geometry) (s : RingSystem D) : Prop where
  shape : Shape g s.ring
  settled : Settled g s.ring
  layout : Layout g s.ring s.log

/-- When the wait at the end of the ring is over, the entry it waited for is free and the tail is
still at index 0. -/
def Clean (g : Geometry) (s : RingSystem D) (a : RingAction D) : Prop :=
  ∀ d rest, a = .advance → s.stack = .waitWrap d false :: rest →
    s.ring.current.state ≠ .inFlight →
    s.ring.current.state = .free ∧ descIndex g s.ring.descTail = 0

instance (s : RingSystem D) (a : RingAction D) : Decidable (Clean g s a) :=
  match a with
  | .advance =>
      match hs : s.stack with
      | .waitWrap _ false :: _ =>
          decidable_of_iff (s.ring.current.state ≠ .inFlight →
            s.ring.current.state = .free ∧ descIndex g s.ring.descTail = 0) (by simp [Clean, hs])
      | .waitWrap _ true :: _ => isTrue (by simp [Clean, hs])
      | .waitSpace _ _ :: _ => isTrue (by simp [Clean, hs])
      | .waitSlot _ _ :: _ => isTrue (by simp [Clean, hs])
      | .drainWait _ :: _ => isTrue (by simp [Clean, hs])
      | [] => isTrue (by simp [Clean, hs])
  | .submit _ | .prePoll | .drain | .pollReturn | .complete _ _ => isTrue nofun

theorem tidy_init [Inhabited D] (args : InitArgs) : Tidy g (init args : RingSystem D) := by
  obtain ⟨hsh, hse⟩ := formed_init (D := D) (g := g) args
  refine ⟨hsh, hse, ?_, ?_, rfl, ?_⟩
  · rintro b ⟨_, h2 | ⟨_, hf⟩⟩
    · simp [init, RingSubmitter.init] at h2
    · simp [init, RingSubmitter.init, RingSubmitter.current] at hf
  · simp [init, RingSubmitter.init, begins, staged, RingSubmitter.current]
  · intro p h1 h2; simp [init, RingSubmitter.init] at h2

theorem Tidy.effect {s s' : RingSystem D} {a : RingAction D} (h : Tidy g s) (hc : Clean g s a)
    (he : Effect g s a s') : Tidy g s' := by
  obtain ⟨hsh', hse'⟩ := Formed.effect ⟨h.shape, h.settled⟩ he
  refine ⟨hsh', hse', ?_⟩
  obtain ⟨hsh, hse, hl⟩ := h
  cases he with
  | E_Submit => exact hl
  | E_Idle _ hr hlog _ => rw [hr, hlog]; exact hl
  | E_Reclaim _ =>
      obtain ⟨n, hr⟩ := hsh.reclaimed
      exact hl.of_reclaimed hsh hr
  | E_PrePoll =>
      obtain ⟨n, hr⟩ := (hsh.sealPartial (g := g)).reclaimed
      exact (hl.sealPartial hsh).of_reclaimed hsh.sealPartial hr
  | E_Drain _ => exact hl.sealPartial hsh
  | E_Wrap _ _ _ => exact hl.sealAndSubmitCurrent hsh
  | E_Append _ hcur hw =>
      obtain ⟨hb, hr⟩ := hsh.beginBatch hse hcur
      exact (hl.beginBatch hsh hcur).append hb hr hw _
  | E_AppendAtZero hst hcur =>
      -- a clean wait ends as if the batch had just been started by this call
      obtain ⟨hfree, hz⟩ := hc _ _ rfl hst hcur
      obtain ⟨hb, hr⟩ := hsh.beginBatch hse hcur
      simp only [finish, beginBatchAtZero_eq hfree hz]
      exact (hl.beginBatch hsh hcur).append hb hr (atWrap_of_free hfree) _
  | E_Complete _ _ _ _ => exact hl.setStatus _ _

theorem tidy_of_run [Inhabited D] {k : RingKind} {args : InitArgs} {as : List (RingAction D)}
    {s : RingSystem D} (hc : (machine k args).Meets (Clean (Geometry.ofArgs k args)) (init args) as)
    (h : (machine k args).run as = some s) : Tidy (Geometry.ofArgs k args) s :=
  Machine.runFrom_invariant (fun _ _ _ hs hc hst => hs.effect hc (step_effect hst)) (tidy_init args)
    hc h

end RingSystem

end DsaStdexec.Submitter

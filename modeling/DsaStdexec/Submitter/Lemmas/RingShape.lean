import DsaStdexec.Lib.Segments
import DsaStdexec.Submitter.Ring

/-!
# The batch ring of a ring submitter

Positions `batch_head_, …, batch_fill_ - 1` hold the sealed batches, and the entry at `batch_fill_` is
the one being filled. This part of the invariant needs nothing about the descriptor ring and holds in
every run, nested calls included.
-/

namespace DsaStdexec.Submitter

open DsaStdexec.Lib

namespace RingSubmitter

variable {D : Type*} {g : Geometry} {r : RingSubmitter D}

theorem batchIndex_eq (pos : Nat) : batchIndex pos = pos % 16 :=
  and_sub_one_eq_mod (n := 16) (k := 4) rfl pos

theorem batchIndex_lt (pos : Nat) : batchIndex pos < kDefaultNumBatches := by
  rw [batchIndex_eq]; exact Nat.mod_lt _ (by decide)

theorem batchIndex_inj {a p q : Nat} (hp : a ≤ p) (hp' : p < a + 16) (hq : a ≤ q) (hq' : q < a + 16)
    (h : batchIndex p = batchIndex q) : p = q := by
  rw [batchIndex_eq, batchIndex_eq] at h
  exact eq_of_mod_eq hp hp' hq hq' h

/-- The entry that position `b` of the batch ring uses. -/
def entry (r : RingSubmitter D) (b : Nat) : BatchEntry D := r.batches (batchIndex b)

theorem current_eq (r : RingSubmitter D) : r.current = r.entry r.batchFill := rfl

theorem exists_position (a : Nat) {i : Nat} (hi : i < kDefaultNumBatches) :
    ∃ b, a ≤ b ∧ b < a + 16 ∧ batchIndex b = i := by
  simp only [kDefaultNumBatches] at hi
  refine ⟨a + (i + 16 - a % 16) % 16, by omega, by omega, ?_⟩
  rw [batchIndex_eq]; omega

/-! ## The shape -/

/-- Sealed batches are in flight, the entry at `batch_fill_` is not, and the entries after it are
free. -/
structure Shape (g : Geometry) (r : RingSubmitter D) : Prop where
  head_le : r.batchHead ≤ r.batchFill
  fill_le : r.batchFill ≤ r.batchHead + 16
  inFlight : ∀ b, r.batchHead ≤ b → b < r.batchFill → (r.entry b).state = .inFlight
  count : ∀ b, r.batchHead ≤ b → b < r.batchFill →
    0 < (r.entry b).count ∧ (r.entry b).count ≤ g.maxBatch
  single : ∀ b, r.batchHead ≤ b → b < r.batchFill → (r.entry b).count = 1 → (r.entry b).status ≠ 0
  current : r.batchFill < r.batchHead + 16 → r.current.state ≠ .inFlight
  filling : r.current.state = .filling → r.current.count ≤ g.maxBatch
  free : ∀ b, r.batchFill < b → b < r.batchHead + 16 → (r.entry b).state = .free

/-- Between two steps a batch that is being filled is neither empty nor full. -/
def Settled (g : Geometry) (r : RingSubmitter D) : Prop :=
  r.current.state = .filling → 0 < r.current.count ∧ r.current.count < g.maxBatch

/-- The entry at `batch_fill_` is in flight exactly when the batch ring is full. -/
theorem Shape.current_inFlight (h : Shape g r) :
    r.current.state = .inFlight ↔ r.batchFill = r.batchHead + 16 := by
  constructor
  · intro hc
    have := h.fill_le
    by_contra hne
    exact h.current (by omega) hc
  · intro he
    have hix : batchIndex r.batchFill = batchIndex r.batchHead := by
      rw [batchIndex_eq, batchIndex_eq, he]; omega
    rw [current_eq, entry, hix]
    exact h.inFlight _ (Nat.le_refl _) (by omega)

theorem Shape.fill_lt (h : Shape g r) (hc : r.current.state ≠ .inFlight) :
    r.batchFill < r.batchHead + 16 := by
  have := h.fill_le
  have := mt h.current_inFlight.mpr hc
  omega

theorem Shape.lt_of_inFlight (h : Shape g r) {b : Nat} (hb : b < r.batchHead + 16)
    (hin : (r.entry b).state = .inFlight) : b < r.batchFill := by
  rcases Nat.lt_trichotomy b r.batchFill with hlt | rfl | hgt
  · exact hlt
  · exact absurd hin (h.current hb)
  · rw [h.free b hgt hb] at hin; cases hin

theorem Shape.inFlight_iff (h : Shape g r) {i : Nat} (hi : i < kDefaultNumBatches) :
    (r.batches i).state = .inFlight ↔
      ∃ b, r.batchHead ≤ b ∧ b < r.batchFill ∧ batchIndex b = i := by
  constructor
  · intro hin
    obtain ⟨b, h1, h2, rfl⟩ := exists_position r.batchHead hi
    exact ⟨b, h1, h.lt_of_inFlight h2 hin, rfl⟩
  · rintro ⟨b, h1, h2, rfl⟩
    exact h.inFlight b h1 h2

/-! ## `reclaim_completed` -/

/-- What `reclaim_completed` does: it frees the first `n` batches, all of them completed, and stops
at the first one that is not. -/
structure Reclaimed (r r' : RingSubmitter D) (n : Nat) : Prop where
  le : r.batchHead + n ≤ r.batchFill
  done : ∀ b, r.batchHead ≤ b → b < r.batchHead + n → (r.entry b).status ≠ 0
  stop : r.batchHead + n < r.batchFill → (r.entry (r.batchHead + n)).status = 0
  batchHead : r'.batchHead = r.batchHead + n
  batchFill : r'.batchFill = r.batchFill
  freed : ∀ b, r.batchHead ≤ b → b < r.batchHead + n → r'.entry b = { r.entry b with state := .free }
  kept : ∀ i, (∀ b, r.batchHead ≤ b → b < r.batchHead + n → batchIndex b ≠ i) →
    r'.batches i = r.batches i
  descHead : r'.descHead = offset r.descHead r.batchHead (fun b => (r.entry b).count) (r.batchHead + n)
  descTail : r'.descTail = r.descTail
  descRing : r'.descRing = r.descRing
  inflight : r'.direct.inflight = r.direct.inflight - n
  portal : r'.direct.portal = r.direct.portal
  wqDepth : r'.direct.wqDepth = r.direct.wqDepth

def reclaimOne (r : RingSubmitter D) : RingSubmitter D :=
  { r with
    descHead := r.descHead + (r.entry r.batchHead).count
    batches := Function.update r.batches (batchIndex r.batchHead)
      { r.entry r.batchHead with state := .free }
    direct := r.direct.notifyComplete 1
    batchHead := r.batchHead + 1 }

theorem reclaimOne_entry {b : Nat} (h : batchIndex b ≠ batchIndex r.batchHead) :
    r.reclaimOne.entry b = r.entry b := Function.update_of_ne h _ _

theorem Reclaimed.refl (hle : r.batchHead ≤ r.batchFill)
    (hstop : r.batchHead < r.batchFill → (r.entry r.batchHead).status = 0) : Reclaimed r r 0 where
  le := hle
  done := by intro b h1 h2; omega
  stop := hstop
  batchHead := rfl
  batchFill := rfl
  freed := by intro b h1 h2; omega
  kept := fun _ _ => rfl
  descHead := by simp
  descTail := rfl
  descRing := rfl
  inflight := rfl
  portal := rfl
  wqDepth := rfl

theorem Reclaimed.cons {r' : RingSubmitter D} {n : Nat} (hwin : r.batchFill ≤ r.batchHead + 16)
    (hdone : (r.entry r.batchHead).status ≠ 0) (h : Reclaimed r.reclaimOne r' n) :
    Reclaimed r r' (n + 1) := by
  have hle : r.batchHead + 1 + n ≤ r.batchFill := h.le
  -- the batches after the oldest one are untouched by freeing it
  have hne : ∀ b, r.batchHead + 1 ≤ b → b < r.batchHead + 16 →
      batchIndex b ≠ batchIndex r.batchHead := by
    intro b h1 h2 he
    have := batchIndex_inj (a := r.batchHead) (by omega) h2 (Nat.le_refl _) (by omega) he
    omega
  have hent : ∀ b, r.batchHead + 1 ≤ b → b < r.batchHead + 16 → r.reclaimOne.entry b = r.entry b :=
    fun b h1 h2 => reclaimOne_entry (hne b h1 h2)
  refine ⟨by omega, ?_, ?_, ?_, h.batchFill, ?_, ?_, ?_, h.descTail, h.descRing, ?_, h.portal,
    h.wqDepth⟩
  · intro b h1 h2
    rcases Nat.eq_or_lt_of_le h1 with rfl | hlt
    · exact hdone
    · have := h.done b hlt (show b < r.batchHead + 1 + n by omega)
      rwa [hent b hlt (by omega)] at this
  · intro hlt
    have := h.stop (show r.batchHead + 1 + n < r.batchFill by omega)
    rw [show r.reclaimOne.batchHead + n = r.batchHead + (n + 1) by simp [reclaimOne]; omega] at this
    rwa [hent _ (by omega) (by omega)] at this
  · rw [h.batchHead]; simp [reclaimOne]; omega
  · intro b h1 h2
    rcases Nat.eq_or_lt_of_le h1 with rfl | hlt
    · -- the oldest entry is not freed a second time
      have hk := h.kept (batchIndex r.batchHead) fun c hc1 hc2 =>
        hne c hc1 (by simp only [reclaimOne] at hc2; omega)
      simpa [entry, reclaimOne] using hk
    · rw [h.freed b hlt (show b < r.batchHead + 1 + n by omega), hent b hlt (by omega)]
  · intro i hi
    rw [h.kept i fun b h1 h2 => hi b (show r.batchHead ≤ b from Nat.le_of_succ_le h1)
      (show b < r.batchHead + (n + 1) by simp only [reclaimOne] at h2; omega)]
    exact Function.update_of_ne (fun he => hi r.batchHead (Nat.le_refl _) (by omega) he.symm) _ _
  · have hdrop := offset_drop (o := r.descHead) (f := fun b => (r.entry b).count)
      (Nat.le_succ r.batchHead) (show r.batchHead + 1 ≤ r.batchHead + 1 + n by omega)
    rw [offset_succ (Nat.le_refl _), offset_self] at hdrop
    rw [h.descHead, show r.batchHead + (n + 1) = r.batchHead + 1 + n by omega, ← hdrop]
    exact offset_congr fun j h1 h2 => congrArg BatchEntry.count (hent j h1 (by
      simp only [reclaimOne] at h2; omega))
  · rw [h.inflight]; simp [reclaimOne]; omega

theorem reclaimLoop_spec (n : Nat) : ∀ r : RingSubmitter D, r.batchHead + n = r.batchFill →
    r.batchFill ≤ r.batchHead + 16 →
    (∀ b, r.batchHead ≤ b → b < r.batchFill → (r.entry b).state = .inFlight) →
    ∃ k, Reclaimed r (reclaimLoop n r) k := by
  induction n with
  | zero =>
      intro r hn _ _
      exact ⟨0, Reclaimed.refl (by omega) (by omega)⟩
  | succ n ih =>
      intro r hn hwin hin
      have hst : (r.entry r.batchHead).state = .inFlight := hin _ (Nat.le_refl _) (by omega)
      by_cases hz : (r.entry r.batchHead).status = 0
      · refine ⟨0, ?_⟩
        have : reclaimLoop (n + 1) r = r := by
          simp only [entry] at hst hz
          simp [reclaimLoop, hst, hz]
        rw [this]
        exact Reclaimed.refl (by omega) fun _ => hz
      · have : reclaimLoop (n + 1) r = reclaimLoop n r.reclaimOne := by
          simp only [entry] at hst hz
          simp [reclaimLoop, hst, hz, reclaimOne, entry]
        rw [this]
        obtain ⟨k, hk⟩ := ih r.reclaimOne (by simp only [reclaimOne]; omega)
          (by simp only [reclaimOne]; omega) (by
            intro b h1 h2
            simp only [reclaimOne] at h1 h2
            rw [reclaimOne_entry fun he => by
              have := batchIndex_inj (a := r.batchHead) (by omega) (by omega) (Nat.le_refl _)
                (by omega) he
              omega]
            exact hin b (by omega) h2)
        exact ⟨k + 1, hk.cons hwin hz⟩

theorem Shape.reclaimed (h : Shape g r) : ∃ n, Reclaimed r r.reclaimCompleted n :=
  reclaimLoop_spec _ r (by have := h.head_le; omega) h.fill_le h.inFlight

theorem Reclaimed.entry_kept {r' : RingSubmitter D} {n b : Nat} (h : Reclaimed r r' n)
    (h1 : r.batchHead + n ≤ b) (h2 : b < r.batchHead + 16) : r'.entry b = r.entry b := by
  refine h.kept _ fun c hc1 hc2 he => ?_
  have := batchIndex_inj hc1 (by omega) (by omega) h2 he
  omega

theorem Shape.of_reclaimed {r' : RingSubmitter D} {n : Nat} (h : Shape g r) (hr : Reclaimed r r' n) :
    Shape g r' := by
  have hle := hr.le
  have hwin := h.fill_le
  have hh := hr.batchHead
  have hf := hr.batchFill
  have hkept : ∀ b, r'.batchHead ≤ b → b < r'.batchFill → r'.entry b = r.entry b :=
    fun b h1 h2 => hr.entry_kept (by omega) (by omega)
  -- the entries of the freed batches serve the last positions of the new lap
  have hlap : ∀ b, r.batchHead + 16 ≤ b → b < r'.batchHead + 16 → (r'.entry b).state = .free := by
    intro b h1 h2
    have hix : batchIndex b = batchIndex (b - 16) := by
      rw [batchIndex_eq, batchIndex_eq]; omega
    have := hr.freed (b - 16) (by omega) (by omega)
    simp only [entry] at this ⊢
    rw [hix, this]
  have hcur : r.batchFill < r.batchHead + 16 → r'.current = r.current := by
    intro hlt
    rw [current_eq, current_eq, hf]
    exact hr.entry_kept hle hlt
  refine ⟨by omega, by omega, ?_, ?_, ?_, ?_, ?_, ?_⟩
  · intro b h1 h2; rw [hkept b h1 h2]; exact h.inFlight b (by omega) (by omega)
  · intro b h1 h2; rw [hkept b h1 h2]; exact h.count b (by omega) (by omega)
  · intro b h1 h2; rw [hkept b h1 h2]; exact h.single b (by omega) (by omega)
  · intro hlt
    by_cases hlt' : r.batchFill < r.batchHead + 16
    · rw [hcur hlt']; exact h.current hlt'
    · rw [current_eq, hlap r'.batchFill (by omega) (by omega)]; decide
  · intro hfill
    by_cases hlt' : r.batchFill < r.batchHead + 16
    · rw [hcur hlt'] at hfill ⊢; exact h.filling hfill
    · by_cases hlt'' : r'.batchFill < r'.batchHead + 16
      · rw [current_eq, hlap r'.batchFill (by omega) (by omega)] at hfill; cases hfill
      · have hn : n = 0 := by omega
        subst hn
        have : r'.current = r.current := by
          rw [current_eq, current_eq, hf]; exact hr.kept _ (by intro b h1 h2; omega)
        rw [this] at hfill ⊢; exact h.filling hfill
  · intro b h1 h2
    by_cases hlt : b < r.batchHead + 16
    · rw [hr.entry_kept (by omega) hlt]; exact h.free b (by omega) hlt
    · exact hlap b (by omega) h2

/-- `reclaim_completed` never turns the entry at `batch_fill_` into one that is being filled. -/
theorem Reclaimed.current_filling {r' : RingSubmitter D} {n : Nat} (h : Shape g r)
    (hr : Reclaimed r r' n) (hf : r'.current.state = .filling) :
    r'.current = r.current ∧ r.current.state = .filling := by
  have hwin := h.fill_le
  have hle := hr.le
  have hcur : r'.current = r'.entry r.batchFill := by rw [current_eq, hr.batchFill]
  by_cases hlt : r.batchFill < r.batchHead + 16
  · have : r'.current = r.current := by rw [hcur]; exact hr.entry_kept hle hlt
    exact ⟨this, this ▸ hf⟩
  · -- a full ring has the oldest batch in that entry
    have hin := h.current_inFlight.mpr (by omega)
    have hix : batchIndex r.batchFill = batchIndex r.batchHead := by
      rw [batchIndex_eq, batchIndex_eq]; omega
    by_cases hn : n = 0
    · subst hn
      have : r'.current = r.current := by
        rw [hcur]; exact hr.kept _ (by intro b h1 h2; omega)
      rw [this, hin] at hf; cases hf
    · have hfree := hr.freed r.batchHead (Nat.le_refl _) (by omega)
      rw [hcur, entry, hix] at hf
      simp only [entry] at hfree
      rw [hfree] at hf; cases hf

theorem Settled.of_reclaimed {r' : RingSubmitter D} {n : Nat} (h : Shape g r) (hs : Settled g r)
    (hr : Reclaimed r r' n) : Settled g r' := by
  intro hf
  obtain ⟨he, hf'⟩ := hr.current_filling h hf
  rw [he]; exact hs hf'

/-! ## Changing the entry at `batch_fill_` -/

theorem setCurrent_current (r : RingSubmitter D) (b : BatchEntry D) : (r.setCurrent b).current = b :=
  Function.update_self _ _ _

theorem setCurrent_entry {b : Nat} (e : BatchEntry D) (h : batchIndex b ≠ batchIndex r.batchFill) :
    (r.setCurrent e).entry b = r.entry b := Function.update_of_ne h _ _

theorem Shape.congr {r' : RingSubmitter D} (h : Shape g r) (hb : r'.batches = r.batches)
    (hf : r'.batchFill = r.batchFill) (hh : r'.batchHead = r.batchHead) : Shape g r' := by
  have he : ∀ b, r'.entry b = r.entry b := fun b => congrFun hb _
  have hc : r'.current = r.current := by rw [current_eq, current_eq, hf, he]
  obtain ⟨h1, h2, h3, h4, h5, h6, h7, h8⟩ := h
  constructor <;> simp only [hf, hh, he, hc] <;> assumption

theorem Shape.ne_fill (h : Shape g r) (hc : r.current.state ≠ .inFlight) {b : Nat}
    (h1 : r.batchHead ≤ b) (h2 : b < r.batchHead + 16) (hne : b ≠ r.batchFill) :
    batchIndex b ≠ batchIndex r.batchFill := fun he =>
  hne (batchIndex_inj h1 h2 h.head_le (h.fill_lt hc) he)

theorem Shape.setCurrent (h : Shape g r) (hc : r.current.state ≠ .inFlight) {e : BatchEntry D}
    (he : e.state ≠ .inFlight) (hn : e.state = .filling → e.count ≤ g.maxBatch) :
    Shape g (r.setCurrent e) := by
  have hlt := h.fill_lt hc
  have hent : ∀ b, r.batchHead ≤ b → b < r.batchHead + 16 → b ≠ r.batchFill →
      (r.setCurrent e).entry b = r.entry b := fun b h1 h2 hne =>
    setCurrent_entry e (h.ne_fill hc h1 h2 hne)
  refine ⟨h.head_le, h.fill_le, ?_, ?_, ?_, ?_, ?_, ?_⟩
  · intro b (h1 : r.batchHead ≤ b) (h2 : b < r.batchFill)
    rw [hent b h1 (by omega) (by omega)]; exact h.inFlight b h1 h2
  · intro b (h1 : r.batchHead ≤ b) (h2 : b < r.batchFill)
    rw [hent b h1 (by omega) (by omega)]; exact h.count b h1 h2
  · intro b (h1 : r.batchHead ≤ b) (h2 : b < r.batchFill)
    rw [hent b h1 (by omega) (by omega)]; exact h.single b h1 h2
  · intro _; rw [setCurrent_current]; exact he
  · rw [setCurrent_current]; exact hn
  · intro b (h1 : r.batchFill < b) (h2 : b < r.batchHead + 16)
    rw [hent b (by have := h.head_le; omega) h2 (by omega)]; exact h.free b h1 h2

/-! ## Sealing -/

/-- The entry of a batch once it is sealed. A single descriptor counts as completed at once. -/
def sealedEntry (b : BatchEntry D) : BatchEntry D :=
  if b.count = 1 then { b with status := 1, state := .inFlight } else { b with state := .inFlight }

@[simp] theorem sealedEntry_state (b : BatchEntry D) : (sealedEntry b).state = .inFlight := by
  unfold sealedEntry; split <;> rfl

@[simp] theorem sealedEntry_count (b : BatchEntry D) : (sealedEntry b).count = b.count := by
  unfold sealedEntry; split <;> rfl

@[simp] theorem sealedEntry_start (b : BatchEntry D) : (sealedEntry b).start = b.start := by
  unfold sealedEntry; split <;> rfl

@[simp] theorem sealedEntry_taken (b : BatchEntry D) : (sealedEntry b).taken = b.taken := by
  unfold sealedEntry; split <;> rfl

theorem submitBatch_batches (g : Geometry) (r : RingSubmitter D) :
    (r.submitBatch g).batches =
      Function.update r.batches (batchIndex r.batchFill) (sealedEntry r.current) := by
  unfold submitBatch sealedEntry; split <;> rfl

@[simp] theorem submitBatch_batchFill : (r.submitBatch g).batchFill = r.batchFill := by
  unfold submitBatch; split <;> rfl

@[simp] theorem submitBatch_batchHead : (r.submitBatch g).batchHead = r.batchHead := by
  unfold submitBatch; split <;> rfl

@[simp] theorem sealCurrent_batchFill : (r.sealCurrent g).batchFill = r.batchFill + 1 := by
  simp [sealCurrent]

@[simp] theorem sealCurrent_batchHead : (r.sealCurrent g).batchHead = r.batchHead := by
  simp [sealCurrent]

theorem sealCurrent_entry_self : (r.sealCurrent g).entry r.batchFill = sealedEntry r.current := by
  simp [entry, sealCurrent, submitBatch_batches]

theorem sealCurrent_entry {b : Nat} (h : batchIndex b ≠ batchIndex r.batchFill) :
    (r.sealCurrent g).entry b = r.entry b := by
  simp [entry, sealCurrent, submitBatch_batches, Function.update_of_ne h]

/-- The next entry is free, unless it holds the oldest batch. -/
theorem Shape.sealCurrent_next (h : Shape g r) (hf : r.current.state = .filling)
    (hlt : r.batchFill + 1 < r.batchHead + 16) : (r.sealCurrent g).current.state = .free := by
  have hc : r.current.state ≠ .inFlight := by rw [hf]; decide
  have hle := h.head_le
  rw [current_eq, sealCurrent_batchFill, sealCurrent_entry (h.ne_fill hc (by omega) hlt (by omega))]
  exact h.free _ (by omega) hlt

theorem Shape.sealCurrent_not_filling (h : Shape g r) (hf : r.current.state = .filling) :
    (r.sealCurrent g).current.state ≠ .filling := by
  have hc : r.current.state ≠ .inFlight := by rw [hf]; decide
  have hlt := h.fill_lt hc
  rcases Nat.lt_or_ge (r.batchFill + 1) (r.batchHead + 16) with hlt' | hge
  · rw [h.sealCurrent_next hf hlt']; decide
  · have hix : batchIndex (r.batchFill + 1) = batchIndex r.batchHead := by
      rw [batchIndex_eq, batchIndex_eq]; omega
    have he := sealCurrent_entry (g := g) (h.ne_fill hc (Nat.le_refl _) (by omega) (by omega))
    have hin := h.inFlight r.batchHead (Nat.le_refl _) (by omega)
    rw [← he, entry] at hin
    rw [current_eq, sealCurrent_batchFill, entry, hix, hin]
    decide

/-- A sealed position is an old one or the one that was being filled. -/
theorem Shape.sealCurrent_position (h : Shape g r) (hf : r.current.state = .filling) {b : Nat}
    (h1 : r.batchHead ≤ b) (h2 : b < r.batchFill + 1) :
    b < r.batchFill ∧ (r.sealCurrent g).entry b = r.entry b ∨
      (r.sealCurrent g).entry b = sealedEntry r.current := by
  have hc : r.current.state ≠ .inFlight := by rw [hf]; decide
  have hlt := h.fill_lt hc
  rcases Nat.lt_or_ge b r.batchFill with hb | hb
  · exact Or.inl ⟨hb, sealCurrent_entry (h.ne_fill hc h1 (by omega) (by omega))⟩
  · obtain rfl : b = r.batchFill := by omega
    exact Or.inr sealCurrent_entry_self

theorem Shape.sealCurrent (h : Shape g r) (hf : r.current.state = .filling)
    (hn : 0 < r.current.count) : Shape g (r.sealCurrent g) := by
  have hc : r.current.state ≠ .inFlight := by rw [hf]; decide
  have hlt := h.fill_lt hc
  have hle := h.head_le
  refine ⟨by simp; omega, by simp; omega, ?_, ?_, ?_, ?_, ?_, ?_⟩
  · simp only [sealCurrent_batchFill, sealCurrent_batchHead]
    intro b h1 h2
    rcases h.sealCurrent_position hf h1 h2 with ⟨hb, he⟩ | he
    · rw [he]; exact h.inFlight b h1 hb
    · rw [he, sealedEntry_state]
  · simp only [sealCurrent_batchFill, sealCurrent_batchHead]
    intro b h1 h2
    rcases h.sealCurrent_position hf h1 h2 with ⟨hb, he⟩ | he
    · rw [he]; exact h.count b h1 hb
    · rw [he, sealedEntry_count]; exact ⟨hn, h.filling hf⟩
  · simp only [sealCurrent_batchFill, sealCurrent_batchHead]
    intro b h1 h2 hone
    rcases h.sealCurrent_position hf h1 h2 with ⟨hb, he⟩ | he
    · rw [he] at hone ⊢; exact h.single b h1 hb hone
    · rw [he, sealedEntry_count] at hone
      rw [he, sealedEntry, if_pos hone]; exact (by decide : (1 : UInt8) ≠ 0)
  · simp only [sealCurrent_batchFill, sealCurrent_batchHead]
    intro hlt'
    rw [h.sealCurrent_next hf hlt']; decide
  · intro hfill
    exact absurd hfill (h.sealCurrent_not_filling hf)
  · simp only [sealCurrent_batchFill, sealCurrent_batchHead]
    intro b h1 h2
    rw [sealCurrent_entry (h.ne_fill hc (by omega) h2 (by omega))]
    exact h.free b (by omega) h2

theorem sealAndSubmitCurrent_cases (g : Geometry) (r : RingSubmitter D) :
    r.sealAndSubmitCurrent g = r ∨ r.current.state = .filling ∧ 0 < r.current.count ∧
      (r.sealAndSubmitCurrent g = r.sealCurrent g ∨
        r.sealAndSubmitCurrent g = (r.sealCurrent g).reclaimCompleted) := by
  unfold sealAndSubmitCurrent
  by_cases hc : r.current.state ≠ .filling ∨ r.current.count = 0
  · simp [hc]
  · simp only [hc, ↓reduceIte]
    simp only [not_or, not_not] at hc
    refine Or.inr ⟨hc.1, by omega, ?_⟩
    split
    · exact Or.inr rfl
    · exact Or.inl rfl

theorem Shape.sealAndSubmitCurrent (h : Shape g r) : Shape g (r.sealAndSubmitCurrent g) := by
  rcases sealAndSubmitCurrent_cases g r with he | ⟨hf, hn, he | he⟩
  · rw [he]; exact h
  · rw [he]; exact h.sealCurrent hf hn
  · rw [he]
    obtain ⟨n, hr⟩ := (h.sealCurrent hf hn).reclaimed
    exact (h.sealCurrent hf hn).of_reclaimed hr

theorem Shape.seal_not_filling (h : Shape g r) (hf : r.current.state = .filling)
    (hn : 0 < r.current.count) : (r.sealAndSubmitCurrent g).current.state ≠ .filling := by
  have hnf := h.sealCurrent_not_filling hf
  unfold RingSubmitter.sealAndSubmitCurrent
  simp only [hf, ne_eq, not_true_eq_false, false_or, show ¬ r.current.count = 0 by omega, ↓reduceIte]
  split
  · obtain ⟨n, hr⟩ := (h.sealCurrent hf hn).reclaimed
    exact fun hf' => hnf (hr.current_filling (h.sealCurrent hf hn) hf').2
  · exact hnf

theorem Settled.sealAndSubmitCurrent (h : Shape g r) (hs : Settled g r) :
    Settled g (r.sealAndSubmitCurrent g) := by
  rcases sealAndSubmitCurrent_cases g r with he | ⟨hf, hn, _⟩
  · rw [he]; exact hs
  · exact fun hf' => absurd hf' (h.seal_not_filling hf hn)

theorem Shape.sealPartial (h : Shape g r) : Shape g (r.sealPartial g) := by
  unfold RingSubmitter.sealPartial
  split
  · exact h.sealAndSubmitCurrent
  · exact h

theorem Settled.sealPartial (h : Shape g r) (hs : Settled g r) : Settled g (r.sealPartial g) := by
  unfold RingSubmitter.sealPartial
  split
  · exact hs.sealAndSubmitCurrent h
  · exact hs

/-! ## Filling -/

/-- The entry at `batch_fill_` when `submit_descriptor` is about to store its descriptor. -/
def Ready (g : Geometry) (r : RingSubmitter D) : Prop :=
  r.current.state = .filling ∧ r.current.count < g.maxBatch

theorem Shape.beginBatch (h : Shape g r) (hs : Settled g r) (hc : r.current.state ≠ .inFlight) :
    Shape g (r.beginBatch g) ∧ Ready g (r.beginBatch g) := by
  unfold RingSubmitter.beginBatch
  split
  · refine ⟨h.setCurrent hc (by simp) (by simp), ?_⟩
    rw [Ready, setCurrent_current]
    exact ⟨rfl, g.maxBatch_pos⟩
  · rename_i hne
    have hf : r.current.state = .filling := by
      cases hst : r.current.state
      · exact absurd hst hne
      · rfl
      · exact absurd hst hc
    exact ⟨h, hf, (hs hf).2⟩

theorem Shape.beginBatchAtZero (h : Shape g r) (hc : r.current.state ≠ .inFlight) :
    Shape g r.beginBatchAtZero ∧ Ready g r.beginBatchAtZero := by
  refine ⟨h.setCurrent hc (by simp) (by simp), ?_⟩
  rw [Ready, RingSubmitter.beginBatchAtZero, setCurrent_current]
  exact ⟨rfl, g.maxBatch_pos⟩

theorem Ready.store_current (h : Ready g r) (d : D) :
    (r.store g d).current =
      { r.current with count := r.current.count + 1, taken := r.current.taken ++ [d] } := by
  have := g.maxBatch_lt
  have := h.2
  have he : (r.store g d).current =
      { r.current with
        count := (r.current.count + 1) % 2 ^ 32, taken := r.current.taken ++ [d] } := by
    simp [RingSubmitter.store, RingSubmitter.current, RingSubmitter.setCurrent]
  rw [he, Nat.mod_eq_of_lt (by omega)]

theorem Shape.store (h : Shape g r) (hr : Ready g r) (d : D) : Shape g (r.store g d) := by
  have hc : r.current.state ≠ .inFlight := by rw [hr.1]; decide
  have := g.maxBatch_lt
  have := hr.2
  refine (h.setCurrent hc
    (e := { r.current with
      count := (r.current.count + 1) % 2 ^ 32, taken := r.current.taken ++ [d] })
    hc fun _ => ?_).congr rfl rfl rfl
  simp only
  rw [Nat.mod_eq_of_lt (by omega)]; omega

/-- Storing a descriptor keeps the shape, and a batch that is full afterwards is sealed. -/
theorem Shape.append (h : Shape g r) (hr : Ready g r) (d : D) :
    Shape g (r.append g d) ∧ Settled g (r.append g d) := by
  have hst := h.store hr d
  have hcur := hr.store_current d
  have hf : (r.store g d).current.state = .filling := by rw [hcur]; exact hr.1
  have hn : 0 < (r.store g d).current.count := by rw [hcur]; exact Nat.succ_pos _
  unfold RingSubmitter.append
  simp only
  split
  · exact ⟨hst.sealAndSubmitCurrent, fun hf' => absurd hf' (hst.seal_not_filling hf hn)⟩
  · rename_i hlt
    exact ⟨hst, fun _ => ⟨hn, by omega⟩⟩

/-! ## Completions -/

theorem setStatus_entry (r : RingSubmitter D) (i : Nat) (status : UInt8) (b : Nat) :
    (r.setStatus i status).entry b =
      if batchIndex b = i then { r.entry b with status := status } else r.entry b := by
  by_cases he : batchIndex b = i
  · simp [entry, setStatus, he]
  · simp [entry, setStatus, he]

theorem Shape.setStatus (h : Shape g r) (i : Nat) {status : UInt8} (hs : status ≠ 0) :
    Shape g (r.setStatus i status) := by
  obtain ⟨h1, h2, h3, h4, h5, h6, h7, h8⟩ := h
  refine ⟨h1, h2, ?_, ?_, ?_, ?_, ?_, ?_⟩
  · intro b hb hb'; rw [setStatus_entry]; split <;> exact h3 b hb hb'
  · intro b hb hb'; rw [setStatus_entry]; split <;> exact h4 b hb hb'
  · intro b hb hb'; rw [setStatus_entry]; split
    · exact fun _ => hs
    · exact h5 b hb hb'
  · intro hlt; rw [current_eq, setStatus_entry]; split <;> exact h6 hlt
  · rw [current_eq, setStatus_entry]; split <;> exact h7
  · intro b hb hb'; rw [setStatus_entry]; split <;> exact h8 b hb hb'

theorem Settled.setStatus (h : Settled g r) {i : Nat} {status : UInt8}
    (hin : (r.batches i).state = .inFlight) : Settled g (r.setStatus i status) := by
  intro hf
  rw [current_eq, setStatus_entry] at hf ⊢
  split at hf
  · rename_i hix
    have hix' : batchIndex r.batchFill = i := hix
    simp only [entry, RingSubmitter.setStatus, hix', hin] at hf
    cases hf
  · rename_i hix
    rw [if_neg hix]; exact h hf

end RingSubmitter

end DsaStdexec.Submitter

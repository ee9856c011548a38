import DsaStdexec.Submitter.FixedRing
import DsaStdexec.Submitter.Lemmas.RingShape

/-!
# The entries of `FixedRingSubmitter`

`batch_head_` may lag by many laps, so the entries cannot be told apart by the distance from it. What
holds is that the last position that used an entry in flight is not behind `batch_head_`.
-/

namespace DsaStdexec.Submitter

open DsaStdexec.Lib

namespace FixedRingSubmitter

open RingSubmitter (batchIndex batchIndex_eq batchIndex_lt)

variable {D : Type*} {n : Nat} {r : FixedRingSubmitter D}

def inFlightCount (r : FixedRingSubmitter D) : Nat :=
  ((Finset.range kDefaultNumBatches).filter fun i => (r.batches i).state = .inFlight).card

structure Shape (r : FixedRingSubmitter D) : Prop where
  head_le : r.batchHead ≤ r.batchFill
  filling : ∀ i, (r.batches i).state = .filling → i = batchIndex r.batchFill
  recent : ∀ i, (r.batches i).state = .inFlight →
    ∃ p, batchIndex p = i ∧ r.batchHead ≤ p ∧ p < r.batchFill ∧ r.batchFill ≤ p + kDefaultNumBatches
  inflight : r.direct.inflight = r.inFlightCount

/-- Between two steps a batch that is being filled is neither empty nor full. -/
def Settled (n : Nat) (r : FixedRingSubmitter D) : Prop :=
  r.current.state = .filling → 0 < r.current.count ∧ r.current.count < n

theorem inFlightCount_update {r' : FixedRingSubmitter D} {k : Nat} (hk : k < kDefaultNumBatches)
    {e : FixedEntry D} (hb : r'.batches = Function.update r.batches k e) :
    r'.inFlightCount + (if (r.batches k).state = .inFlight then 1 else 0) =
      r.inFlightCount + (if e.state = .inFlight then 1 else 0) := by
  rw [inFlightCount, hb]
  exact card_filter_update _ r.batches (fun e => e.state = .inFlight) (Finset.mem_range.mpr hk) e

theorem Shape.ne_fill (hc : r.current.state ≠ .inFlight) {i : Nat}
    (hi : (r.batches i).state = .inFlight) : i ≠ batchIndex r.batchFill := by
  rintro rfl
  exact hc hi

/-! ## `reclaim_completed` -/

/-- What `reclaim_completed` does: it frees some entries that were answered, and it stops at
`batch_fill_`, at a batch that is being filled or at one that was not answered. -/
structure Reclaimed (r r' : FixedRingSubmitter D) : Prop where
  batchFill : r'.batchFill = r.batchFill
  portal : r'.direct.portal = r.direct.portal
  entry : ∀ i, r'.batches i = r.batches i ∨
    (r.batches i).state = .inFlight ∧ r'.batches i = { r.batches i with state := .free }
  stop : r'.batchHead = r'.batchFill ∨
    (r'.batches (batchIndex r'.batchHead)).state = .filling ∨
    (r'.batches (batchIndex r'.batchHead)).state = .inFlight ∧
      (r'.batches (batchIndex r'.batchHead)).status = 0
  shape : Shape r'

theorem Shape.skip (h : Shape r) (hlt : r.batchHead < r.batchFill)
    (hfree : (r.batches (batchIndex r.batchHead)).state = .free) :
    Shape { r with batchHead := r.batchHead + 1 } := by
  refine ⟨hlt, h.filling, fun i hi => ?_, h.inflight⟩
  obtain ⟨p, hp, h1, h2, h3⟩ := h.recent i hi
  refine ⟨p, hp, ?_, h2, h3⟩
  -- the entry at the head is free, so it is not the one of `p`
  rcases Nat.eq_or_lt_of_le h1 with rfl | hlt
  · rw [hp] at hfree
    rw [show (r.batches i).state = .inFlight from hi] at hfree
    cases hfree
  · exact hlt

theorem Shape.reclaimOne (h : Shape r) (hlt : r.batchHead < r.batchFill)
    (hin : (r.batches (batchIndex r.batchHead)).state = .inFlight) : Shape r.reclaimOne := by
  refine ⟨hlt, ?_, ?_, ?_⟩
  · intro i hi
    by_cases hik : i = batchIndex r.batchHead
    · subst hik; simp [FixedRingSubmitter.reclaimOne] at hi
    · exact h.filling i (by simpa [FixedRingSubmitter.reclaimOne, hik] using hi)
  · intro i hi
    by_cases hik : i = batchIndex r.batchHead
    · subst hik; simp [FixedRingSubmitter.reclaimOne] at hi
    · obtain ⟨p, hp, h1, h2, h3⟩ := h.recent i (by simpa [FixedRingSubmitter.reclaimOne, hik] using hi)
      refine ⟨p, hp, ?_, h2, h3⟩
      rcases Nat.eq_or_lt_of_le h1 with rfl | hlt
      · exact absurd hp.symm hik
      · exact hlt
  · have hcount : r.reclaimOne.inFlightCount + _ = _ :=
      inFlightCount_update (batchIndex_lt r.batchHead) rfl
    rw [if_pos hin, if_neg (by simp)] at hcount
    have := h.inflight
    have hd : r.reclaimOne.direct.inflight = r.direct.inflight - 1 :=
      DirectSubmitter.notifyComplete_inflight _ _
    omega

/-- A relation that both moves of the loop are part of holds between its ends. -/
theorem reclaimLoop_rel {R : FixedRingSubmitter D → FixedRingSubmitter D → Prop} (hrefl : ∀ r, R r r)
    (htrans : ∀ {r r' r''}, R r r' → R r' r'' → R r r'')
    (hskip : ∀ r, R r { r with batchHead := r.batchHead + 1 })
    (hone : ∀ r, (r.batches (batchIndex r.batchHead)).status ≠ 0 → R r r.reclaimOne) (k : Nat) :
    ∀ r, R r (reclaimLoop k r) := by
  induction k with
  | zero => exact hrefl
  | succ k ih =>
      intro r
      unfold reclaimLoop
      split
      · exact htrans (hskip r) (ih _)
      · split
        · exact hrefl r
        · split
          · exact hrefl r
          · rename_i hz
            exact htrans (hone r hz) (ih _)

theorem reclaimLoop_spec (k : Nat) : ∀ r : FixedRingSubmitter D, r.batchHead + k = r.batchFill →
    Shape r → Reclaimed r (reclaimLoop k r) := by
  induction k with
  | zero =>
      intro r hk h
      exact ⟨rfl, rfl, fun _ => Or.inl rfl, Or.inl hk, h⟩
  | succ k ih =>
      intro r hk h
      have hlt : r.batchHead < r.batchFill := by omega
      unfold reclaimLoop
      split
      · rename_i hfree
        obtain ⟨h1, h2, h3, h4, h5⟩ := ih { r with batchHead := r.batchHead + 1 }
          (show r.batchHead + 1 + k = r.batchFill by omega) (h.skip hlt hfree)
        exact ⟨h1, h2, h3, h4, h5⟩
      · rename_i hnfree
        cases hst : (r.batches (batchIndex r.batchHead)).state with
        | free => exact absurd hst hnfree
        | filling =>
            simp only [ne_eq, reduceCtorEq, not_false_eq_true, ↓reduceIte]
            exact ⟨rfl, rfl, fun _ => Or.inl rfl, Or.inr (Or.inl hst), h⟩
        | inFlight =>
            simp only [ne_eq, not_true_eq_false, ↓reduceIte]
            split
            · rename_i hz
              exact ⟨rfl, rfl, fun _ => Or.inl rfl, Or.inr (Or.inr ⟨hst, hz⟩), h⟩
            · obtain ⟨h1, h2, h3, h4, h5⟩ := ih r.reclaimOne
                (show r.batchHead + 1 + k = r.batchFill by omega) (h.reclaimOne hlt hst)
              refine ⟨h1, h2, fun i => ?_, h4, h5⟩
              by_cases hik : i = batchIndex r.batchHead
              · subst hik
                have hone : r.reclaimOne.batches (batchIndex r.batchHead) =
                    { r.batches (batchIndex r.batchHead) with state := .free } := by
                  simp [FixedRingSubmitter.reclaimOne]
                rcases h3 (batchIndex r.batchHead) with he | ⟨hin, _⟩
                · exact Or.inr ⟨hst, he.trans hone⟩
                · rw [hone] at hin; cases hin
              · have hone : r.reclaimOne.batches i = r.batches i := Function.update_of_ne hik _ _
                have := h3 i
                rwa [hone] at this

theorem Shape.reclaimed (h : Shape r) : Reclaimed r r.reclaimCompleted :=
  reclaimLoop_spec _ r (by have := h.head_le; omega) h

theorem Reclaimed.descs {r' : FixedRingSubmitter D} (h : Reclaimed r r') (i : Nat) :
    (r'.batches i).descs = (r.batches i).descs := by
  rcases h.entry i with he | ⟨_, he⟩
  · rw [he]
  · rw [he]

theorem Reclaimed.filling {r' : FixedRingSubmitter D} (h : Reclaimed r r') {i : Nat}
    (hf : (r'.batches i).state = .filling) : r'.batches i = r.batches i := by
  rcases h.entry i with he | ⟨_, he⟩
  · exact he
  · rw [he] at hf; cases hf

theorem Reclaimed.current_filling {r' : FixedRingSubmitter D} (h : Reclaimed r r')
    (hf : r'.current.state = .filling) : r'.current = r.current := by
  have he := h.filling hf
  rw [h.batchFill] at he
  rw [current, h.batchFill, he, current]

theorem Settled.of_reclaimed {r' : FixedRingSubmitter D} (hs : Settled n r) (h : Reclaimed r r') :
    Settled n r' := by
  intro hf
  have he := h.current_filling hf
  rw [he] at hf ⊢
  exact hs hf

/-- Once the device has answered everything and nothing is being filled, `reclaim_completed` frees
every entry. -/
theorem Shape.reclaim_frees (h : Shape r) (hnf : r.current.state ≠ .filling)
    (hdone : ∀ i, i < kDefaultNumBatches → (r.batches i).state = .inFlight →
      (r.batches i).status ≠ 0) (i : Nat) : (r.reclaimCompleted.batches i).state = .free := by
  have hr := h.reclaimed
  have hfill : ∀ i, (r.reclaimCompleted.batches i).state ≠ .filling := by
    intro i hf
    have he := hr.filling hf
    rw [he] at hf
    have := h.filling i hf
    subst this
    exact hnf hf
  -- an entry that is still in flight is an old one, so it was answered
  have hhead : r.reclaimCompleted.batchHead = r.reclaimCompleted.batchFill := by
    rcases hr.stop with he | hf | ⟨hin, hz⟩
    · exact he
    · exact absurd hf (hfill _)
    · rcases hr.entry (batchIndex r.reclaimCompleted.batchHead) with he | ⟨_, he⟩
      · rw [he] at hin hz
        exact absurd hz (hdone _ (batchIndex_lt _) hin)
      · rw [he] at hin; cases hin
  cases hst : (r.reclaimCompleted.batches i).state with
  | free => rfl
  | filling => exact absurd hst (hfill i)
  | inFlight =>
      obtain ⟨p, _, h1, h2, _⟩ := hr.shape.recent i hst
      omega

/-! ## Sealing -/

/-- The entry of a batch once it is sealed. A single descriptor gives it back at once. -/
def sealedEntry (b : FixedEntry D) : FixedEntry D :=
  { b with state := if b.count = 1 then .free else .inFlight }

theorem sealCurrent_batches : r.sealCurrent.batches =
    Function.update r.batches (batchIndex r.batchFill) (sealedEntry r.current) := by
  unfold sealCurrent submitBatch sealedEntry
  split <;> simp_all [setCurrent]

@[simp] theorem sealCurrent_batchFill : r.sealCurrent.batchFill = r.batchFill + 1 := by
  unfold sealCurrent submitBatch; split <;> rfl

@[simp] theorem sealCurrent_batchHead : r.sealCurrent.batchHead = r.batchHead := by
  unfold sealCurrent submitBatch; split <;> rfl

theorem sealCurrent_inflight : r.sealCurrent.direct.inflight =
    r.direct.inflight + if (sealedEntry r.current).state = .inFlight then 1 else 0 := by
  unfold sealCurrent submitBatch sealedEntry
  split <;> simp_all

theorem sealedEntry_state_ne (b : FixedEntry D) : (sealedEntry b).state ≠ .filling := by
  unfold sealedEntry
  simp only
  split <;> decide

theorem Shape.sealCurrent_not_filling (h : Shape r) (i : Nat) :
    (r.sealCurrent.batches i).state ≠ .filling := by
  rw [sealCurrent_batches]
  by_cases hi : i = batchIndex r.batchFill
  · subst hi
    rw [Function.update_self]
    exact sealedEntry_state_ne _
  · rw [Function.update_of_ne hi]
    exact fun hf => hi (h.filling i hf)

theorem Shape.sealCurrent (h : Shape r) (hf : r.current.state = .filling) : Shape r.sealCurrent := by
  have hle := h.head_le
  refine ⟨by simp; omega, fun i hi => absurd hi (h.sealCurrent_not_filling i), ?_, ?_⟩
  · intro i hi
    simp only [sealCurrent_batchFill, sealCurrent_batchHead]
    by_cases hik : i = batchIndex r.batchFill
    · exact ⟨r.batchFill, hik.symm, hle, by omega, by simp only [kDefaultNumBatches]; omega⟩
    · rw [sealCurrent_batches, Function.update_of_ne hik] at hi
      obtain ⟨p, hp, h1, h2, h3⟩ := h.recent i hi
      -- another entry's last position is less than a lap behind
      have hne : r.batchFill ≠ p + kDefaultNumBatches := by
        intro he
        apply hik
        rw [← hp, batchIndex_eq, batchIndex_eq, he]
        simp only [kDefaultNumBatches]; omega
      exact ⟨p, hp, h1, by omega, by omega⟩
  · have hcount : r.sealCurrent.inFlightCount + _ = _ :=
      inFlightCount_update (batchIndex_lt r.batchFill) sealCurrent_batches
    have hcur : ¬ (r.batches (batchIndex r.batchFill)).state = .inFlight := by
      intro hin
      rw [current, hin] at hf; cases hf
    rw [if_neg hcur, Nat.add_zero] at hcount
    rw [sealCurrent_inflight, hcount, h.inflight]

theorem sealAndSubmitCurrent_cases (r : FixedRingSubmitter D) :
    r.sealAndSubmitCurrent = r ∧ (r.current.state ≠ .filling ∨ r.current.count = 0) ∨
    r.current.state = .filling ∧ 0 < r.current.count ∧
      (r.sealAndSubmitCurrent = r.sealCurrent ∨
        r.sealAndSubmitCurrent = r.sealCurrent.reclaimCompleted) := by
  unfold sealAndSubmitCurrent
  by_cases hc : r.current.state ≠ .filling ∨ r.current.count = 0
  · simp [hc]
  · simp only [hc, ↓reduceIte]
    simp only [not_or, not_not] at hc
    refine Or.inr ⟨hc.1, by omega, ?_⟩
    split
    · exact Or.inr rfl
    · exact Or.inl rfl

theorem Shape.sealAndSubmitCurrent (h : Shape r) : Shape r.sealAndSubmitCurrent := by
  rcases sealAndSubmitCurrent_cases r with ⟨he, _⟩ | ⟨hf, _, he | he⟩
  · rw [he]; exact h
  · rw [he]; exact h.sealCurrent hf
  · rw [he]; exact (h.sealCurrent hf).reclaimed.shape

theorem Shape.seal_not_filling (h : Shape r) (hf : r.current.state = .filling)
    (hn : 0 < r.current.count) : r.sealAndSubmitCurrent.current.state ≠ .filling := by
  rcases sealAndSubmitCurrent_cases r with ⟨_, hno⟩ | ⟨_, _, he | he⟩
  · rcases hno with hno | hno
    · exact absurd hf hno
    · omega
  · rw [he]; exact h.sealCurrent_not_filling _
  · rw [he]
    intro hf'
    have := (h.sealCurrent hf).reclaimed.filling hf'
    rw [current, this] at hf'
    exact h.sealCurrent_not_filling _ hf'

theorem Shape.sealAndSubmit_descs (h : Shape r) (i : Nat) :
    (r.sealAndSubmitCurrent.batches i).descs = (r.batches i).descs := by
  have hseal : (r.sealCurrent.batches i).descs = (r.batches i).descs := by
    rw [sealCurrent_batches]
    by_cases hi : i = batchIndex r.batchFill
    · subst hi; rw [Function.update_self]; rfl
    · rw [Function.update_of_ne hi]
  rcases sealAndSubmitCurrent_cases r with ⟨he, _⟩ | ⟨hf, _, he | he⟩
  · rw [he]
  · rw [he, hseal]
  · rw [he, (h.sealCurrent hf).reclaimed.descs, hseal]

theorem Shape.sealPartial (h : Shape r) : Shape r.sealPartial := by
  unfold FixedRingSubmitter.sealPartial
  split
  · exact h.sealAndSubmitCurrent
  · exact h

theorem Shape.sealPartial_not_filling (h : Shape r) (hs : Settled n r) :
    r.sealPartial.current.state ≠ .filling := by
  unfold FixedRingSubmitter.sealPartial
  split
  · rename_i hc
    exact h.seal_not_filling hc.1 hc.2
  · rename_i hc
    exact fun hf => hc ⟨hf, (hs hf).1⟩

theorem Shape.sealPartial_descs (h : Shape r) (i : Nat) :
    (r.sealPartial.batches i).descs = (r.batches i).descs := by
  unfold FixedRingSubmitter.sealPartial
  split
  · exact h.sealAndSubmit_descs i
  · rfl

/-! ## Filling -/

theorem setCurrent_current (r : FixedRingSubmitter D) (e : FixedEntry D) :
    (r.setCurrent e).current = e := Function.update_self _ _ _

theorem Shape.setCurrent (h : Shape r) (hc : r.current.state ≠ .inFlight) {e : FixedEntry D}
    (he : e.state ≠ .inFlight) : Shape (r.setCurrent e) := by
  refine ⟨h.head_le, ?_, ?_, ?_⟩
  · intro i hi
    by_cases hik : i = batchIndex r.batchFill
    · exact hik
    · exact h.filling i (by simpa [FixedRingSubmitter.setCurrent, hik] using hi)
  · intro i hi
    by_cases hik : i = batchIndex r.batchFill
    · subst hik
      exact absurd (by simpa [FixedRingSubmitter.setCurrent] using hi) he
    · exact h.recent i (by simpa [FixedRingSubmitter.setCurrent, hik] using hi)
  · have hcount : (r.setCurrent e).inFlightCount + _ = _ :=
      inFlightCount_update (batchIndex_lt r.batchFill) rfl
    have hc' : ¬ (r.batches (batchIndex r.batchFill)).state = .inFlight := hc
    rw [if_neg hc', if_neg he] at hcount
    exact h.inflight.trans hcount.symm

theorem Shape.beginBatch (h : Shape r) (hc : r.current.state ≠ .inFlight) :
    Shape r.beginBatch ∧ r.beginBatch.current.state = .filling := by
  unfold FixedRingSubmitter.beginBatch
  split
  · exact ⟨h.setCurrent hc (by simp), by rw [setCurrent_current]⟩
  · rename_i hnf
    refine ⟨h, ?_⟩
    cases hst : r.current.state with
    | free => exact absurd hst hnf
    | filling => rfl
    | inFlight => exact absurd hst hc

theorem Shape.store (h : Shape r) (hf : r.current.state = .filling) (d : D) : Shape (r.store d) := by
  refine h.setCurrent (by rw [hf]; decide) ?_
  simp only [hf]; decide

theorem Settled.beginBatch_count (hs : Settled n r) (hn : 0 < n)
    (hf : r.beginBatch.current.state = .filling) : r.beginBatch.current.count < n := by
  unfold FixedRingSubmitter.beginBatch at hf ⊢
  split
  · rw [setCurrent_current]; exact hn
  · rename_i hnf
    rw [if_neg hnf] at hf
    exact (hs hf).2

theorem store_current (r : FixedRingSubmitter D) (d : D) (hn : r.current.count + 1 < 2 ^ 32) :
    (r.store d).current =
      { r.current with
        descs := Function.update r.current.descs r.current.count d, count := r.current.count + 1 } := by
  rw [store, setCurrent_current, Nat.mod_eq_of_lt hn]

theorem Shape.append (h : Shape r) (hs : Settled n r) (hn : 0 < n) (hlt : n < 2 ^ 32)
    (hc : r.current.state ≠ .inFlight) (d : D) :
    Shape (r.append n d) ∧ Settled n (r.append n d) := by
  obtain ⟨hb, hf⟩ := h.beginBatch hc
  have hcount := hs.beginBatch_count hn hf
  have hcur := store_current r.beginBatch d (by omega)
  have hst := hb.store hf d
  have hfill : (r.beginBatch.store d).current.state = .filling := by rw [hcur]; exact hf
  have hpos : 0 < (r.beginBatch.store d).current.count := by rw [hcur]; exact Nat.succ_pos _
  unfold FixedRingSubmitter.append
  split
  · exact ⟨hst.sealAndSubmitCurrent, fun hf' => absurd hf' (hst.seal_not_filling hfill hpos)⟩
  · rename_i hlt'
    exact ⟨hst, fun _ => ⟨hpos, by omega⟩⟩

theorem beginBatch_descs (i : Nat) : (r.beginBatch.batches i).descs = (r.batches i).descs := by
  unfold beginBatch
  split
  · by_cases hi : i = batchIndex r.batchFill
    · subst hi; simp [setCurrent, current]
    · simp [setCurrent, hi]
  · rfl

@[simp] theorem beginBatch_batchFill : r.beginBatch.batchFill = r.batchFill := by
  unfold beginBatch; split <;> rfl

theorem Shape.append_descs (h : Shape r) (hc : r.current.state ≠ .inFlight) (d : D) {i : Nat}
    (hi : i ≠ batchIndex r.batchFill) : ((r.append n d).batches i).descs = (r.batches i).descs := by
  obtain ⟨hb, hf⟩ := h.beginBatch hc
  have hst := hb.store hf d
  have hstore : ((r.beginBatch.store d).batches i).descs = (r.batches i).descs := by
    have he : (r.beginBatch.store d).batches i = r.beginBatch.batches i :=
      Function.update_of_ne (by rwa [beginBatch_batchFill]) _ _
    rw [he, beginBatch_descs]
  unfold FixedRingSubmitter.append
  split
  · rw [hst.sealAndSubmit_descs, hstore]
  · exact hstore

theorem setStatus_entry (i : Nat) (status : UInt8) (j : Nat) :
    ∃ status', (r.setStatus i status).batches j = { r.batches j with status := status' } := by
  by_cases hj : j = i
  · subst hj; exact ⟨status, Function.update_self _ _ _⟩
  · exact ⟨(r.batches j).status, Function.update_of_ne hj _ _⟩

theorem setStatus_state (i : Nat) (status : UInt8) (j : Nat) :
    ((r.setStatus i status).batches j).state = (r.batches j).state := by
  obtain ⟨_, he⟩ := setStatus_entry (r := r) i status j
  rw [he]

theorem Shape.setStatus (h : Shape r) (i : Nat) (status : UInt8) : Shape (r.setStatus i status) := by
  refine ⟨h.head_le, fun j hj => h.filling j ?_, fun j hj => h.recent j ?_, h.inflight.trans ?_⟩
  · rwa [setStatus_state] at hj
  · rwa [setStatus_state] at hj
  · simp only [inFlightCount, setStatus_state]

theorem Settled.setStatus (hs : Settled n r) (i : Nat) (status : UInt8) :
    Settled n (r.setStatus i status) := by
  intro hf
  obtain ⟨status', he⟩ := setStatus_entry (r := r) i status (batchIndex r.batchFill)
  have hcur : (r.setStatus i status).current = { r.current with status := status' } := he
  rw [hcur] at hf ⊢
  exact hs hf

end FixedRingSubmitter

/-! ## Runs -/

namespace FixedSystem

open FixedRingSubmitter
open RingSubmitter (batchIndex)

variable {D : Type*}

structure Formed (n : Nat) (s : FixedSystem D) : Prop where
  shape : Shape s.ring
  settled : Settled n s.ring
  drain : ∀ i, s.call = some (.drainWait i) → s.ring.current.state ≠ .filling

inductive Effect (n : Nat) (s : FixedSystem D) : FixedSystem D → Prop where
  | E_Idle {s'} (hr : s'.ring = s.ring)
      (hd : ∀ i, s'.call = some (.drainWait i) → ∃ j, s.call = some (.drainWait j)) : Effect n s s'
  | E_Reclaim : Effect n s { s with ring := s.ring.reclaimCompleted }
  | E_PrePoll (hc : s.call = none) : Effect n s { s with ring := s.ring.prePoll }
  | E_Drain : Effect n s { ring := s.ring.sealPartial, call := some (.drainWait 0) }
  | E_Append {d} (hw : s.call = some (.waitSlot d)) (hc : s.ring.current.state ≠ .inFlight) :
      Effect n s { ring := s.ring.append n d, call := none }
  | E_Complete {i status} (hin : (s.ring.batches i).state = .inFlight) :
      Effect n s { s with ring := s.ring.setStatus i status }

variable {n : Nat} {s s' : FixedSystem D} {a : FixedAction D}

theorem step_effect (h : step n s a = some s') : Effect n s s' := by
  cases a with
  | submit d =>
      simp only [step] at h
      split at h <;> cases h
      exact .E_Idle rfl fun i hi => by cases hi
  | prePoll =>
      simp only [step] at h
      split at h <;> cases h
      rename_i hc
      exact .E_PrePoll (Option.isNone_iff_eq_none.mp hc)
  | drain =>
      simp only [step] at h
      split at h <;> cases h
      exact .E_Drain
  | advance =>
      simp only [step, FixedSystem.advance] at h
      split at h
      · rename_i d hw
        split at h <;> cases h
        · exact .E_Reclaim
        · rename_i hc
          exact .E_Append hw hc
      · rename_i i hw
        split at h
        · cases h; exact .E_Idle rfl fun j hj => by cases hj
        · split at h <;> cases h
          · exact .E_Reclaim
          · exact .E_Idle rfl fun j hj => ⟨i, hw⟩
      · cases h
  | complete i status =>
      simp only [step] at h
      split at h <;> cases h
      rename_i hc
      exact .E_Complete hc.2.1

theorem formed_init [Inhabited D] (args : InitArgs) :
    Formed args.maxBatch (init args : FixedSystem D) := by
  refine ⟨⟨Nat.le_refl _, ?_, ?_, ?_⟩, ?_, ?_⟩
  · intro i hi; cases hi
  · intro i hi; cases hi
  · simp [init, FixedRingSubmitter.init, DirectSubmitter.init, inFlightCount]
  · intro hf; cases hf
  · intro i hi; cases hi

theorem Formed.effect (h : Formed n s) (hn : 0 < n) (hlt : n < 2 ^ 32) (he : Effect n s s') :
    Formed n s' := by
  obtain ⟨hsh, hse, hd⟩ := h
  cases he with
  | E_Idle hr hd' =>
      refine ⟨hr ▸ hsh, hr ▸ hse, fun i hi => ?_⟩
      obtain ⟨j, hj⟩ := hd' i hi
      rw [hr]; exact hd j hj
  | E_Reclaim =>
      have hr := hsh.reclaimed
      refine ⟨hr.shape, hse.of_reclaimed hr, fun i hi hf => hd i hi ?_⟩
      rwa [hr.current_filling hf] at hf
  | E_PrePoll hc =>
      have hr := hsh.sealPartial.reclaimed
      refine ⟨hr.shape, Settled.of_reclaimed (fun hf => ?_) hr, fun i hi => ?_⟩
      · exact absurd hf (hsh.sealPartial_not_filling hse)
      · rw [hc] at hi; cases hi
  | E_Drain =>
      have hnf := hsh.sealPartial_not_filling hse
      exact ⟨hsh.sealPartial, fun hf => absurd hf hnf, fun _ _ => hnf⟩
  | @E_Append d hw hc =>
      obtain ⟨hsh', hse'⟩ := hsh.append hse hn hlt hc d
      exact ⟨hsh', hse', fun i hi => by cases hi⟩
  | E_Complete _ =>
      refine ⟨hsh.setStatus _ _, hse.setStatus _ _, fun j hj hf => hd j hj ?_⟩
      rwa [FixedRingSubmitter.current, setStatus_state] at hf

theorem formed_of_run [Inhabited D] {args : InitArgs} {as : List (FixedAction D)}
    (h : (machine args).run as = some s) : Formed args.maxBatch s :=
  Machine.run_invariant (formed_init args)
    (fun _ _ _ hs hst => hs.effect args.maxBatch_pos args.maxBatch_lt (step_effect hst)) h

/-- No step writes to an entry in flight. -/
theorem Formed.descs (h : Formed n s) (he : Effect n s s') {i : Nat}
    (hin : (s.ring.batches i).state = .inFlight) :
    (s'.ring.batches i).descs = (s.ring.batches i).descs := by
  obtain ⟨hsh, hse, _⟩ := h
  cases he with
  | E_Idle hr _ => rw [hr]
  | E_Reclaim => exact hsh.reclaimed.descs i
  | E_PrePoll _ => exact (hsh.sealPartial.reclaimed.descs i).trans (hsh.sealPartial_descs i)
  | E_Drain => exact hsh.sealPartial_descs i
  | E_Append _ hc => exact hsh.append_descs hc _ (Shape.ne_fill hc hin)
  | E_Complete _ =>
      obtain ⟨_, he⟩ := setStatus_entry (r := s.ring) _ _ i
      rw [he]

/-- The call waits for entry `i`. -/
def WaitsFor (s : FixedSystem D) (i : Nat) : Prop :=
  (s.ring.batches i).state = .inFlight ∧
    ((∃ d, s.call = some (.waitSlot d)) ∧ i = batchIndex s.ring.batchFill ∨
      s.call = some (.drainWait i))

theorem Formed.waits_not_filling (h : Formed n s) {i : Nat} (hw : WaitsFor s i) :
    s.ring.current.state ≠ .filling := by
  obtain ⟨hin, ⟨_, rfl⟩ | hd⟩ := hw
  · intro hf
    rw [FixedRingSubmitter.current, hin] at hf; cases hf
  · exact h.drain i hd

end FixedSystem

end DsaStdexec.Submitter

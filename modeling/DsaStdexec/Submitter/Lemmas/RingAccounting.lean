import DsaStdexec.Submitter.Lemmas.RingSteps
import Mathlib.Data.Finset.Card

/-!
# `inflight()` of a ring submitter

A single descriptor is taken back at once in `submit_batch`, and a second time when its entry is
reclaimed. The count is right exactly when no multi-descriptor batch is left behind such an entry.
-/

namespace DsaStdexec.Submitter

open DsaStdexec.Lib

namespace RingSubmitter

variable {D : Type*} {g : Geometry} {r : RingSubmitter D}

/-- The number of multi-descriptor batches that were submitted and not reclaimed. -/
def pendingBatches (r : RingSubmitter D) : Nat :=
  ((Finset.range kDefaultNumBatches).filter fun i =>
    (r.batches i).state = .inFlight ∧ 1 < (r.batches i).count).card

def multis (r : RingSubmitter D) (a b : Nat) : Nat :=
  ((Finset.Ico a b).filter fun p => 1 < (r.entry p).count).card

theorem multis_split {a m b : Nat} (h1 : a ≤ m) (h2 : m ≤ b) :
    r.multis a b = r.multis a m + r.multis m b := by
  simp only [multis, Finset.card_filter]
  exact (Finset.sum_Ico_consecutive _ h1 h2).symm

theorem multis_congr {r' : RingSubmitter D} {a b : Nat}
    (h : ∀ p, a ≤ p → p < b → (r'.entry p).count = (r.entry p).count) :
    r'.multis a b = r.multis a b := by
  simp only [multis, Finset.card_filter]
  refine Finset.sum_congr rfl fun p hp => ?_
  rw [h p (Finset.mem_Ico.mp hp).1 (Finset.mem_Ico.mp hp).2]

theorem multis_le (a n : Nat) : r.multis a (a + n) ≤ n := by
  have := Finset.card_filter_le (Finset.Ico a (a + n)) fun p => 1 < (r.entry p).count
  rwa [Nat.card_Ico, Nat.add_sub_cancel_left] at this

theorem multis_eq_iff (a n : Nat) :
    r.multis a (a + n) = n ↔ ∀ p, a ≤ p → p < a + n → 1 < (r.entry p).count := by
  have hcard : (Finset.Ico a (a + n)).card = n := by rw [Nat.card_Ico, Nat.add_sub_cancel_left]
  have := Finset.card_filter_eq_iff (s := Finset.Ico a (a + n)) (p := fun p => 1 < (r.entry p).count)
  rw [hcard] at this
  simpa only [multis, Finset.mem_Ico, and_imp] using this

theorem multis_eq_zero_iff (a b : Nat) :
    r.multis a b = 0 ↔ ∀ p, a ≤ p → p < b → ¬ 1 < (r.entry p).count := by
  simp [multis, Finset.filter_eq_empty_iff]

/-- Counting the entries in flight is counting the sealed positions. -/
theorem Shape.pendingBatches_eq (h : Shape g r) :
    r.pendingBatches = r.multis r.batchHead r.batchFill := by
  have hwin := h.fill_le
  refine (Finset.card_bij (fun b _ => batchIndex b) ?_ ?_ ?_).symm
  · intro b hb
    simp only [Finset.mem_filter, Finset.mem_Ico] at hb
    simp only [Finset.mem_filter, Finset.mem_range]
    exact ⟨batchIndex_lt b, h.inFlight b hb.1.1 hb.1.2, hb.2⟩
  · intro b hb c hc he
    simp only [Finset.mem_filter, Finset.mem_Ico] at hb hc
    exact batchIndex_inj hb.1.1 (by omega) hc.1.1 (by omega) he
  · intro i hi
    simp only [Finset.mem_filter, Finset.mem_range] at hi
    obtain ⟨b, h1, h2, rfl⟩ := exists_position r.batchHead hi.1
    refine ⟨b, ?_, rfl⟩
    simp only [Finset.mem_filter, Finset.mem_Ico]
    exact ⟨⟨h1, h.lt_of_inFlight h2 hi.2.1⟩, hi.2.2⟩

def Counted (r : RingSubmitter D) : Prop := r.direct.inflight = r.pendingBatches

instance : Decidable r.Counted := inferInstanceAs (Decidable (_ = _))

/-- A completed single batch is followed only by batches that are reclaimed with it, or by single
ones. -/
def Even (r : RingSubmitter D) : Prop :=
  ∀ b c, r.batchHead ≤ b → b < c → c < r.batchFill →
    (r.entry b).count = 1 → 1 < (r.entry c).count →
    (∀ p, r.batchHead ≤ p → p ≤ b → (r.entry p).status ≠ 0) →
    ∀ p, r.batchHead ≤ p → p ≤ c → (r.entry p).status ≠ 0

/-! ## Reclaiming -/

theorem Reclaimed.multis {r' : RingSubmitter D} {n : Nat} (h : Shape g r) (hr : Reclaimed r r' n) :
    r'.multis r'.batchHead r'.batchFill = r.multis (r.batchHead + n) r.batchFill := by
  have hwin := h.fill_le
  rw [hr.batchHead, hr.batchFill]
  exact multis_congr fun p h1 h2 => by rw [hr.entry_kept h1 (by omega)]

/-- The first `n` batches are the completed ones, so `Even` is about those and the rest. -/
theorem Reclaimed.even_iff {r' : RingSubmitter D} {n : Nat} (h : Shape g r) (hr : Reclaimed r r' n) :
    Even r ↔ r.multis r.batchHead (r.batchHead + n) = n ∨
      r.multis (r.batchHead + n) r.batchFill = 0 := by
  have hle := hr.le
  constructor
  · intro heven
    by_contra hno
    obtain ⟨hne, hnz⟩ := not_or.mp hno
    rw [multis_eq_iff] at hne
    rw [multis_eq_zero_iff] at hnz
    push Not at hne hnz
    obtain ⟨b, hb1, hb2, hb⟩ := hne
    obtain ⟨c, hc1, hc2, hc⟩ := hnz
    have hpos := (h.count b hb1 (by omega)).1
    have hdone := heven b c hb1 (by omega) hc2 (by omega) hc
      (fun p h1 h2 => hr.done p h1 (by omega))
    exact hdone (r.batchHead + n) (by omega) hc1 (hr.stop (by omega))
  · intro hor b c h1 h2 h3 hb hc hdone
    -- everything up to `b` is completed, so `b` is among the first `n`
    have hbn : b < r.batchHead + n := by
      by_contra hge
      exact hdone (r.batchHead + n) (by omega) (by omega) (hr.stop (by omega))
    rcases hor with hall | hnone
    · have := (multis_eq_iff _ _).mp hall b h1 hbn
      omega
    · have hcn : c < r.batchHead + n := by
        by_contra hge
        exact (multis_eq_zero_iff _ _).mp hnone c (by omega) h3 hc
      exact fun p hp1 hp2 => hr.done p hp1 (by omega)

theorem Shape.counted_reclaim (h : Shape g r) (hc : Counted r) :
    Counted r.reclaimCompleted ↔ Even r := by
  obtain ⟨n, hr⟩ := h.reclaimed
  have hle := hr.le
  have hsplit := multis_split (r := r) (Nat.le_add_right r.batchHead n) hle
  have hn := multis_le (r := r) r.batchHead n
  rw [Counted, h.pendingBatches_eq] at hc
  rw [Counted, (h.of_reclaimed hr).pendingBatches_eq, hr.multis h, hr.inflight, hr.even_iff h, hc,
    hsplit]
  omega

theorem Shape.reclaim_idem (h : Shape g r) :
    r.reclaimCompleted.reclaimCompleted = r.reclaimCompleted := by
  obtain ⟨n, hr⟩ := h.reclaimed
  have hsh := h.of_reclaimed hr
  obtain ⟨m, hm⟩ := hsh.reclaimed
  have hstop : r.reclaimCompleted.batchHead < r.reclaimCompleted.batchFill →
      (r.reclaimCompleted.entry r.reclaimCompleted.batchHead).status = 0 := by
    intro hlt
    rw [hr.batchHead, hr.batchFill] at hlt
    have hwin := h.fill_le
    rw [hr.batchHead, hr.entry_kept (Nat.le_refl _) (by omega)]
    exact hr.stop hlt
  generalize r.reclaimCompleted = q at hsh hstop
  unfold reclaimCompleted
  cases hk : q.batchFill - q.batchHead with
  | zero => rfl
  | succ k =>
      have hin := hsh.inFlight q.batchHead (Nat.le_refl _) (by omega)
      have hz := hstop (by omega)
      simp only [entry] at hin hz
      simp [reclaimLoop, hin, hz]

/-! ## Sealing -/

theorem sealCurrent_inflight (g : Geometry) (r : RingSubmitter D) :
    (r.sealCurrent g).direct.inflight =
      r.direct.inflight + if r.current.count = 1 then 0 else 1 := by
  unfold RingSubmitter.sealCurrent submitBatch
  split
  · simp
  · simp

theorem Shape.counted_sealCurrent (h : Shape g r) (hc : Counted r) (hf : r.current.state = .filling)
    (hn : 0 < r.current.count) : Counted (r.sealCurrent g) := by
  have hcur : r.current.state ≠ .inFlight := by rw [hf]; decide
  have hlt := h.fill_lt hcur
  have hle := h.head_le
  have hold : (r.sealCurrent g).multis r.batchHead r.batchFill =
      r.multis r.batchHead r.batchFill := multis_congr fun p h1 h2 => by
    rw [sealCurrent_entry (h.ne_fill hcur h1 (by omega) (by omega))]
  have hnew : (r.sealCurrent g).multis r.batchFill (r.batchFill + 1) =
      if r.current.count = 1 then 0 else 1 := by
    rw [multis, Nat.Ico_succ_singleton, Finset.filter_singleton, sealCurrent_entry_self,
      sealedEntry_count]
    split <;> split <;> first | rfl | omega
  rw [Counted, h.pendingBatches_eq] at hc
  rw [Counted, (h.sealCurrent hf hn).pendingBatches_eq, sealCurrent_inflight, sealCurrent_batchHead,
    sealCurrent_batchFill, multis_split hle (Nat.le_succ _), hold, hnew, hc]

/-- The submitter on which `seal_and_submit_current` calls `reclaim_completed`. -/
def sealReclaims (g : Geometry) (r : RingSubmitter D) : Option (RingSubmitter D) :=
  if r.current.state ≠ .filling ∨ r.current.count = 0 then none
  else if (r.sealCurrent g).current.state ≠ .free then some (r.sealCurrent g)
  else none

theorem Shape.counted_seal (h : Shape g r) (hc : Counted r) :
    Counted (r.sealAndSubmitCurrent g) ↔ ∀ q, r.sealReclaims g = some q → Even q := by
  unfold RingSubmitter.sealAndSubmitCurrent sealReclaims
  by_cases hcur : r.current.state ≠ .filling ∨ r.current.count = 0
  · simp [hcur, hc]
  · simp only [hcur, ↓reduceIte]
    simp only [not_or, not_not] at hcur
    have hseal := h.counted_sealCurrent hc hcur.1 (by omega)
    split
    · simp only [Option.some.injEq, forall_eq']
      exact (h.sealCurrent hcur.1 (by omega)).counted_reclaim hseal
    · simp [hseal]

/-- The batch that is being filled does not count. -/
theorem Shape.counted_congr {r' : RingSubmitter D} (h : Shape g r) (h' : Shape g r')
    (hd : r'.direct.inflight = r.direct.inflight) (hh : r'.batchHead = r.batchHead)
    (hf : r'.batchFill = r.batchFill)
    (he : ∀ p, r.batchHead ≤ p → p < r.batchFill → (r'.entry p).count = (r.entry p).count) :
    Counted r' ↔ Counted r := by
  rw [Counted, Counted, h.pendingBatches_eq, h'.pendingBatches_eq, hd, hh, hf, multis_congr he]

theorem Shape.counted_setCurrent (h : Shape g r) (hc : r.current.state ≠ .inFlight)
    {e : BatchEntry D} (h' : Shape g (r.setCurrent e)) : Counted (r.setCurrent e) ↔ Counted r := by
  have hlt := h.fill_lt hc
  refine h.counted_congr h' rfl rfl rfl fun p h1 h2 => ?_
  rw [setCurrent_entry e (h.ne_fill hc h1 (by omega) (by omega))]

theorem Shape.counted_beginBatch (h : Shape g r) (hs : Settled g r)
    (hc : r.current.state ≠ .inFlight) : Counted (r.beginBatch g) ↔ Counted r := by
  have hb := (h.beginBatch hs hc).1
  unfold RingSubmitter.beginBatch at hb ⊢
  split
  · rename_i hfree
    rw [if_pos hfree] at hb
    exact h.counted_setCurrent hc hb
  · exact Iff.rfl

def appendReclaims (g : Geometry) (r : RingSubmitter D) (d : D) : Option (RingSubmitter D) :=
  if g.maxBatch ≤ (r.store g d).current.count then (r.store g d).sealReclaims g else none

theorem Shape.counted_append (h : Shape g r) (hr : Ready g r) (hc : Counted r) (d : D) :
    Counted (r.append g d) ↔ ∀ q, r.appendReclaims g d = some q → Even q := by
  have hcur : r.current.state ≠ .inFlight := by rw [hr.1]; decide
  have hlt := h.fill_lt hcur
  have hst : Counted (r.store g d) :=
    (h.counted_congr (h.store hr d) rfl rfl rfl fun p h1 h2 => congrArg BatchEntry.count
      (setCurrent_entry _ (h.ne_fill hcur h1 (by omega) (by omega)))).mpr hc
  unfold RingSubmitter.append appendReclaims
  simp only
  split
  · exact (h.store hr d).counted_seal hst
  · simp [hst]

theorem Shape.counted_setStatus (h : Shape g r) (i : Nat) {status : UInt8} (hs : status ≠ 0) :
    Counted (r.setStatus i status) ↔ Counted r := by
  refine h.counted_congr (h.setStatus i hs) rfl rfl rfl fun p _ _ => ?_
  rw [setStatus_entry]; split <;> rfl

def prePollReclaims (g : Geometry) (r : RingSubmitter D) : RingSubmitter D :=
  if r.current.state = .filling ∧ 0 < r.current.count then r.sealCurrent g else r

theorem Shape.prePoll_eq (h : Shape g r) :
    r.prePoll g = (r.prePollReclaims g).reclaimCompleted := by
  unfold RingSubmitter.prePoll RingSubmitter.sealPartial prePollReclaims
  split
  · rename_i hcur
    have hne : ¬ (r.current.state ≠ .filling ∨ r.current.count = 0) := by
      rintro (hs | hz)
      · exact hs hcur.1
      · omega
    unfold RingSubmitter.sealAndSubmitCurrent
    simp only [hne, ↓reduceIte]
    split
    · exact (h.sealCurrent hcur.1 hcur.2).reclaim_idem
    · rfl
  · rfl

theorem Shape.counted_prePoll (h : Shape g r) (hc : Counted r) :
    Counted (r.prePoll g) ↔ Even (r.prePollReclaims g) := by
  rw [h.prePoll_eq]
  unfold prePollReclaims
  split
  · rename_i hcur
    exact (h.sealCurrent hcur.1 hcur.2).counted_reclaim (h.counted_sealCurrent hc hcur.1 hcur.2)
  · exact h.counted_reclaim hc

theorem Shape.counted_sealPartial (h : Shape g r) (hc : Counted r) :
    Counted (r.sealPartial g) ↔ ∀ q, r.sealReclaims g = some q → Even q := by
  unfold RingSubmitter.sealPartial
  split
  · exact h.counted_seal hc
  · rename_i hcur
    have hnone : r.sealReclaims g = none := by
      refine if_pos ?_
      by_contra hno
      simp only [not_or, not_not] at hno
      exact hcur ⟨hno.1, by omega⟩
    simp [hnone, hc]

end RingSubmitter

/-! ## Runs -/

namespace RingSystem

open RingSubmitter

variable {D : Type*} {g : Geometry}

/-- The submitter on which a step first calls `reclaim_completed`, if it does. -/
def reclaims (g : Geometry) (s : RingSystem D) : RingAction D → Option (RingSubmitter D)
  | .prePoll => some (s.ring.prePollReclaims g)
  | .drain => s.ring.sealReclaims g
  | .advance =>
      match s.stack with
      | .waitSpace _ false :: _ => if s.ring.descAvailable g = 0 then some s.ring else none
      | .waitSlot d false :: _ =>
          if s.ring.current.state = .inFlight then some s.ring
          else if (s.ring.beginBatch g).atWrap g then (s.ring.beginBatch g).sealReclaims g
          else (s.ring.beginBatch g).appendReclaims g d
      | .waitWrap d false :: _ =>
          if s.ring.current.state = .inFlight then some s.ring
          else s.ring.beginBatchAtZero.appendReclaims g d
      | .drainWait i :: _ =>
          if kDefaultNumBatches ≤ i then none
          else if (s.ring.batches i).state = .inFlight then some s.ring
          else none
      | _ => none
  | _ => none

/-- No step reclaims a single batch from in front of a multi-descriptor one that it leaves. -/
def EvenStep (g : Geometry) (s : RingSystem D) (a : RingAction D) : Prop :=
  ∀ q, s.reclaims g a = some q → Even q

theorem counted_advance {s s' : RingSystem D} (h : Formed g s) (hc : Counted s.ring)
    (hst : s.advance g = some s') : Counted s'.ring ↔ EvenStep g s .advance := by
  obtain ⟨hsh, hse⟩ := h
  cases hs : s.stack with
  | nil => simp [RingSystem.advance, hs] at hst
  | cons f rest =>
      cases f with
      | waitSpace d polling =>
          cases polling with
          | true => simp [RingSystem.advance, hs] at hst
          | false =>
              simp only [RingSystem.advance, hs] at hst
              simp only [EvenStep, reclaims, hs]
              split at hst <;> cases hst
              · rename_i hz
                simp only [iterate, hz, ↓reduceIte, Option.some.injEq, forall_eq']
                exact hsh.counted_reclaim hc
              · rename_i hz
                simp [hz, hc]
      | waitSlot d polling =>
          cases polling with
          | true => simp [RingSystem.advance, hs] at hst
          | false =>
              simp only [RingSystem.advance, hs] at hst
              simp only [EvenStep, reclaims, hs]
              split at hst
              · rename_i hin
                cases hst
                simp only [iterate, hin, ↓reduceIte, Option.some.injEq, forall_eq']
                exact hsh.counted_reclaim hc
              · rename_i hin
                obtain ⟨hb, hr⟩ := hsh.beginBatch hse hin
                have hcb := (hsh.counted_beginBatch hse hin).mpr hc
                split at hst <;> cases hst
                · rename_i hw
                  simp only [hin, hw, ↓reduceIte]
                  exact hb.counted_seal hcb
                · rename_i hw
                  simp only [hin, hw, ↓reduceIte]
                  exact hb.counted_append hr hcb _
      | waitWrap d polling =>
          cases polling with
          | true => simp [RingSystem.advance, hs] at hst
          | false =>
              simp only [RingSystem.advance, hs] at hst
              simp only [EvenStep, reclaims, hs]
              split at hst <;> cases hst
              · rename_i hin
                simp only [iterate, hin, ↓reduceIte, Option.some.injEq, forall_eq']
                exact hsh.counted_reclaim hc
              · rename_i hin
                obtain ⟨hb, hr⟩ := hsh.beginBatchAtZero hin
                simp only [hin, ↓reduceIte]
                exact hb.counted_append hr ((hsh.counted_setCurrent hin hb).mpr hc) _
      | drainWait i =>
          simp only [RingSystem.advance, hs] at hst
          simp only [EvenStep, reclaims, hs]
          split at hst
          · rename_i hi
            cases hst
            simp [hi, hc]
          · rename_i hi
            split at hst <;> cases hst
            · rename_i hin
              simp only [iterate, hi, hin, ↓reduceIte, Option.some.injEq, forall_eq']
              exact hsh.counted_reclaim hc
            · rename_i hin
              simp [hi, hin, hc]

theorem counted_step {s s' : RingSystem D} {a : RingAction D} (h : Formed g s)
    (hc : Counted s.ring) (hst : step g s a = some s') : Counted s'.ring ↔ EvenStep g s a := by
  cases a with
  | submit d =>
      simp only [step] at hst
      split at hst <;> cases hst
      simp [EvenStep, reclaims, hc]
  | prePoll =>
      simp only [step] at hst
      split at hst <;> cases hst
      simp only [EvenStep, reclaims, Option.some.injEq, forall_eq']
      exact h.1.counted_prePoll hc
  | drain =>
      simp only [step] at hst
      split at hst <;> cases hst
      exact h.1.counted_sealPartial hc
  | advance => exact counted_advance h hc hst
  | pollReturn =>
      simp only [step, RingSystem.pollReturn] at hst
      split at hst <;> cases hst <;> simp [EvenStep, reclaims, hc]
  | complete i status =>
      simp only [step, RingSystem.complete] at hst
      split at hst <;> cases hst
      rename_i hs
      simp only [EvenStep, reclaims, reduceCtorEq, false_implies, implies_true, iff_true]
      exact (h.1.counted_setStatus i hs.2.2.2).mpr hc

theorem counted_init [Inhabited D] (args : InitArgs) : Counted (init args : RingSystem D).ring := by
  simp [Counted, pendingBatches, init, RingSubmitter.init, DirectSubmitter.init]

end RingSystem

end DsaStdexec.Submitter

import DsaStdexec.Engine.Lemmas.Batching
import DsaStdexec.Submitter.Lemmas.RingAccounting

/-!
# What `inflight()` leaves room for

While no batch of one is sealed, `inflight()` counts the marked batches, and the gate of the engine keeps
it below the capacity: one call of the submitter, or the `pre_poll` after it, seals one batch.
-/

namespace DsaStdexec.Submitter

open DsaStdexec.Lib

variable {D : Type*}

/-- `inflight()` grows by `k` at most, and `wq_capacity()` stays. -/
structure DirectSubmitter.Within (k : Nat) (d d' : DirectSubmitter D) : Prop where
  inflight : d'.inflight ≤ d.inflight + k
  wqDepth : d'.wqDepth = d.wqDepth

namespace DirectSubmitter.Within

variable {d d' d'' : DirectSubmitter D} {k l : Nat}

theorem refl (d : DirectSubmitter D) : Within k d d := ⟨Nat.le_add_right _ _, rfl⟩

theorem trans (h : Within k d d') (h' : Within l d' d'') : Within (k + l) d d'' := by
  refine ⟨?_, h'.wqDepth.trans h.wqDepth⟩
  have := h.inflight
  have := h'.inflight
  omega

end DirectSubmitter.Within

open DirectSubmitter (Within)

/-! ## `FixedRingSubmitter` -/

namespace FixedRingSubmitter

open RingSubmitter (batchIndex)

variable {r : FixedRingSubmitter D} {n : Nat}

theorem reclaimLoop_within (k : Nat) : ∀ r : FixedRingSubmitter D,
    Within 0 r.direct (reclaimLoop k r).direct := by
  refine reclaimLoop_rel (R := fun r r' => Within 0 r.direct r'.direct) (fun _ => .refl _)
    (fun h h' => h.trans h') (fun _ => .refl _) (fun r _ => ⟨?_, rfl⟩) k
  simp only [FixedRingSubmitter.reclaimOne, DirectSubmitter.notifyComplete_inflight]
  omega

theorem sealCurrent_within : Within 1 r.direct r.sealCurrent.direct := by
  refine ⟨?_, ?_⟩
  · rw [sealCurrent_inflight]
    split <;> omega
  · unfold FixedRingSubmitter.sealCurrent FixedRingSubmitter.submitBatch
    split <;> rfl

theorem seal_within : Within 1 r.direct r.sealAndSubmitCurrent.direct := by
  rcases sealAndSubmitCurrent_cases r with ⟨he, _⟩ | ⟨_, _, he | he⟩
  · rw [he]; exact .refl _
  · rw [he]; exact sealCurrent_within
  · rw [he]; exact sealCurrent_within.trans (reclaimLoop_within _ _)

theorem sealPartial_within : Within 1 r.direct r.sealPartial.direct := by
  unfold FixedRingSubmitter.sealPartial
  split
  · exact seal_within
  · exact .refl _

theorem beginBatch_store_direct (d : D) : (r.beginBatch.store d).direct = r.direct := by
  unfold FixedRingSubmitter.beginBatch
  split <;> rfl

/-- Either the batch stays open and no doorbell is rung, or it is sealed. -/
theorem Shape.append_cases (h : Shape r) (hs : Settled n r) (hn : 2 ≤ n) (hlt : n < 2 ^ 32)
    (hc : r.current.state ≠ .inFlight) (d : D) :
    (r.append n d).direct = r.direct ∨
    Within 1 r.direct (r.append n d).direct ∧ (r.append n d).current.state ≠ .filling ∧
      ∀ d', (r.append n d).direct.portal ≠ r.direct.portal ++ [.single d'] := by
  obtain ⟨hb, hf⟩ := h.beginBatch hc
  have hcount := hs.beginBatch_count (by omega) hf
  have hcur := store_current r.beginBatch d (by omega)
  have hst := hb.store hf d
  have hd := beginBatch_store_direct (r := r) d
  unfold FixedRingSubmitter.append
  split
  · rename_i hfull
    refine Or.inr ⟨hd ▸ seal_within, hst.seal_not_filling ?_ (by omega), fun d' hp => ?_⟩
    · rw [hcur]; exact hf
    · rcases hst.seal_portal with he | ⟨b, he, _, hone⟩
      · rw [he, hd] at hp
        simp at hp
      · rw [he, hd, List.append_cancel_left_eq, List.cons.injEq] at hp
        have := hone d' hp.1
        omega
  · exact Or.inl hd

end FixedRingSubmitter

namespace FixedSystem

open FixedRingSubmitter
open RingSubmitter (batchIndex)

variable {n cap : Nat} {s s' : FixedSystem D} {a : FixedAction D}

/-- No batch of one is sealed. -/
def Paired (s : FixedSystem D) : FixedAction D → Prop
  | .prePoll => s.ring.current.state = .filling → s.ring.current.count ≠ 1
  | _ => True

instance (s : FixedSystem D) (a : FixedAction D) : Decidable (Paired s a) :=
  match a with
  | .prePoll => inferInstanceAs (Decidable (s.ring.current.state = .filling → s.ring.current.count ≠ 1))
  | .submit _ | .drain | .advance | .complete _ _ => isTrue trivial

/-- What the engine does: it tests `inflight()` before `submit_descriptor`, and does not drain. -/
def Gated (cap : Nat) (s : FixedSystem D) (a : FixedAction D) : Prop :=
  Paired s a ∧ (∀ d, a = .submit d → s.ring.direct.inflight < cap) ∧ a ≠ .drain

/-- A batch will be sealed that is not counted yet. -/
def Busy (s : FixedSystem D) : Prop :=
  s.ring.current.state = .filling ∨ ∃ d, s.call = some (.waitSlot d)

structure Throttled (cap : Nat) (s : FixedSystem D) : Prop where
  capacity : s.ring.direct.wqDepth = cap
  le : s.ring.direct.inflight ≤ cap
  room : Busy s → s.ring.direct.inflight < cap

theorem Throttled.of_within (h : Throttled cap s) (hw : Within 0 s.ring.direct s'.ring.direct)
    (hb : Busy s' → Busy s) : Throttled cap s' := by
  have := hw.inflight
  have := h.le
  refine ⟨hw.wqDepth.trans h.capacity, by omega, fun hb' => ?_⟩
  have := h.room (hb hb')
  omega

theorem Throttled.of_seal (h : Throttled cap s) (hb : Busy s)
    (hw : Within 1 s.ring.direct s'.ring.direct) (hb' : ¬ Busy s') : Throttled cap s' := by
  have := hw.inflight
  have := h.room hb
  exact ⟨hw.wqDepth.trans h.capacity, by omega, fun h' => absurd h' hb'⟩

theorem reclaim_busy (h : Formed n s) (hb : Busy { s with ring := s.ring.reclaimCompleted }) :
    Busy s :=
  hb.imp_left fun hf => by rwa [h.shape.reclaimed.current_filling hf] at hf

theorem Throttled.step (hn : 2 ≤ n) (hlt : n < 2 ^ 32) (hi : Formed n s) (h : Throttled cap s)
    (hg : Gated cap s a) (hst : step n s a = some s') : Throttled cap s' := by
  obtain ⟨_, hgate, hdrain⟩ := hg
  cases a with
  | submit d =>
      simp only [FixedSystem.step] at hst
      split at hst <;> cases hst
      exact ⟨h.capacity, h.le, fun _ => hgate d rfl⟩
  | prePoll =>
      simp only [FixedSystem.step] at hst
      split at hst <;> cases hst
      rename_i hcall
      have hnone : s.call = none := Option.isNone_iff_eq_none.mp hcall
      by_cases hf : s.ring.current.state = .filling
      · refine h.of_seal (Or.inl hf) (sealPartial_within.trans (reclaimLoop_within _ _)) ?_
        rintro (hf' | ⟨d, hd⟩)
        · have hcur := hi.shape.sealPartial.reclaimed.current_filling hf'
          exact hi.shape.sealPartial_not_filling hi.settled (hcur ▸ hf')
        · rw [hnone] at hd; cases hd
      · have he : s.ring.prePoll = s.ring.reclaimCompleted := by
          rw [FixedRingSubmitter.prePoll, FixedRingSubmitter.sealPartial, if_neg fun hc => hf hc.1]
        rw [he]
        exact h.of_within (reclaimLoop_within _ _) (reclaim_busy hi)
  | drain => exact absurd rfl hdrain
  | advance =>
      simp only [FixedSystem.step, FixedSystem.advance] at hst
      split at hst
      · rename_i d hcall
        split at hst <;> cases hst
        · exact h.of_within (reclaimLoop_within _ _) fun _ => Or.inr ⟨d, hcall⟩
        · rename_i hin
          have hbusy : Busy s := Or.inr ⟨d, hcall⟩
          rcases hi.shape.append_cases hi.settled hn hlt hin d with he | ⟨hw, hnf, _⟩
          · exact h.of_within (he ▸ .refl _) fun _ => hbusy
          · refine h.of_seal hbusy hw ?_
            rintro (hf | ⟨_, hd⟩)
            · exact hnf hf
            · cases hd
      · rename_i i hcall
        split at hst
        · cases hst
          exact h.of_within (.refl _) (Or.imp_right fun hd => by cases hd.choose_spec)
        · split at hst <;> cases hst
          · exact h.of_within (reclaimLoop_within _ _) (reclaim_busy hi)
          · exact h.of_within (.refl _) (Or.imp_right fun hd => by cases hd.choose_spec)
      · cases hst
  | complete i x =>
      simp only [FixedSystem.step] at hst
      split at hst <;> cases hst
      refine h.of_within (.refl _) (Or.imp_left fun hf => ?_)
      rw [FixedRingSubmitter.current, setStatus_state] at hf
      exact hf

theorem not_single (hn : 2 ≤ n) (hlt : n < 2 ^ 32) (hi : Formed n s) (hg : Gated cap s a)
    (hst : FixedSystem.step n s a = some s') (d : D) :
    s'.ring.direct.portal ≠ s.ring.direct.portal ++ [.single d] := by
  obtain ⟨hpair, _, hdrain⟩ := hg
  have hsame : s.ring.direct.portal ≠ s.ring.direct.portal ++ [.single d] := by simp
  cases a with
  | submit _ =>
      simp only [FixedSystem.step] at hst
      split at hst <;> cases hst
      exact hsame
  | prePoll =>
      simp only [FixedSystem.step] at hst
      split at hst <;> cases hst
      simp only [FixedRingSubmitter.prePoll, hi.shape.sealPartial.reclaimed.portal]
      rcases hi.shape.sealPartial_portal with he | ⟨b, he, hf, hone⟩
      · rw [he]; exact hsame
      · rw [he, ne_eq, List.append_cancel_left_eq, List.cons.injEq]
        exact fun hb => hpair hf (hone d hb.1)
  | drain => exact absurd rfl hdrain
  | advance =>
      simp only [FixedSystem.step, FixedSystem.advance] at hst
      split at hst
      · split at hst <;> cases hst
        · rw [hi.shape.reclaimed.portal]; exact hsame
        · rename_i hin
          rcases hi.shape.append_cases hi.settled hn hlt hin _ with he | ⟨_, _, hp⟩
          · rw [he]; exact hsame
          · exact hp d
      · split at hst
        · cases hst; exact hsame
        · split at hst <;> cases hst
          · rw [hi.shape.reclaimed.portal]; exact hsame
          · exact hsame
      · cases hst
  | complete i x =>
      simp only [FixedSystem.step] at hst
      split at hst <;> cases hst
      exact hsame

end FixedSystem

/-! ## `RingSubmitter` and `MirroredRingSubmitter` -/

namespace RingSubmitter

variable {g : Geometry} {r r' : RingSubmitter D}

/-- Every batch in the batch ring is counted. -/
def Level (r : RingSubmitter D) : Prop := r.direct.inflight = r.batchFill - r.batchHead

theorem Level.of_reclaimed {m : Nat} (h : Level r) (hr : Reclaimed r r' m) : Level r' := by
  have := hr.le
  rw [Level] at h ⊢
  rw [hr.inflight, hr.batchFill, hr.batchHead]
  omega

theorem Level.reclaim (h : Level r) (hsh : Shape g r) : Level r.reclaimCompleted := by
  obtain ⟨m, hr⟩ := hsh.reclaimed
  exact h.of_reclaimed hr

theorem Level.seal (h : Level r) (hsh : Shape g r) (h1 : r.current.state = .filling →
    r.current.count ≠ 1) : Level (r.sealAndSubmitCurrent g) := by
  have hseal (hf : r.current.state = .filling) : Level (r.sealCurrent g) := by
    have := hsh.head_le
    rw [Level] at h ⊢
    rw [sealCurrent_inflight, sealCurrent_batchFill, sealCurrent_batchHead, if_neg (h1 hf)]
    omega
  rcases sealAndSubmitCurrent_cases g r with he | ⟨hf, hn, he | he⟩
  · rw [he]; exact h
  · rw [he]; exact hseal hf
  · rw [he]; exact (hseal hf).reclaim (hsh.sealCurrent hf hn)

theorem Level.sealPartial (h : Level r) (hsh : Shape g r) (h1 : r.current.state = .filling →
    r.current.count ≠ 1) : Level (r.sealPartial g) := by
  unfold RingSubmitter.sealPartial
  split
  · exact h.seal hsh h1
  · exact h

theorem Level.beginBatch (h : Level r) : Level (r.beginBatch g) := by
  unfold RingSubmitter.beginBatch
  split
  · exact h
  · exact h

theorem reclaim_within (h : Shape g r) : Within 0 r.direct r.reclaimCompleted.direct := by
  obtain ⟨m, hr⟩ := h.reclaimed
  refine ⟨?_, hr.wqDepth⟩
  rw [hr.inflight]
  omega

theorem sealCurrent_within : Within 1 r.direct (r.sealCurrent g).direct := by
  refine ⟨?_, ?_⟩
  · rw [sealCurrent_inflight]
    split <;> omega
  · unfold RingSubmitter.sealCurrent RingSubmitter.submitBatch
    split <;> rfl

theorem Shape.seal_within (h : Shape g r) : Within 1 r.direct (r.sealAndSubmitCurrent g).direct := by
  rcases sealAndSubmitCurrent_cases g r with he | ⟨hf, hn, he | he⟩
  · rw [he]; exact .refl _
  · rw [he]; exact sealCurrent_within
  · rw [he]; exact sealCurrent_within.trans (reclaim_within (h.sealCurrent hf hn))

theorem Shape.sealPartial_within (h : Shape g r) : Within 1 r.direct (r.sealPartial g).direct := by
  unfold RingSubmitter.sealPartial
  split
  · exact h.seal_within
  · exact .refl _

/-- Either the batch stays open and no doorbell is rung, or it is sealed. -/
theorem Shape.append_cases (h : Shape g r) (hr : Ready g r) (hn : 2 ≤ g.maxBatch) (d : D) :
    (r.append g d).direct = r.direct ∧ (r.append g d).current.count = r.current.count + 1 ∨
    0 < r.current.count ∧ Within 1 r.direct (r.append g d).direct ∧
      (r.append g d).current.state ≠ .filling ∧
      ∀ d', (r.append g d).direct.portal ≠ r.direct.portal ++ [.single d'] := by
  have hst := h.store hr d
  have hcur := hr.store_current d
  have hcount : (r.store g d).current.count = r.current.count + 1 := by rw [hcur]
  unfold RingSubmitter.append
  simp only
  split
  · rename_i hfull
    refine Or.inr ⟨by omega, hst.seal_within, hst.seal_not_filling ?_ (by omega), fun d' hp => ?_⟩
    · rw [hcur]; exact hr.1
    · rcases hst.seal_portal with he | ⟨b, he, _, hone⟩
      · rw [he] at hp
        exact absurd hp (by simp [RingSubmitter.store, RingSubmitter.setCurrent])
      · rw [he] at hp
        have hb : b = .single d' := by
          simpa [RingSubmitter.store, RingSubmitter.setCurrent] using hp
        have := hone d' hb
        omega
  · exact Or.inl ⟨rfl, hcount⟩

theorem Level.append (h : Level r) (hsh : Shape g r) (hr : Ready g r) (hn : 2 ≤ g.maxBatch) (d : D) :
    Level (r.append g d) := by
  have hst := hsh.store hr d
  unfold RingSubmitter.append
  simp only
  split
  · exact Level.seal (r := r.store g d) h hst fun _ => by omega
  · exact h

end RingSubmitter

namespace RingSystem

open RingSubmitter

variable {g : Geometry} {cap : Nat} {s s' : RingSystem D} {a : RingAction D}

/-- No batch of one is sealed, by `pre_poll` or at the end of the ring. -/
def Paired (g : Geometry) (s : RingSystem D) : RingAction D → Prop
  | .prePoll => s.ring.current.state = .filling → s.ring.current.count ≠ 1
  | .advance =>
      match s.stack with
      | .waitSlot _ false :: _ => s.ring.current.state = .filling → s.ring.atWrap g = true →
          s.ring.current.count ≠ 1
      | _ => True
  | _ => True

instance (g : Geometry) (s : RingSystem D) (a : RingAction D) : Decidable (Paired g s a) :=
  match a with
  | .prePoll => inferInstanceAs (Decidable (s.ring.current.state = .filling → s.ring.current.count ≠ 1))
  | .advance =>
      match h : s.stack with
      | .waitSlot _ false :: _ =>
          decidable_of_iff (s.ring.current.state = .filling → s.ring.atWrap g = true →
            s.ring.current.count ≠ 1) (by simp only [Paired, h])
      | [] | .waitSpace _ _ :: _ | .waitSlot _ true :: _ | .waitWrap _ _ :: _ | .drainWait _ :: _ =>
          isTrue (by simp only [Paired, h])
  | .submit _ | .drain | .pollReturn | .complete _ _ => isTrue trivial

/-- What the engine does: it tests `inflight()` before `submit_descriptor`, and does not drain. -/
def Gated (g : Geometry) (cap : Nat) (s : RingSystem D) (a : RingAction D) : Prop :=
  Paired g s a ∧ (∀ d, a = .submit d → s.ring.direct.inflight < cap) ∧ a ≠ .drain

/-- With fewer doorbells than batches, no call of `submit_descriptor` has to wait. After the wrap-around
check the call seals no second batch, since the new one begins with one descriptor. -/
structure Tight (g : Geometry) (cap : Nat) (s : RingSystem D) : Prop where
  flat : Flat g s
  quiet : s.callable = true → s.stack = []
  le : s.ring.direct.inflight ≤ cap
  waiting : s.stack = [] ∨ (∃ d, s.stack = [.waitWrap d false]) ∨ s.ring.direct.inflight < cap
  filling : s.ring.current.state = .filling → s.ring.current.count = 1 ∨ s.ring.direct.inflight < cap

structure Throttled (g : Geometry) (cap : Nat) (s : RingSystem D) : Prop where
  capacity : s.ring.direct.wqDepth = cap
  level : Level s.ring
  tight : cap < kDefaultNumBatches → Tight g cap s

theorem level_effect (hn : 2 ≤ g.maxBatch) (hi : Formed g s) (h : Level s.ring) (hg : Gated g cap s a)
    (he : Effect g s a s') : Level s'.ring := by
  obtain ⟨hpair, _, hdrain⟩ := hg
  obtain ⟨hsh, hse⟩ := hi
  cases he with
  | E_Submit => exact h
  | E_Idle _ hr _ _ => rw [hr]; exact h
  | E_Reclaim _ => exact h.reclaim hsh
  | E_PrePoll => exact (h.sealPartial hsh hpair).reclaim hsh.sealPartial
  | E_Drain _ => exact absurd rfl hdrain
  | E_Wrap hst _ hw =>
      simp only [Paired, hst] at hpair
      exact h.seal hsh fun hf => hpair hf hw
  | E_Append _ hc _ =>
      obtain ⟨hb, hr⟩ := hsh.beginBatch hse hc
      exact h.beginBatch.append hb hr hn _
  | E_AppendAtZero _ hc =>
      obtain ⟨hb, hr⟩ := hsh.beginBatchAtZero hc
      exact Level.append (r := s.ring.beginBatchAtZero) h hb hr hn _
  | E_Complete _ _ _ _ => exact h

theorem beginBatch_direct (g : Geometry) (r : RingSubmitter D) : (r.beginBatch g).direct = r.direct := by
  unfold RingSubmitter.beginBatch
  split <;> rfl

theorem wqDepth_effect (hn : 2 ≤ g.maxBatch) (hi : Formed g s) (he : Effect g s a s') :
    s'.ring.direct.wqDepth = s.ring.direct.wqDepth := by
  obtain ⟨hsh, hse⟩ := hi
  have happend {q : RingSubmitter D} (hq : Shape g q) (hr : Ready g q) (d : D) :
      (q.append g d).direct.wqDepth = q.direct.wqDepth := by
    rcases hq.append_cases hr hn d with ⟨he, _⟩ | ⟨_, hw, _⟩
    · rw [he]
    · exact hw.wqDepth
  cases he with
  | E_Submit => rfl
  | E_Idle _ hr _ _ => rw [hr]
  | E_Reclaim _ => exact (reclaim_within hsh).wqDepth
  | E_PrePoll => exact (hsh.sealPartial_within.trans (reclaim_within (g := g) hsh.sealPartial)).wqDepth
  | E_Drain _ => exact hsh.sealPartial_within.wqDepth
  | E_Wrap _ _ _ => exact hsh.seal_within.wqDepth
  | @E_Append d _ _ hc _ =>
      obtain ⟨hb, hr⟩ := hsh.beginBatch hse hc
      exact (happend hb hr d).trans (by rw [beginBatch_direct])
  | @E_AppendAtZero d _ _ hc =>
      obtain ⟨hb, hr⟩ := hsh.beginBatchAtZero hc
      exact happend hb hr d
  | E_Complete _ _ _ _ => rfl

theorem Tight.not_inFlight (hcap : cap < kDefaultNumBatches) (h : Tight g cap s) (hl : Level s.ring) :
    s.ring.current.state ≠ .inFlight := by
  intro hin
  have hfull := h.flat.tidy.shape.current_inFlight.mp hin
  have := h.le
  rw [Level] at hl
  simp only [kDefaultNumBatches] at hcap
  omega

theorem Tight.available (hcap : cap < kDefaultNumBatches) (h : Tight g cap s) (hl : Level s.ring) :
    s.ring.descAvailable g ≠ 0 := by
  have htidy := h.flat.tidy
  have htail := htidy.layout.tail_lt htidy.shape (h.not_inFlight hcap hl) htidy.settled.staged_lt
  have hhead : s.ring.descHead ≤ s.ring.descTail := htidy.layout.head_le_tail
  rw [RingSubmitter.descAvailable, subSize_eq hhead, subSize_eq (by omega)]
  omega

theorem Tight.append {q : RingSubmitter D} {d : D} (hn : 2 ≤ g.maxBatch) (hq : Shape g q)
    (hr : Ready g q) (hle : q.direct.inflight ≤ cap)
    (hroom : q.current.count = 0 ∨ q.direct.inflight < cap)
    (hflat : Flat g (s.finish g q d [])) : Tight g cap (s.finish g q d []) := by
  rcases hq.append_cases hr hn d with ⟨hd, hcount⟩ | ⟨hpos, hw, hnf, _⟩
  · refine ⟨hflat, fun _ => rfl, hd ▸ hle, Or.inl rfl, fun _ => ?_⟩
    rcases hroom with h0 | hlt
    · exact Or.inl (hcount.trans (by rw [h0]))
    · exact Or.inr (hd ▸ hlt)
  · have := hw.inflight
    exact ⟨hflat, fun _ => rfl, by simp only [finish]; omega, Or.inl rfl, fun hf => absurd hf hnf⟩

theorem Tight.advance (hn : 2 ≤ g.maxBatch) (hcap : cap < kDefaultNumBatches) (h : Tight g cap s)
    (hl : Level s.ring) (hst : s.advance g = some s') : Tight g cap s' := by
  have hflat := h.flat.effect (fun d hd => by cases hd) (advance_effect hst)
  have hin := h.not_inFlight hcap hl
  have hsh := h.flat.tidy.shape
  have hle := h.le
  cases hs : s.stack with
  | nil => simp [RingSystem.advance, hs] at hst
  | cons f rest =>
      obtain rfl := h.flat.nil_of_cons hs
      cases f with
      | waitSpace d polling =>
          cases polling with
          | true => simp [RingSystem.advance, hs] at hst
          | false =>
              have hlt : s.ring.direct.inflight < cap := by simpa [hs] using h.waiting
              simp only [RingSystem.advance, hs, h.available hcap hl, ↓reduceIte,
                Option.some.injEq] at hst
              subst hst
              exact ⟨hflat, by simp [callable], hle, Or.inr (Or.inr hlt), fun _ => Or.inr hlt⟩
      | waitSlot d polling =>
          cases polling with
          | true => simp [RingSystem.advance, hs] at hst
          | false =>
              have hlt : s.ring.direct.inflight < cap := by simpa [hs] using h.waiting
              obtain ⟨hb, hr⟩ := hsh.beginBatch h.flat.tidy.settled hin
              have hd := beginBatch_direct g s.ring
              simp only [RingSystem.advance, hs, hin, ↓reduceIte] at hst
              split at hst <;> cases hst
              · have hw := (hb.seal_within).inflight
                rw [hd] at hw
                refine ⟨hflat, by simp [callable], by simp only; omega, Or.inr (Or.inl ⟨d, rfl⟩), fun hf => ?_⟩
                exact absurd hf (hflat.wrap d false List.mem_cons_self).1
              · exact Tight.append hn hb hr (hd ▸ hle) (Or.inr (hd ▸ hlt)) hflat
      | waitWrap d polling =>
          cases polling with
          | true => simp [RingSystem.advance, hs] at hst
          | false =>
              obtain ⟨hb, hr⟩ := hsh.beginBatchAtZero hin
              simp only [RingSystem.advance, hs, hin, ↓reduceIte, Option.some.injEq] at hst
              subst hst
              refine Tight.append hn hb hr hle (Or.inl ?_) hflat
              rw [RingSubmitter.beginBatchAtZero, setCurrent_current]
      | drainWait i =>
          have hlt : s.ring.direct.inflight < cap := by simpa [hs] using h.waiting
          simp only [RingSystem.advance, hs] at hst
          split at hst
          · cases hst
            exact ⟨hflat, fun _ => rfl, hle, Or.inl rfl, fun _ => Or.inr hlt⟩
          · split at hst <;> cases hst
            · have := (reclaim_within hsh).inflight
              exact ⟨hflat, by simp [callable, iterate], by simp only [iterate]; omega,
                Or.inr (Or.inr (by simp only [iterate]; omega)),
                fun _ => Or.inr (by simp only [iterate]; omega)⟩
            · exact ⟨hflat, by simp [callable], hle, Or.inr (Or.inr hlt), fun _ => Or.inr hlt⟩

theorem Tight.prePoll (h : Tight g cap s) (hg : Gated g cap s .prePoll) (hc : s.callable = true) :
    Tight g cap { s with ring := s.ring.prePoll g } := by
  have hsh := h.flat.tidy.shape
  have hflat : Flat g { s with ring := s.ring.prePoll g } :=
    h.flat.effect (fun d hd => by cases hd) .E_PrePoll
  have hnil := h.quiet hc
  have hnf : (s.ring.prePoll g).current.state ≠ .filling := by
    refine (hsh.sealPartial (g := g)).reclaim_not_filling ?_
    exact hsh.sealPartial_not_filling h.flat.tidy.settled
  refine ⟨hflat, fun _ => hnil, ?_, Or.inl hnil, fun hf => absurd hf hnf⟩
  by_cases hf : s.ring.current.state = .filling
  · have hlt := (h.filling hf).resolve_left (hg.1 hf)
    have := (hsh.sealPartial_within.trans (reclaim_within (g := g) hsh.sealPartial)).inflight
    simp only [RingSubmitter.prePoll]
    omega
  · have := (reclaim_within hsh).inflight
    have := h.le
    simp only [RingSubmitter.prePoll, sealPartial_eq hf]
    omega

theorem Throttled.step (hn : 2 ≤ g.maxBatch) (hi : Formed g s) (h : Throttled g cap s)
    (hg : Gated g cap s a) (hst : step g s a = some s') : Throttled g cap s' := by
  have he := step_effect hst
  refine ⟨(wqDepth_effect hn hi he).trans h.capacity, level_effect hn hi h.level hg he,
    fun hcap => ?_⟩
  have ht := h.tight hcap
  cases a with
  | submit d =>
      simp only [RingSystem.step] at hst
      split at hst <;> cases hst
      rename_i hc
      have hnil := ht.quiet hc
      have hlt := hg.2.1 d rfl
      refine ⟨ht.flat.effect (fun _ _ => hnil) he, by simp [callable], ht.le, Or.inr (Or.inr hlt), ht.filling⟩
  | prePoll =>
      simp only [RingSystem.step] at hst
      split at hst <;> cases hst
      rename_i hc
      exact ht.prePoll hg hc
  | drain => exact absurd rfl hg.2.2
  | advance => exact ht.advance hn hcap h.level hst
  | pollReturn =>
      -- no `poll_fn_` is running
      simp only [RingSystem.step, RingSystem.pollReturn] at hst
      split at hst
      all_goals first
        | cases hst; done
        | rename_i hs
          have hnil := ht.quiet (by simp [RingSystem.callable, hs])
          rw [hs] at hnil
          cases hnil
  | complete i x =>
      have hflat := ht.flat.effect (fun d hd => by cases hd) he
      simp only [RingSystem.step, RingSystem.complete] at hst
      split at hst <;> cases hst
      refine ⟨hflat, ht.quiet, ht.le, ht.waiting, fun hf => ?_⟩
      rw [setStatus_current_state] at hf
      have hcount : (s.ring.setStatus i x).current.count = s.ring.current.count := by
        simp only [RingSubmitter.current, RingSubmitter.setStatus]
        rw [Function.update_apply]
        split
        · rename_i hi
          rw [hi]
        · rfl
      rw [hcount]
      exact ht.filling hf

theorem Throttled.le (h : Throttled g cap s) (hi : Formed g s) : s.ring.direct.inflight ≤ cap := by
  by_cases hcap : cap < kDefaultNumBatches
  · exact (h.tight hcap).le
  · have := hi.1.fill_le
    have hl := h.level
    rw [Level] at hl
    simp only [kDefaultNumBatches] at hcap
    omega

theorem not_single (hn : 2 ≤ g.maxBatch) (hi : Formed g s) (hg : Gated g cap s a)
    (he : Effect g s a s') (d : D) :
    s'.ring.direct.portal ≠ s.ring.direct.portal ++ [.single d] := by
  obtain ⟨hpair, _, hdrain⟩ := hg
  obtain ⟨hsh, hse⟩ := hi
  have hsame : s.ring.direct.portal ≠ s.ring.direct.portal ++ [.single d] := by simp
  have happend {q : RingSubmitter D} (hd : q.direct = s.ring.direct) (hq : Shape g q)
      (hr : Ready g q) (e : D) :
      (q.append g e).direct.portal ≠ s.ring.direct.portal ++ [.single d] := by
    rcases hq.append_cases hr hn e with ⟨he, _⟩ | ⟨_, _, _, hp⟩
    · rw [he, hd]; exact hsame
    · rw [← hd]; exact hp d
  cases he with
  | E_Submit => exact hsame
  | E_Idle _ hr _ _ => rw [hr]; exact hsame
  | E_Reclaim _ => simp only [iterate, hsh.reclaim_portal]; exact hsame
  | E_PrePoll =>
      simp only [RingSubmitter.prePoll, (hsh.sealPartial (g := g)).reclaim_portal]
      rcases hsh.sealPartial_portal with he | ⟨b, he, hf, hone⟩
      · rw [he]; exact hsame
      · rw [he, ne_eq, List.append_cancel_left_eq, List.cons.injEq]
        exact fun hb => hpair hf (hone d hb.1)
  | E_Drain _ => exact absurd rfl hdrain
  | E_Wrap hst hf hw =>
      rcases hsh.seal_portal with he | ⟨b, he, _, hone⟩
      · simp only [he]; exact hsame
      · simp only [Paired, hst] at hpair
        simp only [he, ne_eq, List.append_cancel_left_eq, List.cons.injEq]
        exact fun hb => hpair hf hw (hone d hb.1)
  | @E_Append e _ _ hc _ =>
      obtain ⟨hb, hr⟩ := hsh.beginBatch hse hc
      exact happend (beginBatch_direct g s.ring) hb hr e
  | @E_AppendAtZero e _ _ hc =>
      obtain ⟨hb, hr⟩ := hsh.beginBatchAtZero hc
      exact happend (q := s.ring.beginBatchAtZero) rfl hb hr e
  | E_Complete _ _ _ _ => exact hsame

/-- The batches in flight. -/
def marks (s : RingSystem D) : Finset Nat :=
  (Finset.Ico s.ring.batchHead s.ring.batchFill).image batchIndex

theorem Throttled.marks_le (h : Throttled g cap s) (hi : Formed g s) : s.marks.card ≤ cap := by
  refine Nat.le_trans Finset.card_image_le ?_
  rw [Nat.card_Ico, ← h.level]
  exact h.le hi

theorem Lent.mem_marks (hi : Formed g s) {start m i : Nat} (hl : Lent s start m i) : i ∈ s.marks := by
  obtain ⟨b, h1, h2, rfl⟩ := (hi.1.inFlight_iff hl.1).mp hl.2.1.1
  exact Finset.mem_image_of_mem _ (Finset.mem_Ico.mpr ⟨h1, h2⟩)

end RingSystem

end DsaStdexec.Submitter

/-! ## The engines -/

namespace DsaStdexec.Engine

open DsaStdexec.Lib DsaStdexec.Submitter

variable {D : Type*} {args : InitArgs} {cap : Nat}

theorem wqDepth_init (hmode : args.mode = .dedicated) (hsize : 0 < args.wq.size) :
    (DirectSubmitter.init args.mode (some args.wq) : DirectSubmitter D).wqDepth =
      args.wq.size.toNat := by
  simp only [DirectSubmitter.init, hmode, if_pos hsize]

/-- An open gate leaves room for a doorbell. -/
theorem inflight_lt_of_gate {σ α A R : Type*} {P : Driven σ α D A R} {s : BatchingEngine σ D}
    (hcap : P.wqCapacity s.sub = cap) (hpos : 0 < cap) (hg : s.gateClosed P = false) :
    P.inflight s.sub < cap := by
  simp only [BatchingEngine.gateClosed, hcap, Bool.and_eq_false_iff, decide_eq_false_iff_not] at hg
  omega

/-- What holds of the submitter's steps holds of the engine's. -/
theorem multiple_of_calls {σ α A R : Type*} {P : Driven σ α D A R} {B : σ → α → Prop} {I : σ → Prop}
    (h : ∀ (s : BatchingEngine σ D) (a : EngineAction D R) b t, I s.sub → B s.sub b →
      s.calls P a = some b → P.machine.step s.sub b = some t →
        ∀ d, P.portal t ≠ P.portal s.sub ++ [.single d]) :
    WorkQueue.Multiple (BatchingEngine.port P) (BatchingEngine.OnCalls P B) fun s => I s.sub := by
  intro s a s' hi hc _ hst d
  rcases BatchingEngine.step_sub hst with he | ⟨b, hb, hsub⟩
  · simp [BatchingEngine.port, he]
  · exact h s a b s'.sub hi (hc.call hb) hb hsub d

variable [Inhabited D]

theorem fixed_gated {s : BatchingEngine (FixedSystem D) D} {a : EngineAction D Nat} {b : FixedAction D}
    (hpos : 0 < cap) (ht : FixedSystem.Throttled cap s.sub) (hp : s.sub.Paired b)
    (hb : s.calls (fixedDriven args) a = some b) : FixedSystem.Gated cap s.sub b := by
  rcases BatchingEngine.calls_cases hb with rfl | rfl | hr | ⟨r, x, rfl⟩ | ⟨hg, d, rfl⟩
  · exact ⟨hp, nofun, nofun⟩
  · exact ⟨hp, nofun, nofun⟩
  · cases hr
  · exact ⟨hp, nofun, nofun⟩
  · exact ⟨hp, fun _ _ => inflight_lt_of_gate (P := fixedDriven args) ht.capacity hpos hg, nofun⟩

theorem ring_gated {k : RingKind} {s : BatchingEngine (RingSystem D) D} {a : EngineAction D Nat}
    {b : RingAction D} (hpos : 0 < cap)
    (ht : RingSystem.Throttled (Geometry.ofArgs k args) cap s.sub)
    (hp : s.sub.Paired (Geometry.ofArgs k args) b)
    (hb : s.calls (ringDriven k args) a = some b) :
    RingSystem.Gated (Geometry.ofArgs k args) cap s.sub b := by
  rcases BatchingEngine.calls_cases hb with rfl | rfl | hr | ⟨r, x, rfl⟩ | ⟨hg, d, rfl⟩
  · exact ⟨hp, by rintro d ⟨⟩, by rintro ⟨⟩⟩
  · exact ⟨hp, by rintro d ⟨⟩, by rintro ⟨⟩⟩
  · cases hr
    exact ⟨hp, by rintro d ⟨⟩, by rintro ⟨⟩⟩
  · exact ⟨hp, by rintro d ⟨⟩, by rintro ⟨⟩⟩
  · exact ⟨hp, fun _ _ => inflight_lt_of_gate (P := ringDriven k args) ht.capacity hpos hg, by rintro ⟨⟩⟩

theorem fixed_throttled (hn : 2 ≤ args.maxBatch)
    (hcap : (FixedSystem.init args : FixedSystem D).ring.direct.wqDepth = cap) :
    (FixedSystem.port args : Port (FixedSystem D) _ D _ _).Lawful (FixedSystem.Gated cap)
      (fun s => FixedSystem.Ready args.maxBatch s ∧ s.Throttled cap) FixedSystem.Lent := by
  refine (FixedSystem.careful args).toLawful.strengthen ⟨hcap, Nat.zero_le _, ?_⟩ ?_ fun s i x =>
    ⟨trivial, nofun, nofun⟩
  · rintro (hf | ⟨d, hd⟩)
    · cases hf
    · cases hd
  · exact fun hi ht hg hst => ht.step hn args.maxBatch_lt hi.formed hg hst

theorem ring_throttled {k : RingKind} (hn : 2 ≤ args.maxBatch)
    (hcap : (RingSystem.init args : RingSystem D).ring.direct.wqDepth = cap) :
    (RingSystem.port k args : Port (RingSystem D) _ D _ _).Lawful
      (RingSystem.Gated (Geometry.ofArgs k args) cap)
      (fun s => RingSystem.Marked (Geometry.ofArgs k args) s ∧ s.Throttled (Geometry.ofArgs k args) cap)
      RingSystem.Lent := by
  refine (RingSystem.lawful k args).strengthen ⟨hcap, rfl, fun _ => ?_⟩ ?_ fun s i x =>
    ⟨trivial, nofun, nofun⟩
  · exact ⟨RingSystem.flat_init args, fun _ => rfl, Nat.zero_le _, Or.inl rfl, fun hf => by cases hf⟩
  · exact fun hi ht hg hst => ht.step hn hi.formed hg hst

theorem fixed_occupancy (hn : 2 ≤ args.maxBatch) (hpos : 0 < cap)
    (hcap : (FixedSystem.init args : FixedSystem D).ring.direct.wqDepth = cap)
    {as : List (QueueAction (EngineAction D Nat))}
    {q : WorkQueue (BatchingEngine.port (fixedDriven args : Driven _ _ D _ _))}
    (hm : (WorkQueue.machine (BatchingEngine.port (fixedDriven args))).Meets
      (WorkQueue.OnOwn (BatchingEngine.OnCalls (fixedDriven args) FixedSystem.Paired))
      (WorkQueue.machine _).init as)
    (hrun : (WorkQueue.machine (BatchingEngine.port (fixedDriven args))).run as = some q) :
    q.occupancy ≤ cap := by
  have hlaw := BatchingEngine.lawful (P := fixedDriven args) (B := FixedSystem.Paired)
    (fixed_throttled (D := D) hn hcap) (fun hi hp hb => fixed_gated hpos hi.2 hp hb)
    fun _ _ _ => trivial
  have hmul := multiple_of_calls (P := fixedDriven args) (B := FixedSystem.Paired)
    (I := fun s : FixedSystem D => FixedSystem.Ready args.maxBatch s ∧ s.Throttled cap)
    fun s a b t hi hp hb hst =>
      FixedSystem.not_single hn args.maxBatch_lt hi.1.formed (fixed_gated hpos hi.2 hp hb) hst
  have hf := WorkQueue.filled_of_run hlaw hmul hm hrun
  obtain ⟨hready, ht⟩ := hf.tracked.inv
  have hcard := hready.formed.shape.inflight
  refine Nat.le_trans (hf.occupancy_le fun b m r hl => ?_) (hcard ▸ ht.le)
  exact Finset.mem_filter.mpr ⟨Finset.mem_range.mpr hl.2.1, hl.2.2.1.1⟩

theorem ring_occupancy {k : RingKind} (hn : 2 ≤ args.maxBatch) (hpos : 0 < cap)
    (hcap : (RingSystem.init args : RingSystem D).ring.direct.wqDepth = cap)
    {as : List (QueueAction (EngineAction D Nat))}
    {q : WorkQueue (BatchingEngine.port (ringDriven k args : Driven _ _ D _ _))}
    (hm : (WorkQueue.machine (BatchingEngine.port (ringDriven k args))).Meets
      (WorkQueue.OnOwn (BatchingEngine.OnCalls (ringDriven k args)
        (RingSystem.Paired (Geometry.ofArgs k args))))
      (WorkQueue.machine _).init as)
    (hrun : (WorkQueue.machine (BatchingEngine.port (ringDriven k args))).run as = some q) :
    q.occupancy ≤ cap := by
  have hlaw := BatchingEngine.lawful (P := ringDriven k args)
    (B := RingSystem.Paired (Geometry.ofArgs k args)) (ring_throttled (D := D) hn hcap)
    (fun hi hp hb => ring_gated hpos hi.2 hp hb) fun _ _ _ => trivial
  have hmul := multiple_of_calls (P := ringDriven k args)
    (B := RingSystem.Paired (Geometry.ofArgs k args))
    (I := fun s : RingSystem D => RingSystem.Marked (Geometry.ofArgs k args) s ∧
      RingSystem.Throttled (Geometry.ofArgs k args) cap s)
    fun s a b t hi hp hb hst =>
      RingSystem.not_single hn hi.1.formed (ring_gated hpos hi.2 hp hb) (RingSystem.step_effect hst)
  have hf := WorkQueue.filled_of_run hlaw hmul hm hrun
  obtain ⟨hmarked, ht⟩ := hf.tracked.inv
  exact Nat.le_trans (hf.occupancy_le fun b m r hl => hl.mem_marks hmarked.formed)
    (ht.marks_le hmarked.formed)

end DsaStdexec.Engine

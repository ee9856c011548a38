import DsaStdexec.Submitter.Lemmas.Lending

/-!
# What the ring submitters know about their batches

The marks are right in every run. That the lists are left alone and that the order is kept needs the
layout of the descriptor ring, which a nested call can destroy.
-/

namespace DsaStdexec.Submitter

open DsaStdexec.Lib

variable {D : Type*} {g : Geometry}

namespace RingSubmitter

variable {r r' : RingSubmitter D}

/-! ## The entries -/

theorem reclaimLoop_leavesAlone (k : Nat) : ∀ r : RingSubmitter D,
    LeavesAlone BatchEntry.Unanswered r.batches (reclaimLoop k r).batches := by
  induction k with
  | zero => exact fun r => .refl _
  | succ k ih =>
      intro r
      unfold reclaimLoop
      simp only
      split
      · exact ih { r with batchHead := r.batchHead + 1 }
      · split
        · exact .refl _
        · split
          · exact .refl _
          · rename_i hz
            -- the entry that is freed was answered
            exact LeavesAlone.trans (.update (fun hu => hz hu.2) _) (ih r.reclaimOne)

theorem setCurrent_leavesAlone (hc : r.current.state ≠ .inFlight) (e : BatchEntry D) :
    LeavesAlone BatchEntry.Unanswered r.batches (r.setCurrent e).batches :=
  .update (fun hu => hc hu.1) _

theorem sealCurrent_batches (g : Geometry) (r : RingSubmitter D) : (r.sealCurrent g).batches =
    Function.update r.batches (batchIndex r.batchFill) (sealedEntry r.current) :=
  submitBatch_batches g r

theorem seal_leavesAlone (g : Geometry) (r : RingSubmitter D) :
    LeavesAlone BatchEntry.Unanswered r.batches (r.sealAndSubmitCurrent g).batches := by
  have hseal : r.current.state = .filling →
      LeavesAlone BatchEntry.Unanswered r.batches (r.sealCurrent g).batches := by
    intro hf
    rw [sealCurrent_batches]
    exact .update (fun hu => absurd (hf.symm.trans hu.1) (by decide)) _
  rcases sealAndSubmitCurrent_cases g r with he | ⟨hf, _, he | he⟩
  · rw [he]; exact .refl _
  · rw [he]; exact hseal hf
  · rw [he]; exact (hseal hf).trans (reclaimLoop_leavesAlone _ _)

theorem sealPartial_leavesAlone (g : Geometry) (r : RingSubmitter D) :
    LeavesAlone BatchEntry.Unanswered r.batches (r.sealPartial g).batches := by
  unfold sealPartial
  split
  · exact seal_leavesAlone g r
  · exact .refl _

theorem beginBatch_leavesAlone (hc : r.current.state ≠ .inFlight) :
    LeavesAlone BatchEntry.Unanswered r.batches (r.beginBatch g).batches := by
  unfold beginBatch
  split
  · exact setCurrent_leavesAlone hc _
  · exact .refl _

theorem Ready.append_leavesAlone (h : Ready g r) (d : D) :
    LeavesAlone BatchEntry.Unanswered r.batches (r.append g d).batches := by
  have hst : LeavesAlone BatchEntry.Unanswered r.batches (r.store g d).batches :=
    setCurrent_leavesAlone (by rw [h.1]; decide) _
  unfold append
  simp only
  split
  · exact hst.trans (seal_leavesAlone _ _)
  · exact hst

/-- While a batch is being filled its record is clear. -/
def Blank (r : RingSubmitter D) : Prop := r.current.state = .filling → r.current.status = 0

theorem Blank.of_reclaimed {n : Nat} (h : Blank r) (hsh : Shape g r) (hr : Reclaimed r r' n) :
    Blank r' := by
  intro hf
  obtain ⟨he, hf'⟩ := hr.current_filling hsh hf
  rw [he]; exact h hf'

theorem Blank.reclaim (h : Blank r) (hsh : Shape g r) : Blank r.reclaimCompleted := by
  obtain ⟨n, hr⟩ := hsh.reclaimed
  exact h.of_reclaimed hsh hr

theorem Blank.seal (h : Blank r) (hsh : Shape g r) : Blank (r.sealAndSubmitCurrent g) := by
  rcases sealAndSubmitCurrent_cases g r with he | ⟨hf, hn, _⟩
  · rw [he]; exact h
  · exact fun hf' => absurd hf' (hsh.seal_not_filling hf hn)

theorem Blank.sealPartial (h : Blank r) (hsh : Shape g r) : Blank (r.sealPartial g) := by
  unfold RingSubmitter.sealPartial
  split
  · exact h.seal hsh
  · exact h

theorem Blank.beginBatch (h : Blank r) : Blank (r.beginBatch g) := by
  unfold RingSubmitter.beginBatch
  split
  · intro _; rw [setCurrent_current]
  · exact h

theorem blank_beginBatchAtZero : Blank r.beginBatchAtZero := by
  intro _; rw [beginBatchAtZero, setCurrent_current]

theorem Blank.store (h : Blank r) (hr : Ready g r) (d : D) : Blank (r.store g d) := by
  intro hf
  rw [hr.store_current] at hf ⊢
  exact h hf

theorem Blank.append (h : Blank r) (hsh : Shape g r) (hr : Ready g r) (d : D) :
    Blank (r.append g d) := by
  unfold RingSubmitter.append
  simp only
  split
  · exact (h.store hr d).seal (hsh.store hr d)
  · exact h.store hr d

/-! ## Doorbells -/

/-- What sealing does to the portal; a batch of more than one descriptor is then unanswered. -/
def Sealed (g : Geometry) (r r' : RingSubmitter D) : Prop :=
  r'.direct.portal = r.direct.portal ++ [.single (r.descRing (g.cell r.current.start))] ∨
  r'.direct.portal = r.direct.portal ++
      [.batch r.current.count (r.listAt g r.current.start r.current.count)] ∧
    r'.batches (batchIndex r.batchFill) = { r.current with state := .inFlight } ∧
    r'.descRing = r.descRing

theorem sealCurrent_sealed (g : Geometry) (r : RingSubmitter D) : Sealed g r (r.sealCurrent g) := by
  have hp := sealCurrent_portal (g := g) (r := r)
  by_cases h1 : r.current.count = 1
  · rw [if_pos h1] at hp
    exact Or.inl hp
  · rw [if_neg h1] at hp
    refine Or.inr ⟨hp, ?_, sealCurrent_descRing⟩
    rw [sealCurrent_batches, Function.update_self, sealedEntry, if_neg h1]

theorem Sealed.reclaim (hz : r.current.status = 0) (h : Sealed g r r') (hsh : Shape g r') :
    Sealed g r r'.reclaimCompleted := by
  obtain ⟨n, hr⟩ := hsh.reclaimed
  rcases h with hp | ⟨hp, he, hd⟩
  · exact Or.inl (hr.portal.trans hp)
  · refine Or.inr ⟨hr.portal.trans hp, ?_, hr.descRing.trans hd⟩
    rw [← he]
    exact reclaimLoop_leavesAlone _ _ _ (by rw [he]; exact ⟨rfl, hz⟩)

theorem Shape.seal_sealed (h : Shape g r) (hf : r.current.state = .filling) (hn : 0 < r.current.count)
    (hz : r.current.status = 0) : Sealed g r (r.sealAndSubmitCurrent g) := by
  have hs := h.sealCurrent hf hn
  unfold RingSubmitter.sealAndSubmitCurrent
  simp only [hf, ne_eq, not_true_eq_false, false_or, show ¬ r.current.count = 0 by omega, ↓reduceIte]
  split
  · exact (sealCurrent_sealed g r).reclaim hz hs
  · exact sealCurrent_sealed g r

/-- What a step does to the portal: nothing, or it seals the entry at `batch_fill_`. -/
def Seals (g : Geometry) (r r' : RingSubmitter D) : Prop :=
  r'.direct.portal = r.direct.portal ∨ r.current.state ≠ .inFlight ∧
    ∃ q, q.batchFill = r.batchFill ∧ q.direct.portal = r.direct.portal ∧ q.current.status = 0 ∧
      Sealed g q r'

theorem Shape.reclaim_portal (h : Shape g r) :
    r.reclaimCompleted.direct.portal = r.direct.portal := by
  obtain ⟨n, hr⟩ := h.reclaimed
  exact hr.portal

theorem Shape.seals_of_filling (h : Shape g r) (hb : Blank r) (hf : r.current.state = .filling)
    (hn : 0 < r.current.count) : Seals g r (r.sealAndSubmitCurrent g) :=
  Or.inr ⟨by rw [hf]; decide, r, rfl, rfl, hb hf, h.seal_sealed hf hn (hb hf)⟩

theorem Shape.sealPartial_seals (h : Shape g r) (hb : Blank r) : Seals g r (r.sealPartial g) := by
  unfold RingSubmitter.sealPartial
  split
  · rename_i hc
    exact h.seals_of_filling hb hc.1 hc.2
  · exact Or.inl rfl

theorem Seals.reclaim (h : Seals g r r') (hsh : Shape g r') : Seals g r r'.reclaimCompleted := by
  rcases h with hp | ⟨hc, q, h1, h2, hz, hs⟩
  · exact Or.inl (hsh.reclaim_portal.trans hp)
  · exact Or.inr ⟨hc, q, h1, h2, hz, hs.reclaim hz hsh⟩

theorem Shape.append_seals {q : RingSubmitter D} (h : Shape g q) (hb : Blank q) (hr : Ready g q)
    (hc : r.current.state ≠ .inFlight) (hfill : q.batchFill = r.batchFill)
    (hp : q.direct.portal = r.direct.portal) (d : D) : Seals g r (q.append g d) := by
  have hcur := hr.store_current d
  have hfilling : (q.store g d).current.state = .filling := by rw [hcur]; exact hr.1
  have hz := hb.store hr d hfilling
  unfold RingSubmitter.append
  simp only
  split
  · refine Or.inr ⟨hc, q.store g d, hfill, hp, hz, (h.store hr d).seal_sealed hfilling ?_ hz⟩
    rw [hcur]; exact Nat.succ_pos _
  · exact Or.inl hp

end RingSubmitter

/-! ## Runs -/

namespace RingSystem

open RingSubmitter

variable {s s' : RingSystem D} {a : RingAction D}

def Lent (s : RingSystem D) (start n i : Nat) : Prop :=
  i < kDefaultNumBatches ∧ (s.ring.batches i).Unanswered ∧ (s.ring.batches i).start = start ∧
    (s.ring.batches i).count = n

structure Marked (g : Geometry) (s : RingSystem D) : Prop where
  formed : Formed g s
  blank : Blank s.ring

theorem marked_init [Inhabited D] (args : InitArgs) : Marked g (init args : RingSystem D) :=
  ⟨formed_init args, fun hf => by cases hf⟩

theorem setStatus_blank {i : Nat} {x : UInt8} (hin : (s.ring.batches i).state = .inFlight)
    (hb : Blank s.ring) : Blank (s.ring.setStatus i x) := by
  intro hf
  have hne : batchIndex s.ring.batchFill ≠ i := by
    rintro rfl
    rw [setStatus_current_state] at hf
    exact absurd (hin.symm.trans hf) (by decide)
  have hcur : (s.ring.setStatus i x).current = s.ring.current := Function.update_of_ne hne _ _
  rw [hcur] at hf ⊢
  exact hb hf

theorem Marked.effect (h : Marked g s) (he : Effect g s a s') : Marked g s' := by
  refine ⟨h.formed.effect he, ?_⟩
  obtain ⟨⟨hsh, hse⟩, hb⟩ := h
  cases he with
  | E_Submit => exact hb
  | E_Idle _ hr _ _ => rw [hr]; exact hb
  | E_Reclaim _ => exact hb.reclaim hsh
  | E_PrePoll => exact (hb.sealPartial hsh).reclaim hsh.sealPartial
  | E_Drain _ => exact hb.sealPartial hsh
  | E_Wrap _ _ _ => exact hb.seal hsh
  | E_Append _ hc _ =>
      obtain ⟨hbs, hr⟩ := hsh.beginBatch hse hc
      exact hb.beginBatch.append hbs hr _
  | E_AppendAtZero _ hc =>
      obtain ⟨hbs, hr⟩ := hsh.beginBatchAtZero hc
      exact blank_beginBatchAtZero.append hbs hr _
  | E_Complete _ hin _ _ => exact setStatus_blank hin hb

theorem Marked.leavesAlone (h : Marked g s) (he : Effect g s a s') (ha : ∀ i x, a ≠ .complete i x) :
    LeavesAlone BatchEntry.Unanswered s.ring.batches s'.ring.batches := by
  obtain ⟨⟨hsh, hse⟩, _⟩ := h
  cases he with
  | E_Submit => exact .refl _
  | E_Idle _ hr _ _ => rw [hr]; exact .refl _
  | E_Reclaim _ => exact reclaimLoop_leavesAlone _ _
  | E_PrePoll => exact (sealPartial_leavesAlone g _).trans (reclaimLoop_leavesAlone _ _)
  | E_Drain _ => exact sealPartial_leavesAlone g _
  | E_Wrap _ _ _ => exact seal_leavesAlone g _
  | E_Append _ hc _ =>
      exact (beginBatch_leavesAlone hc).trans ((hsh.beginBatch hse hc).2.append_leavesAlone _)
  | E_AppendAtZero _ hc =>
      exact (setCurrent_leavesAlone hc _).trans ((hsh.beginBatchAtZero hc).2.append_leavesAlone _)
  | E_Complete _ _ _ _ => exact absurd rfl (ha _ _)

theorem Marked.seals (h : Marked g s) (he : Effect g s a s') : Seals g s.ring s'.ring := by
  obtain ⟨⟨hsh, hse⟩, hb⟩ := h
  cases he with
  | E_Submit => exact Or.inl rfl
  | E_Idle _ hr _ _ => rw [hr]; exact Or.inl rfl
  | E_Reclaim _ => exact Or.inl hsh.reclaim_portal
  | E_PrePoll => exact (hsh.sealPartial_seals hb).reclaim hsh.sealPartial
  | E_Drain _ => exact hsh.sealPartial_seals hb
  | E_Wrap _ hf _ => exact hsh.seals_of_filling hb hf (hse hf).1
  | E_Append _ hc _ =>
      obtain ⟨hbs, hr⟩ := hsh.beginBatch hse hc
      refine hbs.append_seals hb.beginBatch hr hc ?_ ?_ _
      · unfold RingSubmitter.beginBatch; split <;> rfl
      · unfold RingSubmitter.beginBatch; split <;> rfl
  | E_AppendAtZero _ hc =>
      obtain ⟨hbs, hr⟩ := hsh.beginBatchAtZero hc
      exact hbs.append_seals blank_beginBatchAtZero hr hc rfl rfl _
  | E_Complete _ _ _ _ => exact Or.inl rfl

theorem Lent.leavesAlone (hl : LeavesAlone BatchEntry.Unanswered s.ring.batches s'.ring.batches)
    {start m i : Nat} (h : Lent s start m i) : Lent s' start m i := by
  obtain ⟨hlt, hu, hstart, hcount⟩ := h
  have he := hl i hu
  rw [Lent, he]
  exact ⟨hlt, hu, hstart, hcount⟩

theorem setStatus_lent {start m i j : Nat} {x : UInt8} (hl : Lent s start m j) (hne : i ≠ j) :
    Lent { s with ring := s.ring.setStatus i x } start m j := by
  have he : (s.ring.setStatus i x).batches j = s.ring.batches j :=
    Function.update_of_ne (Ne.symm hne) _ _
  simp only [Lent, he]
  exact hl

/-- The slots of a batch in flight are not written. -/
theorem Tidy.entry_kept (hg : g.kind = .ring) (h : Tidy g s) (he : Effect g s a s')
    {start m i j : Nat} (hl : Lent s start m i) (hj : j < m) :
    s'.ring.descRing (g.cell (start + j)) = s.ring.descRing (g.cell (start + j)) := by
  obtain ⟨hsh, hse, hlay⟩ := h
  obtain ⟨hlt, hu, rfl, rfl⟩ := hl
  obtain ⟨b, hb, hent⟩ := hsh.live_of_inFlight hlt hu.1
  rcases Formed.descRing ⟨hsh, hse⟩ he with hd | ⟨hc, d, hd⟩
  · rw [hd]
  · rw [hd]
    refine Function.update_of_ne (fun hcell => ?_) _ _
    refine hlay.tail_not_held hsh hse hg hc hb ?_
    have hfit := (hlay.placed b hb).fits hg
    rw [hent] at hfit
    rw [cell_eq g (by omega), cell_eq g (by rw [descIndex_eq]; exact Nat.mod_lt _ (ringSize_pos g))]
      at hcell
    rw [Holds, hent, ← hcell]
    omega

/-- The invariant of the runs in which `poll_fn_` does not call `submit_descriptor`. -/
structure Orderly (g : Geometry) (s : RingSystem D) : Prop where
  flat : Flat g s
  rung : RingSubmitter.Rung s.ring s.log
  blank : Blank s.ring

theorem Orderly.marked (h : Orderly g s) : Marked g s :=
  ⟨⟨h.flat.tidy.shape, h.flat.tidy.settled⟩, h.blank⟩

theorem Orderly.effect (hg : g.Sound) (h : Orderly g s) (hn : NoReentry s a) (he : Effect g s a s') :
    Orderly g s' :=
  ⟨h.flat.effect hn he, rung_effect hg h.flat.tidy h.rung (h.flat.clean a) he,
    (h.marked.effect he).blank⟩

theorem noReentry_complete (s : RingSystem D) (i : Nat) (x : UInt8) : NoReentry s (.complete i x) := by
  intro d hd
  cases hd

/-- With one call at a time the descriptors are stored in the order of the calls. -/
theorem Flat.log_effect (h : Flat g s) (hn : NoReentry s a) (he : Effect g s a s') :
    s'.log ++ s'.pending = s.log ++ s.pending ++ a.desc?.toList := by
  cases he with
  | E_Submit =>
      have hst := hn _ rfl
      simp [pending, hst, RingFrame.desc?, RingAction.desc?]
  | E_Idle ha _ hl hk => simp [pending, hk.desc, hl, ha]
  | E_Reclaim hk => simp [pending, iterate, hk.desc, RingAction.desc?]
  | E_PrePoll => simp [RingAction.desc?, pending]
  | E_Drain hst => simp [RingAction.desc?, pending, hst, RingFrame.desc?]
  | E_Wrap hst _ _ => simp [RingAction.desc?, pending, hst, RingFrame.desc?]
  | E_Append hst _ _ =>
      simp [pending, finish, hst, h.nil_of_cons hst, RingFrame.desc?, RingAction.desc?]
  | E_AppendAtZero hst _ =>
      simp [pending, finish, hst, h.nil_of_cons hst, RingFrame.desc?, RingAction.desc?]
  | E_Complete _ _ _ _ => simp [RingAction.desc?, pending]

section Port

variable [Inhabited D] {k : RingKind} {args : InitArgs}

theorem port_complete (h : (port k args : Port (RingSystem D) _ D _ _).isComplete a = false) (i : Nat)
    (x : UInt8) : a ≠ .complete i x := by
  rintro rfl
  cases h

theorem Marked.rings (h : Marked (Geometry.ofArgs k args) s)
    (he : Effect (Geometry.ofArgs k args) s a s') : (port k args).Rings Lent s s' := by
  rcases h.seals he with hp | ⟨hc, q, hfill, hq, hz, hp | ⟨hp, hent, hd⟩⟩
  · exact .silent hp
  · exact .single _ (hp.trans (by rw [hq]; rfl))
  · rw [hfill] at hent
    refine .batch q.current.count (hp.trans ?_) ⟨batchIndex_lt _, ?_, ?_, ?_⟩ fun b m hl => ?_
    · rw [hq]
      simp only [port, hent, hd]
      rfl
    · simp only [port, hent]
      exact ⟨rfl, hz⟩
    · rfl
    · simp only [port, hent]
    · exact hc hl.2.1.1

theorem complete_step {start m i : Nat} {x : UInt8} (hl : Lent s start m i) (hx : x ≠ 0) :
    (port k args : Port (RingSystem D) _ D _ _).machine.step s (.complete i x) =
      some { s with ring := s.ring.setStatus i x } := by
  obtain ⟨hlt, ⟨hin, hz⟩, _⟩ := hl
  simp [port, machine, RingSystem.step, RingSystem.complete, hlt, hin, hz, hx]

/-- The marks are right whatever the nested calls do. -/
theorem lawful (k : RingKind) (args : InitArgs) :
    (port k args : Port (RingSystem D) _ D _ _).Lawful (fun _ _ => True)
      (Marked (Geometry.ofArgs k args)) Lent where
  init := marked_init args
  portal_init := rfl
  step hi _ hst := hi.effect (step_effect hst)
  answer _ hl hx := ⟨trivial, complete_step hl hx⟩
  rings hi _ _ hst := hi.rings (step_effect hst)
  kept hi _ hn hst _ _ _ hl := hl.leavesAlone (hi.leavesAlone (step_effect hst) (port_complete hn))
  other _ hl hne := setStatus_lent hl hne
  setStatus_portal := rfl
  clear hl := hl.2.1.2

theorem orderly_init (args : InitArgs) : Orderly g (init args : RingSystem D) :=
  ⟨flat_init args, by simp [RingSubmitter.Rung, init, RingSubmitter.init, DirectSubmitter.init],
    (marked_init (g := g) args).blank⟩

theorem sound_ring (args : InitArgs) : (Geometry.ofArgs .ring args).Sound := fun hk => by cases hk

theorem careful (args : InitArgs) :
    (port .ring args : Port (RingSystem D) _ D _ _).Careful NoReentry
      (Orderly (Geometry.ofArgs .ring args)) Lent where
  init := orderly_init args
  portal_init := rfl
  step hi hc hst := hi.effect (sound_ring args) hc (step_effect hst)
  answer _ hl hx := ⟨noReentry_complete _ _ _, complete_step hl hx⟩
  rings hi _ _ hst := hi.marked.rings (step_effect hst)
  kept hi _ hn hst _ _ _ hl :=
    hl.leavesAlone (hi.marked.leavesAlone (step_effect hst) (port_complete hn))
  other _ hl hne := setStatus_lent hl hne
  setStatus_portal := rfl
  clear hl := hl.2.1.2
  entry hi _ _ hst _ _ _ hl _ hj := hi.flat.tidy.entry_kept rfl (step_effect hst) hl hj
  setStatus_entry := rfl

/-! ## The sequence -/

theorem Orderly.sent_eq (h : Orderly (Geometry.ofArgs .ring args) s) :
    (port .ring args).sent s = s.log ++ s.pending := by
  have hl := h.flat.tidy.layout
  have hsh := h.flat.tidy.shape
  rw [← h.rung.staged hsh hl, Port.sent]
  congr 2
  simp only [port]
  split
  · rename_i hf
    exact hl.listAt_eq hsh (sound_ring args) ⟨hsh.head_le, Or.inr ⟨rfl, hf⟩⟩
  · rfl

theorem ordered (args : InitArgs) :
    (port .ring args : Port (RingSystem D) _ D _ _).Ordered NoReentry
      (Orderly (Geometry.ofArgs .ring args)) where
  init := rfl
  step hi hc hst := by
    have he := step_effect hst
    rw [hi.sent_eq, (hi.effect (sound_ring args) hc he).sent_eq]
    exact hi.flat.log_effect hc he
  complete _ _ := rfl

end Port

end RingSystem

end DsaStdexec.Submitter

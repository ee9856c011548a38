import DsaStdexec.Submitter.Lemmas.Device

/-!
# What the submitters know about their batches

Each submitter marks the batches that it waits for. A batch is marked from its doorbell until the device
answers it, and nothing that belongs to a marked batch is written.
-/

namespace DsaStdexec.Submitter

open DsaStdexec.Lib

variable {D : Type*}

/-- The entries that satisfy `P` are left alone. -/
def LeavesAlone {ι E : Type*} (P : E → Prop) (f g : ι → E) : Prop := ∀ i, P (f i) → g i = f i

namespace LeavesAlone

variable {ι E : Type*} {P : E → Prop} {f g h : ι → E}

theorem refl (f : ι → E) : LeavesAlone P f f := fun _ _ => rfl

theorem trans (hfg : LeavesAlone P f g) (hgh : LeavesAlone P g h) : LeavesAlone P f h := by
  intro i hi
  have he := hfg i hi
  rw [hgh i (he.symm ▸ hi), he]

theorem update [DecidableEq ι] {i : ι} (hi : ¬ P (f i)) (e : E) :
    LeavesAlone P f (Function.update f i e) := by
  intro j hj
  refine Function.update_of_ne ?_ _ _
  rintro rfl
  exact hi hj

end LeavesAlone

/-- The entry of a batch that was not answered. -/
def FixedEntry.Unanswered (b : FixedEntry D) : Prop := b.state = .inFlight ∧ b.status = 0

def BatchEntry.Unanswered (b : BatchEntry D) : Prop := b.state = .inFlight ∧ b.status = 0

/-! ## `StagingSubmitter` -/

namespace StagingSubmitter

variable {s : StagingSubmitter D}

@[simp] theorem release_batchStatus : s.release.batchStatus = s.batchStatus := by
  unfold release; split <;> rfl

@[simp] theorem flushTail_staged : s.flushTail.staged = s.staged := by
  simp only [flushTail, swap, ring]; split <;> simp

/-- A batch of more than one descriptor is marked, and its record is cleared. -/
theorem flushTail_marked (h1 : s.stagedCount ≠ 1) :
    s.flushTail.batchSubmitted s.activeBuf = true ∧ s.flushTail.batchStatus s.activeBuf = 0 := by
  simp [flushTail, swap, ring, h1]

theorem flushTail_sent :
    s.flushTail.direct.portal.flatMap Doorbell.descs ++ s.flushTail.list =
      s.direct.portal.flatMap Doorbell.descs ++ s.list := by
  have hnil : s.flushTail.list = [] := rfl
  rw [hnil, List.append_nil, flushTail_portal, List.flatMap_append]
  split
  · rename_i h1
    simp [Doorbell.descs, list, h1]
  · simp [Doorbell.descs]

end StagingSubmitter

namespace StagingSystem

open StagingSubmitter

variable {n : Nat} {s s' : StagingSystem D} {a : StagingAction D}

def Lent (s : StagingSystem D) (b : Bool) (_ : Nat) (r : Bool) : Prop :=
  b = r ∧ s.sub.batchSubmitted r = true ∧ s.sub.batchStatus r = 0

theorem Lent.not_active (h : Swapped n s) {b r : Bool} {m : Nat} (hl : Lent s b m r) :
    r ≠ s.sub.activeBuf := by
  rintro rfl
  rw [Lent, h.active] at hl
  exact absurd hl.2.1 (by decide)

/-- `flush` rings the doorbell only when the device holds nothing. -/
theorem Lent.waits (h : Swapped n s) {b r : Bool} {m : Nat} (hl : Lent s b m r) :
    s.sub.waits = true := by
  have hr : r = !s.sub.activeBuf := Bool.eq_not.mpr (hl.not_active h)
  subst hr
  simp [StagingSubmitter.waits, hl.2.1, hl.2.2]

theorem lent_effect (h : Swapped n s) (he : Effect n s a s') (hn : ∀ b x, a ≠ .complete b x)
    {b r : Bool} {m : Nat} (hl : Lent s b m r) :
    Lent s' b m r ∧ s'.sub.staged b = s.sub.staged b := by
  cases he with
  | E_Submit _ =>
      refine ⟨hl, Function.update_of_ne ?_ _ _⟩
      rw [hl.1]; exact hl.not_active h
  | E_Flush _ _ => exact ⟨hl, rfl⟩
  | E_Wait _ => exact ⟨hl, rfl⟩
  | E_Ring _ hw =>
      rw [hl.waits h] at hw
      cases hw
  | E_Complete => exact absurd rfl (hn _ _)

variable [Inhabited D] {args : InitArgs}

theorem port_complete {b : Bool} {x : UInt8} {a : StagingAction D}
    (h : (port args).isComplete a = false) : a ≠ .complete b x := by
  rintro rfl
  cases h

theorem rings_effect (h : Swapped args.maxBatch s) (he : Effect args.maxBatch s a s') :
    (port args).Rings Lent s s' := by
  cases he with
  | E_Submit _ => exact .silent rfl
  | E_Flush _ _ => exact .silent rfl
  | E_Wait _ => exact .silent rfl
  | E_Ring _ _ =>
      have hp := flushTail_portal (s := s.sub)
      by_cases h1 : s.sub.stagedCount = 1
      · rw [if_pos h1] at hp
        exact .single _ hp
      · have hmod : s.sub.stagedCount % 2 ^ 32 = s.sub.stagedCount :=
          Nat.mod_eq_of_lt (Nat.lt_of_le_of_lt h.count args.maxBatch_lt)
        rw [if_neg h1, hmod] at hp
        refine .batch s.sub.stagedCount (hp.trans ?_) ⟨rfl, flushTail_marked h1⟩ fun b m hl => ?_
        · simp [port, list]
        · exact hl.not_active h rfl
  | E_Complete => exact .silent rfl

theorem careful (args : InitArgs) :
    (port args : Port (StagingSystem D) _ D _ _).Careful (fun _ _ => True) (Swapped args.maxBatch)
      Lent where
  init := swapped_init args
  portal_init := rfl
  step hi _ hst := swapped_step hi hst
  answer := by
    rintro s b n r x _ ⟨_, hsub, hz⟩ hx
    refine ⟨trivial, ?_⟩
    simp [port, machine, StagingSystem.step, hsub, hz, hx]
  rings hi _ _ hst := rings_effect hi (step_effect hst)
  kept hi _ hn hst _ _ _ hl := (lent_effect hi (step_effect hst) (fun _ _ => port_complete hn) hl).1
  other := by
    rintro s a n r b m q x _ ⟨hb, hsub, hz⟩ hne
    refine ⟨hb, hsub, ?_⟩
    rw [← hz]
    exact Function.update_of_ne (Ne.symm hne) _ _
  setStatus_portal := rfl
  clear hl := hl.2.2
  entry hi _ hn hst b m r hl k _ :=
    congrFun (lent_effect hi (step_effect hst) (fun _ _ => port_complete hn) hl).2 k
  setStatus_entry := rfl

theorem ordered (args : InitArgs) :
    (port args : Port (StagingSystem D) _ D _ _).Ordered (fun _ _ => True) (Swapped args.maxBatch) where
  init := rfl
  step := by
    intro s a s' _ _ hst
    have he := step_effect hst
    cases he with
    | E_Submit _ =>
        simp only [Port.sent, port, submit, store_list, StagingAction.desc?, Option.toList_some,
          List.append_nil, List.append_assoc]
        rfl
    | E_Flush ha _ => simp only [port, ha, Option.toList_none, List.append_nil]; rfl
    | E_Wait _ => exact (List.append_nil _).symm
    | E_Ring _ _ =>
        simp only [Port.sent, port, StagingAction.desc?, Option.toList_none, List.append_nil]
        exact flushTail_sent
    | E_Complete => exact (List.append_nil _).symm
  complete _ _ := rfl

end StagingSystem

/-! ## `FixedRingSubmitter` -/

namespace FixedRingSubmitter

open RingSubmitter (batchIndex)

variable {n : Nat} {r r' : FixedRingSubmitter D}

theorem reclaimLoop_leavesAlone (k : Nat) : ∀ r : FixedRingSubmitter D,
    LeavesAlone FixedEntry.Unanswered r.batches (reclaimLoop k r).batches := by
  refine reclaimLoop_rel (R := fun r r' => LeavesAlone FixedEntry.Unanswered r.batches r'.batches)
    (fun _ => .refl _) (fun h h' => h.trans h') (fun _ => .refl _) (fun r hz => ?_) k
  -- the entry that is freed was answered
  exact .update (fun hu => hz hu.2) _

theorem setCurrent_leavesAlone (hc : r.current.state ≠ .inFlight) (e : FixedEntry D) :
    LeavesAlone FixedEntry.Unanswered r.batches (r.setCurrent e).batches :=
  .update (fun hu => hc hu.1) _

theorem sealCurrent_leavesAlone (hc : r.current.state ≠ .inFlight) :
    LeavesAlone FixedEntry.Unanswered r.batches r.sealCurrent.batches := by
  rw [sealCurrent_batches]
  exact .update (fun hu => hc hu.1) _

theorem seal_leavesAlone (r : FixedRingSubmitter D) :
    LeavesAlone FixedEntry.Unanswered r.batches r.sealAndSubmitCurrent.batches := by
  rcases sealAndSubmitCurrent_cases r with ⟨he, _⟩ | ⟨hf, _, he | he⟩
  · rw [he]; exact .refl _
  · rw [he]; exact sealCurrent_leavesAlone (by rw [hf]; decide)
  · rw [he]
    exact (sealCurrent_leavesAlone (by rw [hf]; decide)).trans (reclaimLoop_leavesAlone _ _)

theorem sealPartial_leavesAlone (r : FixedRingSubmitter D) :
    LeavesAlone FixedEntry.Unanswered r.batches r.sealPartial.batches := by
  unfold sealPartial
  split
  · exact seal_leavesAlone r
  · exact .refl _

theorem beginBatch_leavesAlone (hc : r.current.state ≠ .inFlight) :
    LeavesAlone FixedEntry.Unanswered r.batches r.beginBatch.batches := by
  unfold beginBatch
  split
  · exact setCurrent_leavesAlone hc _
  · exact .refl _

theorem Shape.append_leavesAlone (h : Shape r) (hc : r.current.state ≠ .inFlight) (d : D) :
    LeavesAlone FixedEntry.Unanswered r.batches (r.append n d).batches := by
  obtain ⟨_, hf⟩ := h.beginBatch hc
  have hst : LeavesAlone FixedEntry.Unanswered r.batches (r.beginBatch.store d).batches :=
    (beginBatch_leavesAlone hc).trans (setCurrent_leavesAlone (by rw [hf]; decide) _)
  unfold FixedRingSubmitter.append
  split
  · exact hst.trans (seal_leavesAlone _)
  · exact hst

/-- While a batch is being filled its record is clear. -/
def Blank (r : FixedRingSubmitter D) : Prop := r.current.state = .filling → r.current.status = 0

theorem Blank.of_reclaimed (h : Blank r) (hr : Reclaimed r r') : Blank r' := by
  intro hf
  have he := hr.current_filling hf
  rw [he] at hf ⊢
  exact h hf

theorem Blank.beginBatch (h : Blank r) : Blank r.beginBatch := by
  unfold FixedRingSubmitter.beginBatch
  split
  · intro _; rw [setCurrent_current]
  · exact h

theorem Blank.store (h : Blank r) (d : D) : Blank (r.store d) := by
  intro hf
  rw [FixedRingSubmitter.store, setCurrent_current] at hf ⊢
  exact h hf

theorem Blank.append (h : Blank r) (hsh : Shape r) (hs : Settled n r) (hn : 0 < n) (hlt : n < 2 ^ 32)
    (hc : r.current.state ≠ .inFlight) (d : D) : Blank (r.append n d) := by
  obtain ⟨hb, hf⟩ := hsh.beginBatch hc
  have hcur := store_current r.beginBatch d (by have := hs.beginBatch_count hn hf; omega)
  unfold FixedRingSubmitter.append
  split
  · refine fun hf' => absurd hf' ((hb.store hf d).seal_not_filling ?_ ?_)
    · rw [hcur]; exact hf
    · rw [hcur]; exact Nat.succ_pos _
  · exact h.beginBatch.store d

/-- What sealing writes to the portal; a batch of more than one descriptor is then unanswered. -/
def Rung (r r' : FixedRingSubmitter D) : Prop :=
  r'.direct.portal = r.direct.portal ++ [.single (r.current.descs 0)] ∨
  r'.direct.portal = r.direct.portal ++ [.batch r.current.count r.current.list] ∧
    r'.batches (batchIndex r.batchFill) = { r.current with state := .inFlight }

theorem sealCurrent_rung : Rung r r.sealCurrent := by
  have hp := sealCurrent_portal (r := r)
  by_cases h1 : r.current.count = 1
  · rw [if_pos h1] at hp
    exact Or.inl hp
  · rw [if_neg h1] at hp
    refine Or.inr ⟨hp, ?_⟩
    rw [sealCurrent_batches, Function.update_self, sealedEntry, if_neg h1]

theorem Rung.reclaim (hz : r.current.status = 0) (h : Rung r r') (hsh : Shape r') :
    Rung r r'.reclaimCompleted := by
  rcases h with hp | ⟨hp, he⟩
  · exact Or.inl (hsh.reclaimed.portal.trans hp)
  · refine Or.inr ⟨hsh.reclaimed.portal.trans hp, ?_⟩
    rw [← he]
    exact reclaimLoop_leavesAlone _ _ _ (by rw [he]; exact ⟨rfl, hz⟩)

theorem Shape.seal_rung (h : Shape r) (hf : r.current.state = .filling) (hn : 0 < r.current.count)
    (hz : r.current.status = 0) : Rung r r.sealAndSubmitCurrent := by
  rcases sealAndSubmitCurrent_cases r with ⟨_, hno⟩ | ⟨_, _, he | he⟩
  · rcases hno with hno | hno
    · exact absurd hf hno
    · omega
  · rw [he]; exact sealCurrent_rung
  · rw [he]; exact sealCurrent_rung.reclaim hz (h.sealCurrent hf)

/-- What a step does to the portal: nothing, or it seals the entry at `batch_fill_`. -/
def Seals (r r' : FixedRingSubmitter D) : Prop :=
  r'.direct.portal = r.direct.portal ∨ r.current.state ≠ .inFlight ∧
    ∃ q, q.batchFill = r.batchFill ∧ q.direct.portal = r.direct.portal ∧ q.current.status = 0 ∧
      Rung q r'

theorem Shape.sealPartial_seals (h : Shape r) (hb : Blank r) : Seals r r.sealPartial := by
  unfold FixedRingSubmitter.sealPartial
  split
  · rename_i hc
    exact Or.inr ⟨by rw [hc.1]; decide, r, rfl, rfl, hb hc.1, h.seal_rung hc.1 hc.2 (hb hc.1)⟩
  · exact Or.inl rfl

theorem Seals.reclaim (h : Seals r r') (hsh : Shape r') : Seals r r'.reclaimCompleted := by
  rcases h with hp | ⟨hc, q, h1, h2, hz, hr⟩
  · exact Or.inl (hsh.reclaimed.portal.trans hp)
  · exact Or.inr ⟨hc, q, h1, h2, hz, hr.reclaim hz hsh⟩

theorem Shape.append_seals (h : Shape r) (hb : Blank r) (hs : Settled n r) (hn : 0 < n)
    (hlt : n < 2 ^ 32) (hc : r.current.state ≠ .inFlight) (d : D) : Seals r (r.append n d) := by
  obtain ⟨hbs, hf⟩ := h.beginBatch hc
  have hcur := store_current r.beginBatch d (by have := hs.beginBatch_count hn hf; omega)
  have hfilling : (r.beginBatch.store d).current.state = .filling := by rw [hcur]; exact hf
  have hz := hb.beginBatch.store d hfilling
  unfold FixedRingSubmitter.append
  split
  · refine Or.inr ⟨hc, r.beginBatch.store d, beginBatch_batchFill, beginBatch_store_portal d, hz,
      (hbs.store hf d).seal_rung hfilling ?_ hz⟩
    rw [hcur]; exact Nat.succ_pos _
  · exact Or.inl (beginBatch_store_portal d)

/-! ### The sequence -/

/-- The descriptors that were rung and the ones that are staged. -/
def stored (r : FixedRingSubmitter D) : List D := r.direct.portal.flatMap Doorbell.descs ++ r.contents

theorem Shape.reclaim_stored (h : Shape r) : r.reclaimCompleted.stored = r.stored := by
  have hr := h.reclaimed
  have hcur : r.current.state = .filling → r.reclaimCompleted.current = r.current := by
    intro hf
    rcases hr.entry (batchIndex r.batchFill) with he | ⟨hin, _⟩
    · rw [current, hr.batchFill, he, current]
    · rw [current, hin] at hf; cases hf
  rw [stored, stored, hr.portal]
  by_cases hf : r.current.state = .filling
  · rw [contents, contents, hcur hf]
  · rw [contents_of_not_filling hf, contents_of_not_filling fun hf' => hf ?_]
    rwa [hr.current_filling hf'] at hf'

theorem Shape.seal_stored (h : Shape r) : r.sealAndSubmitCurrent.stored = r.stored := by
  have hseal : r.current.state = .filling → r.sealCurrent.stored = r.stored := by
    intro hf
    rw [stored, contents_of_not_filling (h.sealCurrent_not_filling _), List.append_nil,
      sealCurrent_portal, List.flatMap_append, stored, contents, if_pos hf]
    split
    · rename_i h1
      simp [Doorbell.descs, FixedEntry.list, h1]
    · simp [Doorbell.descs]
  rcases sealAndSubmitCurrent_cases r with ⟨he, _⟩ | ⟨hf, _, he | he⟩
  · rw [he]
  · rw [he, hseal hf]
  · rw [he, (h.sealCurrent hf).reclaim_stored, hseal hf]

theorem Shape.sealPartial_stored (h : Shape r) : r.sealPartial.stored = r.stored := by
  unfold FixedRingSubmitter.sealPartial
  split
  · exact h.seal_stored
  · rfl

theorem Shape.append_stored (h : Shape r) (hs : Settled n r) (hn : 0 < n) (hlt : n < 2 ^ 32)
    (hc : r.current.state ≠ .inFlight) (d : D) : (r.append n d).stored = r.stored ++ [d] := by
  obtain ⟨hb, hf⟩ := h.beginBatch hc
  have hstore : (r.beginBatch.store d).stored = r.stored ++ [d] := by
    rw [stored, beginBatch_store_portal, h.store_contents hs hn hlt hc, stored, List.append_assoc]
  unfold FixedRingSubmitter.append
  split
  · rw [(hb.store hf d).seal_stored, hstore]
  · exact hstore

theorem setStatus_stored (i : Nat) (x : UInt8) :
    (r.setStatus i x).stored = r.stored := by
  obtain ⟨x', he⟩ := setStatus_entry (r := r) i x (batchIndex r.batchFill)
  have hcur : (r.setStatus i x).current = { r.current with status := x' } := he
  rw [stored, contents, hcur]
  rfl

end FixedRingSubmitter

namespace FixedSystem

open FixedRingSubmitter
open RingSubmitter (batchIndex batchIndex_lt)

variable {n : Nat} {s s' : FixedSystem D} {a : FixedAction D}

def Lent (s : FixedSystem D) (i n r : Nat) : Prop :=
  i = r ∧ r < kDefaultNumBatches ∧ (s.ring.batches r).Unanswered ∧ (s.ring.batches r).count = n

structure Ready (n : Nat) (s : FixedSystem D) : Prop where
  formed : Formed n s
  blank : Blank s.ring

theorem ready_init [Inhabited D] (args : InitArgs) : Ready args.maxBatch (init args : FixedSystem D) :=
  ⟨formed_init args, fun hf => by cases hf⟩

theorem Ready.effect (h : Ready n s) (hn : 0 < n) (hlt : n < 2 ^ 32) (he : Effect n s s') :
    Ready n s' := by
  refine ⟨h.formed.effect hn hlt he, ?_⟩
  obtain ⟨⟨hsh, hse, _⟩, hb⟩ := h
  cases he with
  | E_Idle hr _ => rw [hr]; exact hb
  | E_Reclaim => exact hb.of_reclaimed hsh.reclaimed
  | E_PrePoll _ =>
      refine Blank.of_reclaimed (fun hf => ?_) hsh.sealPartial.reclaimed
      exact absurd hf (hsh.sealPartial_not_filling hse)
  | E_Drain => exact fun hf => absurd hf (hsh.sealPartial_not_filling hse)
  | E_Append _ hc => exact hb.append hsh hse hn hlt hc _
  | @E_Complete i status hin =>
      intro hf
      have hne : batchIndex s.ring.batchFill ≠ i := by
        rintro rfl
        rw [FixedRingSubmitter.current, setStatus_state] at hf
        exact absurd (hin.symm.trans hf) (by decide)
      have hcur : (s.ring.setStatus i status).current = s.ring.current :=
        Function.update_of_ne hne _ _
      rw [hcur] at hf ⊢
      exact hb hf

/-- What a step does to the ring, if it is not one of the device. -/
inductive CallEffect (n : Nat) (r : FixedRingSubmitter D) : FixedRingSubmitter D → Prop where
  | E_Same : CallEffect n r r
  | E_Reclaim : CallEffect n r r.reclaimCompleted
  | E_PrePoll : CallEffect n r r.prePoll
  | E_Drain : CallEffect n r r.sealPartial
  | E_Append {d} (hc : r.current.state ≠ .inFlight) : CallEffect n r (r.append n d)

theorem call_effect (hst : step n s a = some s') (ha : ∀ i x, a ≠ .complete i x) :
    CallEffect n s.ring s'.ring := by
  cases a with
  | submit d =>
      simp only [step] at hst
      split at hst <;> cases hst
      exact .E_Same
  | prePoll =>
      simp only [step] at hst
      split at hst <;> cases hst
      exact .E_PrePoll
  | drain =>
      simp only [step] at hst
      split at hst <;> cases hst
      exact .E_Drain
  | advance =>
      simp only [step, FixedSystem.advance] at hst
      split at hst
      · split at hst <;> cases hst
        · exact .E_Reclaim
        · rename_i hc
          exact .E_Append hc
      · split at hst
        · cases hst; exact .E_Same
        · split at hst <;> cases hst
          · exact .E_Reclaim
          · exact .E_Same
      · cases hst
  | complete i x => exact absurd rfl (ha i x)

theorem Ready.leavesAlone (h : Ready n s) (he : CallEffect n s.ring s'.ring) :
    LeavesAlone FixedEntry.Unanswered s.ring.batches s'.ring.batches := by
  generalize s'.ring = r' at he
  cases he with
  | E_Same => exact .refl _
  | E_Reclaim => exact reclaimLoop_leavesAlone _ _
  | E_PrePoll => exact (sealPartial_leavesAlone _).trans (reclaimLoop_leavesAlone _ _)
  | E_Drain => exact sealPartial_leavesAlone _
  | E_Append hc => exact h.formed.shape.append_leavesAlone hc _

theorem Ready.seals (h : Ready n s) (hn : 0 < n) (hlt : n < 2 ^ 32)
    (he : CallEffect n s.ring s'.ring) : Seals s.ring s'.ring := by
  obtain ⟨⟨hsh, hse, _⟩, hb⟩ := h
  generalize s'.ring = r' at he
  cases he with
  | E_Same => exact Or.inl rfl
  | E_Reclaim => exact Or.inl hsh.reclaimed.portal
  | E_PrePoll => exact (hsh.sealPartial_seals hb).reclaim hsh.sealPartial
  | E_Drain => exact hsh.sealPartial_seals hb
  | E_Append hc => exact hsh.append_seals hb hse hn hlt hc _

theorem Lent.leavesAlone
    (hl : LeavesAlone FixedEntry.Unanswered s.ring.batches s'.ring.batches) {i m r : Nat} (h : Lent s i m r) :
    Lent s' i m r ∧ (s'.ring.batches i).descs = (s.ring.batches i).descs := by
  obtain ⟨rfl, hlt, hu, hcount⟩ := h
  have he := hl i hu
  refine ⟨⟨rfl, hlt, ?_, ?_⟩, by rw [he]⟩
  · rw [he]; exact hu
  · rw [he]; exact hcount

variable [Inhabited D] {args : InitArgs}

theorem port_complete (h : (port args : Port (FixedSystem D) _ D _ _).isComplete a = false) (i : Nat)
    (x : UInt8) : a ≠ .complete i x := by
  rintro rfl
  cases h

theorem Ready.rings (h : Ready args.maxBatch s) (he : CallEffect args.maxBatch s.ring s'.ring) :
    (port args).Rings Lent s s' := by
  rcases h.seals args.maxBatch_pos args.maxBatch_lt he with hp | ⟨hc, q, hfill, hq, hz, hp | ⟨hp, hent⟩⟩
  · exact .silent hp
  · exact .single _ (hp.trans (by rw [hq]; rfl))
  · rw [hfill] at hent
    refine .batch q.current.count (hp.trans ?_) ⟨rfl, batchIndex_lt _, ?_, ?_⟩ fun b m hl => ?_
    · rw [hq]
      simp only [port, hent]
      rfl
    · simp only [port, hent]
      exact ⟨rfl, hz⟩
    · simp only [port, hent]
    · exact hc hl.2.2.1.1

theorem careful (args : InitArgs) :
    (port args : Port (FixedSystem D) _ D _ _).Careful (fun _ _ => True) (Ready args.maxBatch)
      Lent where
  init := ready_init args
  portal_init := rfl
  step hi _ hst := hi.effect args.maxBatch_pos args.maxBatch_lt (step_effect hst)
  answer := by
    rintro s b n r x _ ⟨_, hlt, ⟨hin, hz⟩, _⟩ hx
    refine ⟨trivial, ?_⟩
    simp [port, machine, FixedSystem.step, hlt, hin, hz, hx]
  rings hi _ hn hst := hi.rings (call_effect hst (port_complete hn))
  kept hi _ hn hst _ _ _ hl := (hl.leavesAlone (hi.leavesAlone (call_effect hst (port_complete hn)))).1
  other := by
    rintro s a n r b m q x _ ⟨rfl, hlt, hu, hcount⟩ hne
    have he : (s.ring.setStatus r x).batches b = s.ring.batches b :=
      Function.update_of_ne (Ne.symm hne) _ _
    refine ⟨rfl, hlt, ?_, ?_⟩
    · simp only [port, he]; exact hu
    · simp only [port, he]; exact hcount
  setStatus_portal := rfl
  clear := by rintro s b n r ⟨_, _, hu, _⟩; exact hu.2
  entry hi _ hn hst b m r hl k _ :=
    congrFun (hl.leavesAlone (hi.leavesAlone (call_effect hst (port_complete hn)))).2 k
  setStatus_entry := by
    intro s r x b k
    obtain ⟨_, he⟩ := setStatus_entry (r := s.ring) r x b
    simp only [port, he]

theorem sent_eq (s : FixedSystem D) :
    (port args).sent s = s.ring.stored ++ (port args : Port (FixedSystem D) _ D _ _).pending s := rfl

theorem ordered (args : InitArgs) :
    (port args : Port (FixedSystem D) _ D _ _).Ordered (fun _ _ => True) (Ready args.maxBatch) where
  init := rfl
  step := by
    intro s a s' hi _ hst
    obtain ⟨⟨hsh, hse, _⟩, _⟩ := hi
    rw [sent_eq, sent_eq]
    cases a with
    | submit d =>
        simp only [port, machine, step] at hst
        split at hst <;> cases hst
        rename_i hc
        simp [port, FixedAction.desc?, Option.isNone_iff_eq_none.mp hc]
    | prePoll =>
        simp only [port, machine, step] at hst
        split at hst <;> cases hst
        simp only [FixedRingSubmitter.prePoll]
        rw [hsh.sealPartial.reclaim_stored, hsh.sealPartial_stored]
        exact (List.append_nil _).symm
    | drain =>
        simp only [port, machine, step] at hst
        split at hst <;> cases hst
        rename_i hc
        simp [port, FixedAction.desc?, Option.isNone_iff_eq_none.mp hc, hsh.sealPartial_stored]
    | advance =>
        simp only [port, machine, step, FixedSystem.advance] at hst
        split at hst
        · rename_i d hw
          split at hst <;> cases hst
          · simp [port, FixedAction.desc?, hsh.reclaim_stored]
          · rename_i hc
            simp [port, FixedAction.desc?, hw,
              hsh.append_stored hse args.maxBatch_pos args.maxBatch_lt hc]
        · rename_i i hw
          split at hst
          · cases hst; simp [port, FixedAction.desc?, hw]
          · split at hst <;> cases hst
            · simp [port, FixedAction.desc?, hsh.reclaim_stored]
            · simp [port, FixedAction.desc?, hw]
        · cases hst
    | complete i x =>
        simp only [port, machine, step] at hst
        split at hst <;> cases hst
        simp only [setStatus_stored]
        exact (List.append_nil _).symm
  complete _ _ := rfl

end FixedSystem

end DsaStdexec.Submitter

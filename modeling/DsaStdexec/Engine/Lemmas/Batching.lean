import DsaStdexec.Engine.Batching
import DsaStdexec.Submitter.Lemmas.Draining

/-!
# The doorbells in the work queue

Where no doorbell is for a single descriptor, the doorbells in the work queue are among the batches that
the submitter has marked.
-/

namespace DsaStdexec.Engine

open DsaStdexec.Lib DsaStdexec.Submitter

variable {σ α D A R : Type*}

/-! ## The engine and its submitter -/

namespace BatchingEngine

variable {P : Driven σ α D A R} {s s' : BatchingEngine σ D} {a : EngineAction D R}
  {C : σ → α → Prop} {I : σ → Prop} {Lent : σ → A → Nat → R → Prop}

/-- A condition on what the engine calls. -/
def OnCalls (P : Driven σ α D A R) (C : σ → α → Prop) (s : BatchingEngine σ D) (a : EngineAction D R) :
    Prop :=
  match s.calls P a with
  | some b => C s.sub b
  | none => True

instance [∀ s b, Decidable (C s b)] : Decidable (OnCalls P C s a) :=
  match h : s.calls P a with
  | some b => decidable_of_iff (C s.sub b) (by simp only [OnCalls, h])
  | none => isTrue (by simp only [OnCalls, h])

theorem OnCalls.call (h : OnCalls P C s a) {b : α} (hb : s.calls P a = some b) : C s.sub b := by
  simpa only [OnCalls, hb] using h

/-- `submit_descriptor` is called through an open gate only. -/
theorem calls_cases {b : α} (hb : s.calls P a = some b) :
    b = P.prePoll ∨ b = P.advance ∨ P.pollReturn = some b ∨ (∃ r x, b = P.complete r x) ∨
      s.gateClosed P = false ∧ ∃ d, b = P.submitDescriptor d := by
  cases a with
  | submit d => cases hb
  | poll => cases hb; exact Or.inl rfl
  | advance =>
      simp only [calls] at hb
      split at hb
      · split at hb <;> cases hb
        · exact Or.inl rfl
        · rename_i hg
          exact Or.inr (Or.inr (Or.inr (Or.inr ⟨by simpa using hg, _, rfl⟩)))
      · cases hb; exact Or.inr (Or.inl rfl)
      · cases hb
  | pollReturn =>
      simp only [calls] at hb
      split at hb
      · exact Or.inr (Or.inr (Or.inl hb))
      · cases hb
  | complete r x => cases hb; exact Or.inr (Or.inr (Or.inr (Or.inl ⟨r, x, rfl⟩)))

theorem step_sub (h : step P s a = some s') :
    s'.sub = s.sub ∨ ∃ b, s.calls P a = some b ∧ P.machine.step s.sub b = some s'.sub := by
  unfold step at h
  split at h
  · obtain ⟨stack, _, rfl⟩ := Option.map_eq_some_iff.mp h
    exact Or.inl rfl
  · rename_i b hb
    obtain ⟨t, ht, h⟩ := Option.bind_eq_some_iff.mp h
    obtain ⟨stack, _, rfl⟩ := Option.map_eq_some_iff.mp h
    exact Or.inr ⟨b, hb, ht⟩

theorem calls_isComplete (ha : (port P).isComplete a = false) {b : α} (hb : s.calls P a = some b) :
    P.isComplete b = false := by
  cases a with
  | submit d => cases hb
  | poll => cases hb; exact P.isComplete_prePoll
  | advance =>
      simp only [calls] at hb
      split at hb
      · split at hb <;> cases hb
        · exact P.isComplete_prePoll
        · exact P.isComplete_submitDescriptor _
      · cases hb; exact P.isComplete_advance
      · cases hb
  | pollReturn =>
      simp only [calls] at hb
      split at hb
      · exact P.isComplete_pollReturn b hb
      · cases hb
  | complete r x => cases ha

/-- `C` is what the submitter needs, of which the gate of the engine gives a part; `B` is the rest. -/
theorem lawful {B : σ → α → Prop} (h : P.toPort.Lawful C I Lent)
    (hC : ∀ {s : BatchingEngine σ D} {a b}, I s.sub → B s.sub b → s.calls P a = some b → C s.sub b)
    (hcomplete : ∀ s r x, B s (P.complete r x)) :
    (port P).Lawful (OnCalls P B) (fun s => I s.sub) fun s => Lent s.sub where
  init := h.init
  portal_init := h.portal_init
  step hi hc hst := by
    rcases step_sub hst with he | ⟨b, hb, hsub⟩
    · rw [he]; exact hi
    · exact h.step hi (hC hi (hc.call hb) hb) hsub
  answer := by
    intro s a n r x hi hl hx
    obtain ⟨_, hst⟩ := h.answer hi hl hx
    refine ⟨hcomplete _ _ _, ?_⟩
    simp [port, machine, BatchingEngine.step, calls, hst, resume]
  rings := by
    intro s a s' hi hc hn hst
    rcases step_sub hst with he | ⟨b, hb, hsub⟩
    · exact .silent (by simp only [port, he])
    · cases h.rings hi (hC hi (hc.call hb) hb) (calls_isComplete hn hb) hsub with
      | silent hp => exact .silent hp
      | single d hp => exact .single d hp
      | batch n hp hlent hfresh => exact .batch n hp hlent hfresh
  kept hi hc hn hst b n r hl := by
    rcases step_sub hst with he | ⟨c, hb, hsub⟩
    · rw [he]; exact hl
    · exact h.kept hi (hC hi (hc.call hb) hb) (calls_isComplete hn hb) hsub b n r hl
  other hl hl' hne := h.other hl hl' hne
  setStatus_portal := h.setStatus_portal
  clear hl := h.clear hl

end BatchingEngine

/-! ## Counting doorbells -/

/-- Batches that are apart have different records. -/
theorem length_le_card [DecidableEq R] {ws : List (Work D A R)} (hs : ∀ x ∈ ws, ∀ d, x ≠ .single d)
    (hap : ws.Pairwise Work.Apart) {marks : Finset R} (hm : ∀ b n r, .batch b n r ∈ ws → r ∈ marks) :
    ws.length ≤ marks.card := by
  induction ws generalizing marks with
  | nil => exact Nat.zero_le _
  | cons x ws ih =>
      obtain ⟨hx, hws⟩ := List.pairwise_cons.mp hap
      cases x with
      | single d => exact absurd rfl (hs _ List.mem_cons_self d)
      | batch b n r =>
          have hr := hm b n r List.mem_cons_self
          have hle : ws.length ≤ (marks.erase r).card :=
            ih (fun y hy => hs y (List.mem_cons_of_mem _ hy)) hws fun c m q hq =>
              Finset.mem_erase.mpr
                ⟨fun he => hx _ hq he.symm, hm c m q (List.mem_cons_of_mem _ hq)⟩
          rw [List.length_cons, ← Finset.card_erase_add_one hr]
          exact Nat.succ_le_succ hle

namespace WorkQueue

variable {P : Port σ α D A R} {q q' : WorkQueue P} {a : QueueAction α} {C : σ → α → Prop}
  {I : σ → Prop} {Lent : σ → A → Nat → R → Prop}

/-- A condition on the steps of the engine. -/
def OnOwn (C : σ → α → Prop) (q : WorkQueue P) : QueueAction α → Prop
  | .act (.own b) => C q.world.sys b
  | _ => True

instance [∀ s b, Decidable (C s b)] : Decidable (OnOwn C q a) :=
  match a with
  | .act (.own b) => inferInstanceAs (Decidable (C q.world.sys b))
  | .act (.look _ _) | .act (.giveBack _ _) | .remove => isTrue trivial

/-- No step of the submitter rings a doorbell for a single descriptor. -/
def Multiple (P : Port σ α D A R) (C : σ → α → Prop) (I : σ → Prop) : Prop :=
  ∀ s a s', I s → C s a → P.isComplete a = false → P.machine.step s a = some s' →
    ∀ d, P.portal s' ≠ P.portal s ++ [.single d]

/-- The doorbells in the work queue were not answered. -/
structure Filled (I : σ → Prop) (Lent : σ → A → Nat → R → Prop) (q : WorkQueue P) : Prop where
  tracked : Lender.Tracked I (Port.LentWork Lent) Work.Apart q.world
  singles : ∀ l ∈ q.world.loans, ∀ d, l.item ≠ .single d
  removed : q.removed ≤ q.world.loans.length
  unanswered : ∀ j l, q.removed ≤ j → q.world.loans[j]? = some l → l.returned = false

theorem filled_init (h : P.Lawful C I Lent) : Filled I Lent (machine P).init where
  tracked := h.tracks.tracked_init
  singles := nofun
  removed := Nat.le_refl _
  unanswered j l _ hl := by cases hl

theorem opens_multiple (h : P.Lawful C I Lent) (hm : Multiple P C I) {s s' : σ} {a : α} (hi : I s)
    (hc : C s a) (hn : P.isComplete a = false) (hst : P.machine.step s a = some s') :
    ∀ x ∈ P.lender.opens s s', ∀ d, x ≠ .single d := by
  cases h.rings hi hc hn hst with
  | silent hp => rw [Port.opens_of_portal_eq hp]; nofun
  | single d hp => exact absurd hp (hm s a s' hi hc hn hst d)
  | batch n hp _ _ =>
      intro x hx d hd
      simp only [Port.lender, hp, List.drop_left, List.map_cons, List.map_nil, List.mem_singleton]
        at hx
      rw [hd] at hx
      cases hx

theorem Filled.effect (h : P.Lawful C I Lent) (hm : Multiple P C I) (hq : Filled I Lent q)
    {a : MarketAction α Nat Answer} {w : P.State} (hc : Lender.OnOwn C q.world a)
    (hp : q.permits a = true) (he : P.lender.Effect q.world a w) :
    Filled I Lent { q with world := w } := by
  have ht := hq.tracked.effect h.tracks hc he
  cases he with
  | E_Own hcall =>
      obtain ⟨hn, hcall⟩ := Port.calls_step hcall
      have hopen := opens_multiple h hm hq.tracked.inv (hc _ rfl) hn hcall
      refine ⟨ht, ?_, ?_, ?_⟩
      · intro l hl d
        rcases List.mem_append.mp hl with hl | hl
        · exact hq.singles l hl d
        · obtain ⟨x, hx, rfl⟩ := List.mem_map.mp hl
          exact hopen x hx d
      · exact Nat.le_trans hq.removed (by simp only [List.length_append]; omega)
      · intro j l hj hl
        rcases Nat.lt_or_ge j q.world.loans.length with hlt | hge
        · rw [List.getElem?_append_left hlt] at hl
          exact hq.unanswered j l hj hl
        · rw [List.getElem?_append_right hge] at hl
          obtain ⟨x, _, rfl⟩ := List.mem_map.mp (List.mem_of_getElem? hl)
          rfl
  | @E_Look i k m hi hr hk =>
      refine ⟨ht, ?_, ?_, ?_⟩
      · intro l hl d
        rcases List.mem_or_eq_of_mem_set hl with hl | rfl
        · exact hq.singles l hl d
        · exact hq.singles m (List.mem_of_getElem? hi) d
      · exact Nat.le_trans hq.removed (by simp only [List.length_set]; omega)
      · intro j l hj hl
        by_cases hij : i = j
        · subst hij
          rw [List.getElem?_set_self (List.getElem?_eq_some_iff.mp hi).1] at hl
          cases hl
          exact hr
        · rw [List.getElem?_set_ne hij] at hl
          exact hq.unanswered j l hj hl
  | @E_GiveBack i x m hi hr =>
      refine ⟨ht, ?_, ?_, ?_⟩
      · intro l hl d
        rcases List.mem_or_eq_of_mem_set hl with hl | rfl
        · exact hq.singles l hl d
        · exact hq.singles m (List.mem_of_getElem? hi) d
      · exact Nat.le_trans hq.removed (by simp only [List.length_set]; omega)
      · -- The device answers only what it has removed.
        intro j l hj hl
        have hlt : i < q.removed := of_decide_eq_true hp
        rw [List.getElem?_set_ne (Nat.ne_of_lt (Nat.lt_of_lt_of_le hlt hj))] at hl
        exact hq.unanswered j l hj hl

theorem Filled.step (h : P.Lawful C I Lent) (hm : Multiple P C I) (hq : Filled I Lent q)
    (hc : OnOwn C q a) (hst : WorkQueue.step q a = some q') : Filled I Lent q' := by
  cases a with
  | remove =>
      simp only [WorkQueue.step] at hst
      split at hst <;> cases hst
      rename_i hlt
      exact ⟨hq.tracked, hq.singles, hlt, fun j l hj => hq.unanswered j l (Nat.le_of_succ_le hj)⟩
  | act a =>
      simp only [WorkQueue.step] at hst
      split at hst
      · rename_i hp
        obtain ⟨w, hw, rfl⟩ := Option.map_eq_some_iff.mp hst
        refine hq.effect h hm (fun b hb => ?_) hp (Port.system_effect hw)
        cases a <;> cases hb
        exact hc
      · cases hst

theorem filled_of_run (h : P.Lawful C I Lent) (hm : Multiple P C I) {as : List (QueueAction α)}
    (hc : (machine P).Meets (OnOwn C) (machine P).init as) (hrun : (machine P).run as = some q) :
    Filled I Lent q :=
  Machine.runFrom_invariant (fun _ _ _ hq hc hst => hq.step h hm hc hst) (filled_init h) hc hrun

/-- The work queue holds no more doorbells than the submitter has marked batches. -/
theorem Filled.occupancy_le [DecidableEq R] (hq : Filled I Lent q) {marks : Finset R}
    (hm : ∀ b n r, Lent q.world.sys b n r → r ∈ marks) : q.occupancy ≤ marks.card := by
  have hout : ∀ l ∈ q.world.loans.drop q.removed, l ∈ q.world.loans ∧ l.returned = false := by
    intro l hl
    obtain ⟨i, hi⟩ := List.mem_iff_getElem?.mp hl
    rw [List.getElem?_drop] at hi
    exact ⟨List.mem_of_getElem? hi, hq.unanswered _ l (Nat.le_add_right _ _) hi⟩
  have hcard : ((q.world.loans.drop q.removed).map (·.item)).length ≤ marks.card := by
    refine length_le_card (fun x hx d => ?_) ?_ fun b n r hx => ?_
    · obtain ⟨l, hl, rfl⟩ := List.mem_map.mp hx
      exact hq.singles l (hout l hl).1 d
    · refine List.pairwise_map.mpr ?_
      exact (hq.tracked.apart.sublist (List.drop_sublist _ _)).imp_of_mem fun hl hl' hap =>
        hap (hout _ hl).2 (hout _ hl').2
    · obtain ⟨l, hl, he⟩ := List.mem_map.mp hx
      have hlent := hq.tracked.lent l (hout l hl).1 (hout l hl).2
      rw [he] at hlent
      exact hm b n r hlent
  rw [List.length_map, List.length_drop] at hcard
  exact hcard

end WorkQueue

end DsaStdexec.Engine

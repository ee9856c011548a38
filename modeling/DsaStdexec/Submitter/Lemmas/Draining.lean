import DsaStdexec.Submitter.Lemmas.RingLending

/-!
# `drain` and the device

`drain` of the ring submitters looks at the marks one after the other. Nothing is rung while it waits, so
an entry that it has passed stays out of flight.
-/

namespace DsaStdexec.Submitter

open DsaStdexec.Lib

variable {D : Type*}

namespace Port

variable {σ α A R : Type*} {P : Port σ α D A R} {C : σ → α → Prop} {I : σ → Prop}
  {Lent : σ → A → Nat → R → Prop} {w w' : P.State} {a : MarketAction α Nat Answer}

/-- The device has answered every single descriptor. -/
def NoSingles (P : Port σ α D A R) (w : P.State) : Prop :=
  ∀ l ∈ w.loans, l.returned = false → ∀ d, l.item ≠ .single d

/-- Nothing is staged, and the device has answered every doorbell. -/
structure Drained (P : Port σ α D A R) (w : P.State) : Prop where
  staged : P.staged w.sys = []
  answered : ∀ l ∈ w.loans, l.returned = true

/-- What the caller and the device do until a call returns. -/
def Waits (advance : α) (ws : List (MarketAction α Nat Answer)) : Prop :=
  ∀ a ∈ ws, ∀ b, a.own? = some b → b = advance

theorem system_effect (h : P.system.step w a = some w') : P.lender.Effect w a w' :=
  Lender.step_effect h

theorem NoSingles.effect (h : P.NoSingles w) (he : P.lender.Effect w a w')
    (hopen : ∀ b, a = .own b → ∀ x ∈ P.lender.opens w.sys w'.sys, ∀ d, x ≠ .single d) :
    P.NoSingles w' := by
  cases he with
  | E_Own _ =>
      intro l hl hr d
      rcases List.mem_append.mp hl with hl | hl
      · exact h l hl hr d
      · obtain ⟨x, hx, rfl⟩ := List.mem_map.mp hl
        exact hopen _ rfl x hx d
  | E_Look hl hr _ =>
      intro l hl' hr' d
      rcases List.mem_or_eq_of_mem_set hl' with hl' | rfl
      · exact h l hl' hr' d
      · exact h _ (List.mem_of_getElem? hl) hr d
  | E_GiveBack _ _ =>
      intro l hl' hr' d
      rcases List.mem_or_eq_of_mem_set hl' with hl' | rfl
      · exact h l hl' hr' d
      · cases hr'

theorem opens_of_portal_eq {s s' : σ} (h : P.portal s' = P.portal s) : P.lender.opens s s' = [] := by
  simp [lender, h]

/-- What holds while a call waits holds until it returns, if the wait and the marks of the device keep it
and the wait rings nothing. -/
theorem NoSingles.waits {Q : σ → Prop} (h : P.NoSingles w) (advance : α) (hq : Q w.sys)
    (hadvance : ∀ {s'}, P.machine.step w.sys advance = some s' → Q s' ∧ P.portal s' = P.portal w.sys)
    (hset : ∀ r x, Q (P.setStatus w.sys r x)) (ha : ∀ b, a.own? = some b → b = advance)
    (he : P.lender.Effect w a w') : Q w'.sys ∧ P.NoSingles w' := by
  constructor
  · cases he with
    | E_Own hst =>
        obtain rfl := ha _ rfl
        exact (hadvance (calls_step hst).2).1
    | E_Look _ _ _ => exact hq
    | @E_GiveBack j answer l hl hr =>
        cases hitem : l.item with
        | single d => exact hq
        | batch b n r => exact hset r answer.1
  · refine h.effect he fun b hb x hx => ?_
    subst hb
    obtain rfl := ha b rfl
    cases he with
    | E_Own hst =>
        rw [opens_of_portal_eq (hadvance (calls_step hst).2).2] at hx
        cases hx

/-- A call that rings a single descriptor only for a batch of one rings none if not one is staged. -/
theorem NoSingles.rings {b : α} (h : P.NoSingles w) (hone : (P.staged w.sys).length ≠ 1)
    (hring : ∀ {s'}, P.machine.step w.sys b = some s' → P.portal s' = P.portal w.sys ∨
      ∃ x, P.portal s' = P.portal w.sys ++ [x] ∧ ∀ d, x = .single d → (P.staged w.sys).length = 1)
    (he : P.lender.Effect w (.own b) w') : P.NoSingles w' := by
  refine h.effect he fun _ _ x hx d hd => hone ?_
  cases he with
  | E_Own hst =>
      rcases hring (calls_step hst).2 with hp | ⟨y, hp, hy⟩
      · rw [opens_of_portal_eq hp] at hx
        cases hx
      · simp only [lender, hp, List.drop_left, List.map_cons, List.map_nil, List.mem_singleton] at hx
        cases y with
        | single d' => exact hy d' rfl
        | batch m l =>
            rw [hx] at hd
            cases hd

/-- Once no batch is marked, only single descriptors can be outstanding. -/
theorem drained_of_unmarked (ht : Lender.Tracked I (LentWork Lent) Work.Apart w)
    (hno : ∀ b n r, ¬ Lent w.sys b n r) (hs : P.NoSingles w) (hst : P.staged w.sys = []) :
    P.Drained w := by
  refine ⟨hst, fun l hl => ?_⟩
  by_contra hr
  rw [Bool.not_eq_true] at hr
  have hlent := ht.lent l hl hr
  cases hitem : l.item with
  | single d => exact hs l hl hr d hitem
  | batch b n r =>
      rw [hitem] at hlent
      exact hno b n r hlent

end Port

/-! ## `StagingSubmitter` -/

namespace StagingSystem

variable [Inhabited D] {args : InitArgs} {w w' : (port args : Port _ _ D _ _).State}

/-- With nothing to do, `drain` does nothing. -/
theorem drained_of_drain (hd : (port args).Drained w) (hf : w.sys.flushing = false)
    {ws : List (MarketAction (StagingAction D) Nat Answer)} (hws : Port.Waits .advance ws)
    (hr : (port args).system.runFrom w (.own .drain :: ws) = some w') : (port args).Drained w' := by
  have hz : w.sys.sub.stagedCount = 0 := by
    have := congrArg List.length hd.staged
    simpa [port, StagingSubmitter.list] using this
  have hidle : w.sys.flush = w.sys := by
    rw [flush, hz, decide_eq_false (by simp), ← hf]
  obtain ⟨w1, hst, hrest⟩ := Machine.runFrom_cons hr
  have hw1 : w1 = w := by
    have he := Port.system_effect hst
    cases he with
    | E_Own hown =>
        have hs := (Port.calls_step hown).2
        simp only [port, machine, step, hf, Bool.false_eq_true, ↓reduceIte, hidle,
          Option.some.injEq] at hs
        subst hs
        rw [Port.opens_of_portal_eq rfl, List.map_nil, List.append_nil]
  subst hw1
  -- neither the call nor the device has anything left to do
  have hstay : ∀ a w2, (∀ b, a.own? = some b → b = StagingAction.advance) →
      (port args).system.step w1 a = some w2 → False := by
    intro a w2 ha hst
    have he := Port.system_effect hst
    cases he with
    | E_Own hown =>
        obtain rfl := ha _ rfl
        have hs := (Port.calls_step hown).2
        simp [port, machine, step, hf] at hs
    | E_Look hl hret _ =>
        rw [hd.answered _ (List.mem_of_getElem? hl)] at hret
        cases hret
    | E_GiveBack hl hret =>
        rw [hd.answered _ (List.mem_of_getElem? hl)] at hret
        cases hret
  cases ws with
  | nil => cases hrest; exact hd
  | cons a ws =>
      obtain ⟨w2, hst2, _⟩ := Machine.runFrom_cons hrest
      exact (hstay a w2 (fun b hb => hws a List.mem_cons_self b hb) hst2).elim

end StagingSystem

/-! ## `FixedRingSubmitter` -/

namespace FixedRingSubmitter

variable {r : FixedRingSubmitter D}

/-- Sealing rings one doorbell, and a single descriptor only for a batch of one. -/
theorem Shape.seal_portal (h : Shape r) :
    r.sealAndSubmitCurrent.direct.portal = r.direct.portal ∨
    ∃ b, r.sealAndSubmitCurrent.direct.portal = r.direct.portal ++ [b] ∧
      r.current.state = .filling ∧ ∀ d, b = .single d → r.current.count = 1 := by
  have hseal : r.current.state = .filling → ∃ b, r.sealCurrent.direct.portal =
      r.direct.portal ++ [b] ∧ r.current.state = .filling ∧
        ∀ d, b = .single d → r.current.count = 1 := by
    intro hf
    refine ⟨_, sealCurrent_portal, hf, fun d hd => ?_⟩
    by_contra h1
    rw [if_neg h1] at hd
    cases hd
  rcases sealAndSubmitCurrent_cases r with ⟨he, _⟩ | ⟨hf, _, he | he⟩
  · exact Or.inl (by rw [he])
  · rw [he]; exact Or.inr (hseal hf)
  · rw [he, (h.sealCurrent hf).reclaimed.portal]; exact Or.inr (hseal hf)

theorem Shape.sealPartial_portal (h : Shape r) :
    r.sealPartial.direct.portal = r.direct.portal ∨
    ∃ b, r.sealPartial.direct.portal = r.direct.portal ++ [b] ∧ r.current.state = .filling ∧
      ∀ d, b = .single d → r.current.count = 1 := by
  unfold FixedRingSubmitter.sealPartial
  split
  · exact h.seal_portal
  · exact Or.inl rfl

end FixedRingSubmitter

namespace FixedSystem

open FixedRingSubmitter

variable {n : Nat} {s s' : FixedSystem D}

/-- `drain` has sealed what was staged and has passed the entries before the one it looks at. -/
structure Draining (s : FixedSystem D) : Prop where
  staged : s.ring.current.state ≠ .filling
  passed : ∀ i, s.call = some (.drainWait i) → ∀ j, j < i → (s.ring.batches j).state ≠ .inFlight
  returned : s.call = none → ∀ j, j < kDefaultNumBatches → (s.ring.batches j).state ≠ .inFlight
  waiting : ∀ d, s.call ≠ some (.waitSlot d)

theorem Draining.reclaim (hsh : Shape s.ring) (h : Draining s) :
    Draining { s with ring := s.ring.reclaimCompleted } := by
  have hr := hsh.reclaimed
  have hstill : ∀ j, (s.ring.batches j).state ≠ .inFlight →
      (s.ring.reclaimCompleted.batches j).state ≠ .inFlight := by
    intro j hj
    rcases hr.entry j with he | ⟨hin, _⟩
    · rw [he]; exact hj
    · exact absurd hin hj
  refine ⟨fun hf => h.staged ?_, fun i hi j hj => hstill j (h.passed i hi j hj),
    fun hc j hj => hstill j (h.returned hc j hj), h.waiting⟩
  rwa [hr.current_filling hf] at hf

theorem Draining.advance (hsh : Shape s.ring) (h : Draining s) (hst : step n s .advance = some s') :
    Draining s' ∧ s'.ring.direct.portal = s.ring.direct.portal := by
  simp only [step, FixedSystem.advance] at hst
  split at hst
  · rename_i d hw
    exact absurd hw (h.waiting d)
  · rename_i i hw
    split at hst
    · rename_i hle
      cases hst
      exact ⟨⟨h.staged, by simp, fun _ j hj => h.passed i hw j (by omega), by simp⟩, rfl⟩
    · split at hst <;> cases hst
      · exact ⟨h.reclaim hsh, hsh.reclaimed.portal⟩
      · rename_i hin
        refine ⟨⟨h.staged, fun i' hi' j hj => ?_, by simp, by simp⟩, rfl⟩
        simp only [Option.some.injEq, FixedCall.drainWait.injEq] at hi'
        subst hi'
        by_cases hji : j = i
        · subst hji; exact hin
        · exact h.passed i hw j (by omega)
  · cases hst

theorem Draining.setStatus (h : Draining s) (i : Nat) (x : UInt8) :
    Draining { s with ring := s.ring.setStatus i x } := by
  refine ⟨?_, ?_, ?_, h.waiting⟩
  · rw [FixedRingSubmitter.current, setStatus_state]; exact h.staged
  · intro i hi j hj
    rw [setStatus_state]; exact h.passed i hi j hj
  · intro hc j hj
    rw [setStatus_state]; exact h.returned hc j hj

theorem draining_of_drain (h : Formed n s) (hst : step n s .drain = some s') : Draining s' := by
  simp only [step] at hst
  split at hst <;> cases hst
  refine ⟨h.shape.sealPartial_not_filling h.settled, fun i hi j hj => ?_, by simp, by simp⟩
  cases hi
  omega

variable [Inhabited D] {args : InitArgs} {w w' : (port args : Port _ _ D _ _).State}

/-- The invariant of the wait. -/
structure Settling (args : InitArgs) (w : (port args : Port _ _ D _ _).State) : Prop where
  tracked : Lender.Tracked (Ready args.maxBatch) (Port.LentWork Lent) Work.Apart w
  draining : Draining w.sys
  singles : (port args).NoSingles w

theorem Settling.effect (h : Settling args w) {a : MarketAction (FixedAction D) Nat Answer}
    (ha : ∀ b, a.own? = some b → b = .advance) (he : (port args).lender.Effect w a w') :
    Settling args w' := by
  have hwait := h.singles.waits FixedAction.advance h.draining
    (fun hst => h.draining.advance h.tracked.inv.formed.shape hst) h.draining.setStatus ha he
  exact ⟨h.tracked.effect (careful args).tracks (fun _ _ => trivial) he, hwait.1, hwait.2⟩

theorem settling_of_drain (h : Lender.Tracked (Ready args.maxBatch) (Port.LentWork Lent) Work.Apart w)
    (hs : (port args).NoSingles w) (hone : ((port args).staged w.sys).length ≠ 1)
    (hst : (port args).system.step w (.own .drain) = some w') : Settling args w' := by
  have he := Port.system_effect hst
  refine ⟨h.effect (careful args).tracks (fun _ _ => trivial) he, ?_, ?_⟩
  · cases he with
    | E_Own hown => exact draining_of_drain h.inv.formed (Port.calls_step hown).2
  · refine hs.rings hone (fun {s'} hcall => ?_) he
    simp only [port, machine, step] at hcall
    split at hcall <;> cases hcall
    rcases h.inv.formed.shape.sealPartial_portal with hp | ⟨b, hp, hf, hb⟩
    · exact Or.inl hp
    · exact Or.inr ⟨b, hp, fun d hd => by simp [port, hf, FixedEntry.list, hb d hd]⟩

theorem Settling.drained (h : Settling args w) (hc : w.sys.call = none) : (port args).Drained w := by
  refine Port.drained_of_unmarked h.tracked ?_ h.singles (if_neg h.draining.staged)
  rintro b n r ⟨_, hlt, hu, _⟩
  exact h.draining.returned hc r hlt hu.1

end FixedSystem

/-! ## The ring submitters -/

namespace RingSubmitter

variable {g : Geometry} {r : RingSubmitter D}

/-- Sealing rings one doorbell, and a single descriptor only for a batch of one. -/
theorem Shape.seal_portal (h : Shape g r) :
    (r.sealAndSubmitCurrent g).direct.portal = r.direct.portal ∨
    ∃ b, (r.sealAndSubmitCurrent g).direct.portal = r.direct.portal ++ [b] ∧
      r.current.state = .filling ∧ ∀ d, b = .single d → r.current.count = 1 := by
  have hseal : r.current.state = .filling → ∃ b, (r.sealCurrent g).direct.portal =
      r.direct.portal ++ [b] ∧ r.current.state = .filling ∧
        ∀ d, b = .single d → r.current.count = 1 := by
    intro hf
    refine ⟨_, sealCurrent_portal, hf, fun d hd => ?_⟩
    by_contra h1
    rw [if_neg h1] at hd
    cases hd
  rcases sealAndSubmitCurrent_cases g r with he | ⟨hf, hn, he | he⟩
  · exact Or.inl (by rw [he])
  · rw [he]; exact Or.inr (hseal hf)
  · rw [he, (h.sealCurrent hf hn).reclaim_portal]; exact Or.inr (hseal hf)

theorem Shape.sealPartial_portal (h : Shape g r) :
    (r.sealPartial g).direct.portal = r.direct.portal ∨
    ∃ b, (r.sealPartial g).direct.portal = r.direct.portal ++ [b] ∧ r.current.state = .filling ∧
      ∀ d, b = .single d → r.current.count = 1 := by
  unfold RingSubmitter.sealPartial
  split
  · exact h.seal_portal
  · exact Or.inl rfl

theorem Shape.sealPartial_not_filling (h : Shape g r) (hs : Settled g r) :
    (r.sealPartial g).current.state ≠ .filling := by
  unfold RingSubmitter.sealPartial
  split
  · rename_i hc
    exact h.seal_not_filling hc.1 hc.2
  · rename_i hc
    exact fun hf => hc ⟨hf, (hs hf).1⟩

theorem Shape.reclaim_not_inFlight (h : Shape g r) {j : Nat} (hj : (r.batches j).state ≠ .inFlight) :
    (r.reclaimCompleted.batches j).state ≠ .inFlight := by
  obtain ⟨n, hr⟩ := h.reclaimed
  by_cases hb : ∀ b, r.batchHead ≤ b → b < r.batchHead + n → batchIndex b ≠ j
  · rw [hr.kept j hb]; exact hj
  · -- an entry that is freed is free
    push Not at hb
    obtain ⟨b, h1, h2, rfl⟩ := hb
    have := hr.freed b h1 h2
    rw [entry] at this
    rw [this]
    simp

theorem setStatus_state (i : Nat) (x : UInt8) (j : Nat) :
    ((r.setStatus i x).batches j).state = (r.batches j).state := by
  by_cases hj : j = i
  · subst hj; simp [setStatus]
  · simp [setStatus, hj]

end RingSubmitter

namespace RingSystem

open RingSubmitter

variable {g : Geometry} {s s' : RingSystem D}

/-- `drain` has sealed what was staged and has passed the entries before the one it looks at. -/
structure Draining (s : RingSystem D) : Prop where
  staged : s.ring.current.state ≠ .filling
  stack : s.stack = [] ∧ (∀ j, j < kDefaultNumBatches → (s.ring.batches j).state ≠ .inFlight) ∨
    ∃ i, s.stack = [.drainWait i] ∧ ∀ j, j < i → (s.ring.batches j).state ≠ .inFlight

theorem Draining.advance (hsh : Shape g s.ring) (h : Draining s) (hst : step g s .advance = some s') :
    Draining s' ∧ s'.ring.direct.portal = s.ring.direct.portal := by
  simp only [step, RingSystem.advance] at hst
  rcases h.stack with ⟨hw, _⟩ | ⟨i, hw, hpassed⟩
  · rw [hw] at hst
    cases hst
  · rw [hw] at hst
    simp only at hst
    split at hst
    · rename_i hle
      cases hst
      exact ⟨⟨h.staged, Or.inl ⟨rfl, fun j hj => hpassed j (by omega)⟩⟩, rfl⟩
    · split at hst <;> cases hst
      · refine ⟨⟨hsh.reclaim_not_filling h.staged, Or.inr ⟨i, rfl, fun j hj => ?_⟩⟩, hsh.reclaim_portal⟩
        exact hsh.reclaim_not_inFlight (hpassed j hj)
      · rename_i hin
        refine ⟨⟨h.staged, Or.inr ⟨i + 1, rfl, fun j hj => ?_⟩⟩, rfl⟩
        by_cases hji : j = i
        · subst hji; exact hin
        · exact hpassed j (by omega)

theorem Draining.setStatus (h : Draining s) (i : Nat) (x : UInt8) :
    Draining { s with ring := s.ring.setStatus i x } := by
  refine ⟨by rw [setStatus_current_state]; exact h.staged, ?_⟩
  simpa only [setStatus_state] using h.stack

theorem draining_of_drain (h : Formed g s) (hst : step g s .drain = some s') : Draining s' := by
  simp only [step] at hst
  split at hst <;> cases hst
  exact ⟨h.1.sealPartial_not_filling h.2, Or.inr ⟨0, rfl, fun j hj => absurd hj (by omega)⟩⟩

variable [Inhabited D] {k : RingKind} {args : InitArgs} {w w' : (port k args : Port _ _ D _ _).State}

/-- The invariant of the wait. -/
structure Settling (k : RingKind) (args : InitArgs) (w : (port k args : Port _ _ D _ _).State) :
    Prop where
  tracked : Lender.Tracked (Marked (Geometry.ofArgs k args)) (Port.LentWork Lent) Work.Apart w
  draining : Draining w.sys
  singles : (port k args).NoSingles w

theorem Settling.effect (h : Settling k args w) {a : MarketAction (RingAction D) Nat Answer}
    (ha : ∀ b, a.own? = some b → b = .advance) (he : (port k args).lender.Effect w a w') :
    Settling k args w' := by
  have hwait := h.singles.waits RingAction.advance h.draining
    (fun hst => h.draining.advance h.tracked.inv.formed.1 hst) h.draining.setStatus ha he
  exact ⟨h.tracked.effect (lawful k args).tracks (fun _ _ => trivial) he, hwait.1, hwait.2⟩

theorem settling_of_drain
    (h : Lender.Tracked (Marked (Geometry.ofArgs k args)) (Port.LentWork Lent) Work.Apart w)
    (hs : (port k args).NoSingles w) (hone : ((port k args).staged w.sys).length ≠ 1)
    (hst : (port k args).system.step w (.own .drain) = some w') : Settling k args w' := by
  have he := Port.system_effect hst
  refine ⟨h.effect (lawful k args).tracks (fun _ _ => trivial) he, ?_, ?_⟩
  · cases he with
    | E_Own hown => exact draining_of_drain h.inv.formed (Port.calls_step hown).2
  · refine hs.rings hone (fun {s'} hcall => ?_) he
    simp only [port, machine, step] at hcall
    split at hcall <;> cases hcall
    rcases h.inv.formed.1.sealPartial_portal with hp | ⟨b, hp, hf, hb⟩
    · exact Or.inl hp
    · exact Or.inr ⟨b, hp, fun d hd => by simp [port, hf, RingSubmitter.listAt, hb d hd]⟩

theorem Settling.drained (h : Settling k args w) (hc : w.sys.stack = []) : (port k args).Drained w := by
  refine Port.drained_of_unmarked h.tracked ?_ h.singles (if_neg h.draining.staged)
  rintro b n r ⟨hlt, hu, _⟩
  rcases h.draining.stack with ⟨_, hno⟩ | ⟨i, hi, _⟩
  · exact hno r hlt hu.1
  · rw [hc] at hi; cases hi

end RingSystem

end DsaStdexec.Submitter

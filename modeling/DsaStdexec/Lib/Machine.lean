import Mathlib.Algebra.Ring.Nat
import Mathlib.Data.Option.Basic

/-!
# Machines with named actions

A machine is a state together with a partial step function. Every choice that the environment makes
(which call comes next, when a device answers) is an action, so a run is a list of actions. A step
that is not enabled returns `none`.
-/

namespace DsaStdexec.Lib

structure Machine (σ α : Type*) where
  init : σ
  step : σ → α → Option σ

namespace Machine

variable {σ α : Type*} (M : Machine σ α)

def runFrom : σ → List α → Option σ
  | s, [] => some s
  | s, a :: as => (M.step s a).bind fun s' => runFrom s' as

/-- The state that a list of actions leads to from the initial one. -/
def run (as : List α) : Option σ := M.runFrom M.init as

/-- Every step of the run meets `C`, a condition on the action and on the state before it. -/
def Meets (C : σ → α → Prop) : σ → List α → Prop
  | _, [] => True
  | s, a :: as => C s a ∧ ∀ s', M.step s a = some s' → Meets C s' as

/-- `P` holds in every state of the run, the first and the last included. -/
def Throughout (P : σ → Prop) : σ → List α → Prop
  | s, [] => P s
  | s, a :: as => P s ∧ ∀ s', M.step s a = some s' → Throughout P s' as

variable {M}

instance decidableMeets {C : σ → α → Prop} [∀ s a, Decidable (C s a)] :
    ∀ s as, Decidable (M.Meets C s as)
  | _, [] => isTrue True.intro
  | s, a :: as =>
      match h : M.step s a with
      | none => decidable_of_iff (C s a) (by simp [Meets, h])
      | some s' =>
          have := decidableMeets (C := C) s' as
          decidable_of_iff (C s a ∧ M.Meets C s' as) (by simp [Meets, h])

instance decidableThroughout {P : σ → Prop} [∀ s, Decidable (P s)] :
    ∀ s as, Decidable (M.Throughout P s as)
  | s, [] => inferInstanceAs (Decidable (P s))
  | s, a :: as =>
      match h : M.step s a with
      | none => decidable_of_iff (P s) (by simp [Throughout, h])
      | some s' =>
          have := decidableThroughout (P := P) s' as
          decidable_of_iff (P s ∧ M.Throughout P s' as) (by simp [Throughout, h])

theorem runFrom_cons {s t : σ} {a : α} {as : List α} (h : M.runFrom s (a :: as) = some t) :
    ∃ s', M.step s a = some s' ∧ M.runFrom s' as = some t := by
  simpa [runFrom, Option.bind_eq_some_iff] using h

theorem runFrom_append_eq {s t : σ} {as bs : List α} (h : M.runFrom s as = some t) :
    M.runFrom s (as ++ bs) = M.runFrom t bs := by
  induction as generalizing s with
  | nil => cases h; rfl
  | cons a as ih =>
      obtain ⟨s', hs, hr⟩ := runFrom_cons h
      simp only [List.cons_append, runFrom, hs, Option.bind_some]
      exact ih hr

theorem runFrom_append {s t u : σ} {as bs : List α} (h : M.runFrom s as = some t)
    (h' : M.runFrom t bs = some u) : M.runFrom s (as ++ bs) = some u := (runFrom_append_eq h).trans h'

/-! ## Invariants -/

/-- An invariant of the steps that meet `C` can be used to show that they meet `C'`. -/
theorem Meets.of_invariant {C C' : σ → α → Prop} {I : σ → Prop}
    (hstep : ∀ s a s', I s → C s a → M.step s a = some s' → I s')
    (hC : ∀ s a, I s → C s a → C' s a) {s : σ} {as : List α} (hs : I s) (h : M.Meets C s as) :
    M.Meets C' s as := by
  induction as generalizing s with
  | nil => exact True.intro
  | cons a as ih =>
      exact ⟨hC s a hs h.1, fun s' hst => ih (hstep s a s' hs h.1 hst) (h.2 s' hst)⟩

theorem Meets.mono {C C' : σ → α → Prop} (hC : ∀ s a, C s a → C' s a) {s : σ} {as : List α}
    (h : M.Meets C s as) : M.Meets C' s as :=
  h.of_invariant (I := fun _ => True) (fun _ _ _ _ _ _ => trivial) (fun s a _ => hC s a) trivial

/-- What holds at the start and is kept by every step that meets `C` holds at the end of every run
whose steps meet `C`. -/
theorem runFrom_invariant {C : σ → α → Prop} {I : σ → Prop}
    (hstep : ∀ s a s', I s → C s a → M.step s a = some s' → I s') {s t : σ} {as : List α}
    (hs : I s) (hC : M.Meets C s as) (h : M.runFrom s as = some t) : I t := by
  induction as generalizing s with
  | nil => cases h; exact hs
  | cons a as ih =>
      obtain ⟨s', hst, hr⟩ := runFrom_cons h
      exact ih (hstep s a s' hs hC.1 hst) (hC.2 s' hst) hr

theorem meets_of_forall {C : α → Prop} {s : σ} {as : List α} (h : ∀ a ∈ as, C a) :
    M.Meets (fun _ a => C a) s as := by
  induction as generalizing s with
  | nil => exact True.intro
  | cons a as ih =>
      exact ⟨h a List.mem_cons_self, fun s' _ => ih fun b hb => h b (List.mem_cons_of_mem _ hb)⟩

theorem runFrom_keeps {I : σ → Prop} (hstep : ∀ s a s', I s → M.step s a = some s' → I s') {s t : σ}
    {as : List α} (hs : I s) (h : M.runFrom s as = some t) : I t :=
  runFrom_invariant (C := fun _ _ => True) (fun s a s' hs _ => hstep s a s' hs) hs
    (meets_of_forall (C := fun _ => True) fun _ _ => True.intro) h

theorem run_invariant {I : σ → Prop} (hinit : I M.init)
    (hstep : ∀ s a s', I s → M.step s a = some s' → I s') {t : σ} {as : List α}
    (h : M.run as = some t) : I t := runFrom_keeps hstep hinit h

/-- What every step appends to a log is in the log at the end of the run, in the order of the steps. -/
theorem runFrom_collect {δ : Type*} {C : σ → α → Prop} {I : σ → Prop} (log : σ → List δ) {add : α → List δ}
    (hI : ∀ s a s', I s → C s a → M.step s a = some s' → I s')
    (hlog : ∀ s a s', I s → C s a → M.step s a = some s' → log s' = log s ++ add a) {s t : σ}
    {as : List α} (hs : I s) (hC : M.Meets C s as) (h : M.runFrom s as = some t) :
    log t = log s ++ as.flatMap add := by
  induction as generalizing s with
  | nil => cases h; simp
  | cons a as ih =>
      obtain ⟨s', hst, hr⟩ := runFrom_cons h
      rw [ih (hI s a s' hs hC.1 hst) (hC.2 s' hst) hr, hlog s a s' hs hC.1 hst, List.flatMap_cons,
        List.append_assoc]

/-- A run is no longer than the potential at its start and what its actions add to the potential. -/
theorem length_le_of_potential {C : σ → α → Prop} {I : σ → Prop} (ψ : σ → Nat) {cost : α → Nat}
    (hI : ∀ s a s', I s → C s a → M.step s a = some s' → I s')
    (hψ : ∀ s a s', I s → C s a → M.step s a = some s' → ψ s' + 1 ≤ ψ s + cost a) {s t : σ}
    {as : List α} (hs : I s) (hC : M.Meets C s as) (h : M.runFrom s as = some t) :
    as.length + ψ t ≤ ψ s + (as.map cost).sum := by
  induction as generalizing s with
  | nil => cases h; simp
  | cons a as ih =>
      obtain ⟨s', hst, hr⟩ := runFrom_cons h
      have hrest := ih (hI s a s' hs hC.1 hst) (hC.2 s' hst) hr
      have hstep := hψ s a s' hs hC.1 hst
      simp only [List.length_cons, List.map_cons, List.sum_cons]
      omega

/-- A rank that no step raises before `P` holds, and that every step of the kind `counts` lowers: as soon as
a run has had so many of these steps, it has been in a state with `P`. -/
theorem reaches_of_rank {I P : σ → Prop} (rank : σ → Nat) (counts : α → Bool)
    (hI : ∀ s a s', I s → M.step s a = some s' → I s') (hzero : ∀ s, rank s = 0 → P s)
    (hrank : ∀ s a s', I s → ¬ P s → M.step s a = some s' →
      rank s' + (if counts a then 1 else 0) ≤ rank s) {s t : σ} {as : List α} (hs : I s)
    (h : M.runFrom s as = some t) (hmany : rank s ≤ as.countP counts) :
    ∃ bs cs u, as = bs ++ cs ∧ bs.countP counts ≤ rank s ∧ M.runFrom s bs = some u ∧ P u := by
  induction as generalizing s with
  | nil => exact ⟨[], [], s, rfl, Nat.zero_le _, rfl, hzero s (Nat.le_zero.mp hmany)⟩
  | cons a as ih =>
      by_cases hp : P s
      · exact ⟨[], a :: as, s, rfl, Nat.zero_le _, rfl, hp⟩
      obtain ⟨s', hst, hr⟩ := runFrom_cons h
      have hless := hrank s a s' hs hp hst
      rw [List.countP_cons] at hmany
      obtain ⟨bs, cs, u, rfl, hfew, hu, hpu⟩ := ih (hI s a s' hs hst) hr (by omega)
      refine ⟨a :: bs, cs, u, rfl, ?_, by simp [runFrom, hst, hu], hpu⟩
      rw [List.countP_cons]
      omega

/-- Where a step keeps `P` exactly when it meets `C`, `P` holds throughout a run exactly when every
step of the run meets `C`. -/
theorem throughout_iff_meets {C : σ → α → Prop} {I P : σ → Prop}
    (hI : ∀ s a s', I s → C s a → M.step s a = some s' → I s')
    (hP : ∀ s a s', I s → P s → M.step s a = some s' → (P s' ↔ C s a)) {s t : σ} {as : List α}
    (hs : I s) (hp : P s) (h : M.runFrom s as = some t) :
    M.Throughout P s as ↔ M.Meets C s as := by
  induction as generalizing s with
  | nil => simpa [Throughout, Meets] using hp
  | cons a as ih =>
      obtain ⟨s', hst, hr⟩ := runFrom_cons h
      have hiff := hP s a s' hs hp hst
      have hs' := fun hc => hI s a s' hs hc hst
      simp only [Throughout, Meets, hst, Option.some.injEq, forall_eq']
      constructor
      · rintro ⟨_, ht⟩
        -- the first state of the rest of the run is `s'`
        have hp' : P s' := by cases as with
          | nil => exact ht
          | cons b bs => exact ht.1
        have hc := hiff.mp hp'
        exact ⟨hc, (ih (hs' hc) hp' hr).mp ht⟩
      · rintro ⟨hc, hm⟩
        exact ⟨hp, (ih (hs' hc) (hiff.mpr hc) hr).mpr hm⟩

/-! ## Possibility -/

variable (M) in
/-- Some run leads to a state with `P`. -/
def CanReach (P : σ → Prop) (s : σ) : Prop := ∃ as t, M.runFrom s as = some t ∧ P t

theorem CanReach.here {P : σ → Prop} {s : σ} (h : P s) : M.CanReach P s := ⟨[], s, rfl, h⟩

theorem CanReach.step {P : σ → Prop} {s s' : σ} {a : α} (hst : M.step s a = some s')
    (h : M.CanReach P s') : M.CanReach P s := by
  obtain ⟨as, t, hr, hp⟩ := h
  exact ⟨a :: as, t, by simp [runFrom, hst, hr], hp⟩

theorem CanReach.trans {P Q : σ → Prop} {s : σ} (h : M.CanReach P s)
    (hQ : ∀ t, P t → M.CanReach Q t) : M.CanReach Q s := by
  obtain ⟨as, t, hr, hp⟩ := h
  obtain ⟨bs, u, hr', hq⟩ := hQ t hp
  exact ⟨as ++ bs, u, runFrom_append hr hr', hq⟩

variable (M) in
/-- Some run with actions of the kind `C` leads from `s` to `t`. -/
def Leads (C : α → Prop) (s t : σ) : Prop := ∃ as, (∀ a ∈ as, C a) ∧ M.runFrom s as = some t

theorem Leads.refl {C : α → Prop} (s : σ) : M.Leads C s s := ⟨[], by simp, rfl⟩

theorem Leads.step {C : α → Prop} {s s' t : σ} {a : α} (ha : C a) (hst : M.step s a = some s')
    (h : M.Leads C s' t) : M.Leads C s t := by
  obtain ⟨as, hC, hr⟩ := h
  refine ⟨a :: as, ?_, by simp [runFrom, hst, hr]⟩
  rintro b (_ | ⟨_, hb⟩)
  · exact ha
  · exact hC b hb

theorem Leads.trans {C : α → Prop} {s t u : σ} (h : M.Leads C s t) (h' : M.Leads C t u) :
    M.Leads C s u := by
  obtain ⟨as, hC, hr⟩ := h
  obtain ⟨bs, hC', hr'⟩ := h'
  refine ⟨as ++ bs, fun a ha => ?_, runFrom_append hr hr'⟩
  exact (List.mem_append.mp ha).elim (hC a) (hC' a)

theorem Leads.mono {C C' : α → Prop} {s t : σ} (h : M.Leads C s t) (hC : ∀ a, C a → C' a) :
    M.Leads C' s t := by
  obtain ⟨as, has, hr⟩ := h
  exact ⟨as, fun a ha => hC a (has a ha), hr⟩

variable (M) in
/-- Some run with actions of the kind `C` leads to a state with `P`. -/
def CanReachBy (C : α → Prop) (P : σ → Prop) (s : σ) : Prop := ∃ t, M.Leads C s t ∧ P t

theorem CanReachBy.here {C : α → Prop} {P : σ → Prop} {s : σ} (h : P s) : M.CanReachBy C P s := ⟨s, .refl s, h⟩

theorem CanReachBy.step {C : α → Prop} {P : σ → Prop} {s s' : σ} {a : α} (ha : C a)
    (hst : M.step s a = some s') (h : M.CanReachBy C P s') : M.CanReachBy C P s := by
  obtain ⟨t, hl, hp⟩ := h
  exact ⟨t, hl.step ha hst, hp⟩

theorem CanReachBy.canReach {C : α → Prop} {P : σ → Prop} {s : σ} (h : M.CanReachBy C P s) :
    M.CanReach P s := by
  obtain ⟨t, ⟨as, -, hr⟩, hp⟩ := h
  exact ⟨as, t, hr, hp⟩

/-! ## Simulation -/

/-- Two machines whose steps agree in related states, on the actions that meet `C`, run together: one
of them is stuck where the other one is. -/
theorem runFrom_rel {τ : Type*} {N : Machine τ α} {R : σ → τ → Prop} {C : τ → α → Prop}
    (hstep : ∀ s t a, R s t → C t a → Option.Rel R (M.step s a) (N.step t a)) {s : σ} {t : τ}
    {as : List α} (h : R s t) (hC : N.Meets C t as) :
    Option.Rel R (M.runFrom s as) (N.runFrom t as) := by
  induction as generalizing s t with
  | nil => exact .some h
  | cons a as ih =>
      have hrel := hstep s t a h hC.1
      simp only [runFrom]
      revert hrel
      cases hs : M.step s a with
      | none =>
          intro hrel
          cases ht : N.step t a with
          | none => exact .none
          | some t' => rw [ht] at hrel; cases hrel
      | some s' =>
          intro hrel
          cases ht : N.step t a with
          | none => rw [ht] at hrel; cases hrel
          | some t' =>
              rw [ht] at hrel
              cases hrel with
              | some h' => exact ih h' (hC.2 t' ht)

end Machine

end DsaStdexec.Lib

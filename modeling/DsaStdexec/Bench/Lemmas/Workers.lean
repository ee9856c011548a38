import DsaStdexec.Bench.Strategies
import Mathlib.Data.List.Nodup
import Mathlib.Data.Nat.ModEq

/-! # The workers share the operations out -/

namespace DsaStdexec.Bench.ScopedWorkers

open DsaStdexec.Lib

variable {c n : Nat} {s s' : ScopedWorkers}

/-- The operations of a worker up to the one where it is. -/
def Passed (op : Nat) : Worker → Prop
  | .scheduled => False
  | .awaiting o | .resumed o => op ≤ o
  | .finished => True

/-- The operations that were started are those that their workers have passed. -/
structure Shared (c n : Nat) (s : ScopedWorkers) : Prop where
  own : ∀ w op, s.workers w = .awaiting op ∨ s.workers w = .resumed op → op < n ∧ op % actualWorkers c n = w
  nodup : s.started.Nodup
  started : ∀ op, op ∈ s.started ↔ op < n ∧ Passed op (s.workers (op % actualWorkers c n))

theorem shared_init : Shared c n (machine c n).init where
  own := by rintro w op (h | h) <;> cases h
  nodup := List.nodup_nil
  started := by simp [machine, Passed]

/-- The operations of one worker lie `W` apart. -/
theorem le_or_add_le {W a b : Nat} (h : a % W = b % W) : a ≤ b ∨ b + W ≤ a := by
  by_contra hne
  have hlt : b < a := by omega
  have hdvd : W ∣ a - b := (Nat.modEq_iff_dvd' hlt.le).mp h.symm
  exact absurd (Nat.le_of_dvd (by omega) hdvd) (by omega)

/-- A worker goes on with the first of its operations that it has not passed. -/
theorem Shared.proceed (h : Shared c n s) {w next : Nat} (hw : w < actualWorkers c n)
    (hnext : next % actualWorkers c n = w)
    (hpassed : ∀ op, op % actualWorkers c n = w → (Passed op (s.workers w) ↔ op < next)) :
    Shared c n (s.proceed n w next) := by
  have hfresh : next ∉ s.started := fun hm => by
    have hp := ((h.started next).mp hm).2
    rw [hnext, hpassed next hnext] at hp
    exact lt_irrefl _ hp
  by_cases hlt : next < n
  · rw [ScopedWorkers.proceed, if_pos hlt]
    refine ⟨fun w' op hop => ?_, ?_, fun op => ?_⟩
    · by_cases e : w' = w
      · subst e
        obtain rfl : next = op := by simpa using hop
        exact ⟨hlt, hnext⟩
      · exact h.own w' op (by simpa [e] using hop)
    · exact List.nodup_append.mpr ⟨h.nodup, List.nodup_singleton _, by
        rintro a ha b hb rfl
        exact hfresh (List.mem_singleton.mp hb ▸ ha)⟩
    · rw [List.mem_append, List.mem_singleton, h.started op]
      by_cases e : op % actualWorkers c n = w
      · rw [e, hpassed op e]
        simp only [Function.update_self, Passed]
        omega
      · have hne : op ≠ next := fun he => e (he ▸ hnext)
        simp only [Function.update_of_ne e, hne, or_false]
  · rw [ScopedWorkers.proceed, if_neg hlt]
    refine ⟨fun w' op hop => ?_, h.nodup, fun op => ?_⟩
    · by_cases e : w' = w
      · subst e
        simp at hop
      · exact h.own w' op (by simpa [e] using hop)
    · rw [h.started op]
      by_cases e : op % actualWorkers c n = w
      · rw [e, hpassed op e]
        simp only [Function.update_self, Passed, and_true]
        omega
      · simp only [Function.update_of_ne e]

theorem shared_step (h : Shared c n s) {a : WorkerAction} (hst : step c n s a = some s') : Shared c n s' := by
  cases a with
  | run w =>
      obtain ⟨hw, hst⟩ := Option.ite_none_right_eq_some.mp hst
      cases hws : s.workers w with
      | scheduled =>
          rw [hws] at hst
          cases hst
          refine h.proceed hw (Nat.mod_eq_of_lt hw) fun op hop => ?_
          rw [hws, Passed, false_iff, ← hop]
          exact Nat.not_lt.mpr (Nat.mod_le _ _)
      | resumed o =>
          rw [hws] at hst
          cases hst
          obtain ⟨-, hmod⟩ := h.own w o (.inr hws)
          refine h.proceed hw ((Nat.add_mod_right _ _).trans hmod) fun op hop => ?_
          have hgap := le_or_add_le (hop.trans hmod.symm)
          rw [hws, Passed]
          omega
      | awaiting o =>
          rw [hws] at hst
          cases hst
      | finished =>
          rw [hws] at hst
          cases hst
  | complete w =>
      cases hws : s.workers w with
      | awaiting o =>
          simp only [step, hws, Option.some.injEq] at hst
          subst hst
          refine ⟨fun w' op hop => ?_, h.nodup, fun op => ?_⟩
          · by_cases e : w' = w
            · subst e
              obtain rfl : o = op := by simpa using hop
              exact h.own w' o (.inl hws)
            · exact h.own w' op (by simpa [e] using hop)
          · rw [h.started op]
            by_cases e : op % actualWorkers c n = w
            · simp only [e, Function.update_self, hws, Passed]
            · simp only [Function.update_of_ne e]
      | scheduled | resumed o | finished => simp [step, hws] at hst

theorem run_shared {as : List WorkerAction} (hr : (machine c n).run as = some s) : Shared c n s :=
  Machine.run_invariant shared_init (fun _ _ _ h hst => shared_step h hst) hr

/-- When the scope is empty all operations were started. -/
theorem Shared.started_perm (h : Shared c n s) (hret : Returned c n s) (hc : 0 < c) :
    s.started.Perm (List.range n) := by
  refine (List.perm_ext_iff_of_nodup h.nodup List.nodup_range).mpr fun op => ?_
  rw [h.started op, List.mem_range, and_iff_left_iff_imp]
  intro hlt
  have hW : 0 < actualWorkers c n := lt_min hc (Nat.zero_lt_of_lt hlt)
  rw [hret _ (Nat.mod_lt _ hW)]
  trivial

theorem Shared.awaited (h : Shared c n s) {w op : Nat} (hop : (s.workers w).awaited = some op) :
    op % actualWorkers c n = w := by
  cases hws : s.workers w with
  | awaiting o =>
      rw [hws] at hop
      obtain rfl : o = op := Option.some.inj hop
      exact (h.own w o (.inl hws)).2
  | scheduled | resumed o | finished =>
      rw [hws] at hop
      cases hop

/-- No two workers await the same operation. -/
theorem Shared.running_nodup (h : Shared c n s) : (s.running c n).Nodup := by
  refine List.Nodup.filterMap (fun w w' op hop hop' => ?_) List.nodup_range
  exact (h.awaited hop).symm.trans (h.awaited hop')

theorem running_length_le (s : ScopedWorkers) : (s.running c n).length ≤ c :=
  calc (s.running c n).length ≤ (List.range (actualWorkers c n)).length := List.length_filterMap_le _ _
    _ = min c n := List.length_range
    _ ≤ c := min_le_left c n

/-! ## Progress -/

/-- The work that a worker has left. -/
def left (n : Nat) : Worker → Nat
  | .scheduled => 2 * n + 3
  | .awaiting op => 2 * (n - op) + 2
  | .resumed op => 2 * (n - op) + 1
  | .finished => 0

theorem exists_step_left (h : Shared c n s) {w : Nat} (hw : w < actualWorkers c n)
    (hws : s.workers w ≠ .finished) :
    ∃ a s', step c n s a = some s' ∧ left n (s'.workers w) < left n (s.workers w) ∧
      ∀ w', w' ≠ w → s'.workers w' = s.workers w' := by
  have hproceed (next : Nat) (hless : 2 * (n - next) + 2 < left n (s.workers w)) :
      left n ((s.proceed n w next).workers w) < left n (s.workers w) ∧
        ∀ w', w' ≠ w → (s.proceed n w next).workers w' = s.workers w' := by
    unfold ScopedWorkers.proceed
    split_ifs
    · exact ⟨by simpa [left] using hless, fun w' e => Function.update_of_ne e _ _⟩
    · exact ⟨by simpa [left] using Nat.zero_lt_of_lt hless, fun w' e => Function.update_of_ne e _ _⟩
  cases hws' : s.workers w with
  | finished => exact absurd hws' hws
  | scheduled =>
      refine ⟨.run w, s.proceed n w w, by simp [step, hw, hws'], ?_⟩
      rw [← hws']
      exact hproceed w (by rw [hws', left]; omega)
  | resumed o =>
      obtain ⟨ho, -⟩ := h.own w o (.inr hws')
      refine ⟨.run w, s.proceed n w (o + actualWorkers c n), by simp [step, hw, hws'], ?_⟩
      rw [← hws']
      exact hproceed _ (by rw [hws', left]; omega)
  | awaiting o =>
      refine ⟨.complete w, { s with workers := Function.update s.workers w (.resumed o) }, by simp only [step, hws'],
        ?_, fun w' e => Function.update_of_ne e _ _⟩
      simp [left]

/-- One worker after the other runs to its end. -/
theorem can_return (h : Shared c n s) : (machine c n).CanReach (Returned c n) s := by
  suffices hupto : ∀ m ≤ actualWorkers c n, (machine c n).CanReach
      (fun t => Shared c n t ∧ ∀ w < m, t.workers w = .finished) s by
    obtain ⟨as, t, hrun, -, hfin⟩ := hupto _ le_rfl
    exact ⟨as, t, hrun, hfin⟩
  intro m
  induction m with
  | zero => exact fun _ => .here ⟨h, nofun⟩
  | succ m ih =>
      intro hm
      refine (ih (by omega)).trans ?_
      rintro t ⟨ht, hfin⟩
      generalize hx : left n (t.workers m) = x
      induction x using Nat.strong_induction_on generalizing t with
      | _ x ihx =>
        by_cases hdone : t.workers m = .finished
        · refine .here ⟨ht, fun w hw => ?_⟩
          by_cases e : w = m
          · exact e ▸ hdone
          · exact hfin w (by omega)
        · obtain ⟨a, t', hst, hless, hothers⟩ := exists_step_left ht (by omega) hdone
          refine .step hst (ihx _ (hx ▸ hless) t' (shared_step ht hst) (fun w hw => ?_) rfl)
          rw [hothers w (by omega)]
          exact hfin w hw

end DsaStdexec.Bench.ScopedWorkers

import Mathlib.Data.Nat.ModEq
import Mathlib.Data.Nat.Bitwise
import Mathlib.Algebra.BigOperators.Group.Finset.Piecewise

/-!
# Positions and indices of a circular buffer

A position counts up for ever; its index is its remainder modulo the size of the buffer. Positions
that lie in one window no longer than the buffer have different indices.
-/

namespace DsaStdexec.Lib

/-- Two positions of one window with the same index are the same position. -/
theorem eq_of_mod_eq {n a p q : Nat} (hp : a ≤ p) (hp' : p < a + n) (hq : a ≤ q) (hq' : q < a + n)
    (h : p % n = q % n) : p = q := by
  have key : ∀ {x y : Nat}, x ≤ y → y < x + n → x % n = y % n → x = y := by
    intro x y hxy hlt he
    have hd : n ∣ y - x := (Nat.modEq_iff_dvd' hxy).mp he
    have := Nat.eq_zero_of_dvd_of_lt hd (by omega)
    omega
  rcases Nat.le_total p q with hpq | hpq
  · exact key hpq (by omega) h
  · exact (key hpq (by omega) h.symm).symm

theorem and_sub_one_eq_mod {n k : Nat} (hn : n = 2 ^ k) (p : Nat) : p &&& (n - 1) = p % n := by
  subst hn; exact Nat.and_two_pow_sub_one_eq_mod p k

/-- Changing one cell of a table changes the number of its cells with a property by that cell. -/
theorem card_filter_update {β : Type*} (s : Finset Nat) (f : Nat → β) (p : β → Prop)
    [DecidablePred p] {k : Nat} (hk : k ∈ s) (e : β) :
    (s.filter fun i => p (Function.update f k e i)).card + (if p (f k) then 1 else 0) =
      (s.filter fun i => p (f i)).card + (if p e then 1 else 0) := by
  have hrest : ∑ i ∈ s.erase k, (if p (Function.update f k e i) then 1 else 0) =
      ∑ i ∈ s.erase k, (if p (f i) then 1 else 0) :=
    Finset.sum_congr rfl fun i hi => by rw [Function.update_of_ne (Finset.ne_of_mem_erase hi)]
  rw [Finset.card_filter, Finset.card_filter, ← Finset.add_sum_erase s _ hk,
    ← Finset.add_sum_erase s (fun i => if p (f i) then 1 else 0) hk, hrest, Function.update_self]
  omega

/-- Writing behind the first `n` cells of a table adds a cell to their list. -/
theorem map_range_update {β : Type*} (f : Nat → β) (n : Nat) (e : β) :
    (List.range (n + 1)).map (Function.update f n e) = (List.range n).map f ++ [e] := by
  have hrest : (List.range n).map (Function.update f n e) = (List.range n).map f :=
    List.map_congr_left fun k hk => Function.update_of_ne (Nat.ne_of_lt (List.mem_range.mp hk)) _ _
  rw [List.range_succ, List.map_append, hrest, List.map_singleton, Function.update_self]

/-- Reading all cells of a list gives the list. -/
theorem filterMap_range_getElem? {β : Type*} (l : List β) :
    ((List.range l.length).filterMap fun i => l[i]?) = l := by
  induction l using List.reverseRecOn with
  | nil => rfl
  | append_singleton l a ih =>
      have hrest : (List.range l.length).filterMap (fun i => (l ++ [a])[i]?) = l := by
        rw [← ih, ih]
        refine (List.filterMap_congr fun i hi => ?_).trans ih
        exact List.getElem?_append_left (List.mem_range.mp hi)
      rw [List.length_append, List.length_singleton, List.range_succ, List.filterMap_append, hrest]
      simp

end DsaStdexec.Lib

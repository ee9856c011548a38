import Mathlib.Data.List.Basic

/-!
# Ranges that cover an interval

`Tiles o e rs` says that the ranges `rs`, each with its start and its length, cover the positions from
`o` to `e` one after the other.
-/

namespace DsaStdexec.Lib

def Tiles : Nat → Nat → List (Nat × Nat) → Prop
  | o, e, [] => o = e
  | o, e, (a, n) :: rs => a = o ∧ Tiles (o + n) e rs

variable {o e k a n : Nat} {rs : List (Nat × Nat)}

theorem Tiles.le (h : Tiles o e rs) : o ≤ e := by
  induction rs generalizing o with
  | nil => exact Nat.le_of_eq h
  | cons r rs ih => exact Nat.le_trans (Nat.le_add_right _ _) (ih h.2)

theorem Tiles.bounds (h : Tiles o e rs) (hm : (a, n) ∈ rs) : o ≤ a ∧ a + n ≤ e := by
  induction rs generalizing o with
  | nil => cases hm
  | cons r rs ih =>
      obtain ⟨rfl, h⟩ := h
      cases hm with
      | head => exact ⟨Nat.le_refl _, h.le⟩
      | tail _ hm =>
          obtain ⟨h1, h2⟩ := ih h hm
          exact ⟨by omega, h2⟩

/-- Every position lies in exactly one of the ranges. -/
theorem Tiles.existsUnique (h : Tiles o e rs) (h1 : o ≤ k) (h2 : k < e) :
    ∃! j : Nat, ∃ r : Nat × Nat, rs[j]? = some r ∧ r.1 ≤ k ∧ k < r.1 + r.2 := by
  induction rs generalizing o with
  | nil => cases h; omega
  | cons r rs ih =>
      obtain ⟨b, l⟩ := r
      obtain ⟨rfl, h⟩ := h
      by_cases hk : k < b + l
      · refine ⟨0, ⟨(b, l), rfl, h1, hk⟩, ?_⟩
        rintro (_ | j) ⟨⟨c, n⟩, hj, h3, _⟩
        · rfl
        · have := (h.bounds (List.mem_of_getElem? hj)).1
          simp only at h3; omega
      · obtain ⟨j, ⟨r, hj, h3⟩, huniq⟩ := ih h (by omega)
        refine ⟨j + 1, ⟨r, hj, h3⟩, ?_⟩
        rintro (_ | i) ⟨r', hi, h4⟩
        · cases hi; omega
        · rw [huniq i ⟨r', hi, h4⟩]

end DsaStdexec.Lib

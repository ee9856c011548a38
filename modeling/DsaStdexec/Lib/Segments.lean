import Mathlib.Algebra.BigOperators.Intervals
import Mathlib.Algebra.Order.BigOperators.Group.Finset

/-!
# Consecutive segments

Segments numbered `a, a + 1, …` with lengths `f b` are laid out one after the other from the
position `o`. `offset o a f b` is where segment `b` begins.
-/

namespace DsaStdexec.Lib

def offset (o a : Nat) (f : Nat → Nat) (b : Nat) : Nat := o + ∑ j ∈ Finset.Ico a b, f j

variable {o a m b c p : Nat} {f f' : Nat → Nat}

@[simp] theorem offset_self : offset o a f a = o := by simp [offset]

theorem offset_succ (h : a ≤ b) : offset o a f (b + 1) = offset o a f b + f b := by
  simp only [offset, Finset.sum_Ico_succ_top h]; omega

theorem offset_congr (h : ∀ j, a ≤ j → j < b → f j = f' j) :
    offset o a f b = offset o a f' b := by
  simp only [offset]
  congr 1
  exact Finset.sum_congr rfl fun j hj => h j (Finset.mem_Ico.mp hj).1 (Finset.mem_Ico.mp hj).2

/-- Dropping the first segments and starting where the next one begins moves nothing. -/
theorem offset_drop (hm : a ≤ m) (hb : m ≤ b) :
    offset (offset o a f m) m f b = offset o a f b := by
  simp only [offset, Nat.add_assoc, Finset.sum_Ico_consecutive f hm hb]

theorem offset_add_len_le (hb : a ≤ b) (hc : b < c) :
    offset o a f b + f b ≤ offset o a f c := by
  induction c, hc using Nat.le_induction with
  | base => exact (offset_succ hb).ge
  | succ c hc ih => rw [offset_succ (by omega)]; omega

theorem base_le_offset : o ≤ offset o a f b := Nat.le_add_right _ _

theorem offset_le (h : ∀ j, a ≤ j → j < b → f j ≤ m) :
    offset o a f b ≤ o + (b - a) * m := by
  have := Finset.sum_le_card_nsmul (Finset.Ico a b) f m fun j hj =>
    h j (Finset.mem_Ico.mp hj).1 (Finset.mem_Ico.mp hj).2
  rw [Nat.card_Ico, Nat.nsmul_eq_mul] at this
  exact Nat.add_le_add_left this o

/-- Every position below the end lies in a segment. -/
theorem exists_segment (hb : o ≤ p) (hp : p < offset o a f b) :
    ∃ j, a ≤ j ∧ j < b ∧ offset o a f j ≤ p ∧ p < offset o a f j + f j := by
  induction b with
  | zero => simp [offset] at hp; omega
  | succ b ih =>
      by_cases ha : a ≤ b
      · by_cases hlt : p < offset o a f b
        · obtain ⟨j, h1, h2, h3⟩ := ih hlt
          exact ⟨j, h1, by omega, h3⟩
        · exact ⟨b, ha, by omega, by omega, by rwa [offset_succ ha] at hp⟩
      · simp [offset, Finset.Ico_eq_empty_of_le (show b + 1 ≤ a by omega)] at hp; omega

theorem segment_unique (hb : a ≤ b) (hc : a ≤ c)
    (h1 : offset o a f b ≤ p) (h2 : p < offset o a f b + f b)
    (h3 : offset o a f c ≤ p) (h4 : p < offset o a f c + f c) : b = c := by
  rcases Nat.lt_trichotomy b c with hlt | heq | hlt
  · have := offset_add_len_le (o := o) (f := f) hb hlt; omega
  · exact heq
  · have := offset_add_len_le (o := o) (f := f) hc hlt; omega

end DsaStdexec.Lib

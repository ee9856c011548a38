import Mathlib.Data.Nat.Bitwise
import Mathlib.Data.Nat.Log

/-!
# Filling a number with ones below its highest bit

Or-ing a number with itself shifted right by 1, 2, 4, … spreads its highest bit downwards. The
predicate `Spread w m x` says how far the spreading has come: bit `i` of `x` is set as soon as one
of the `w` bits of `m` from `i` upwards is.
-/

namespace DsaStdexec.Lib

/-- Bit `i` of `x` is set exactly when one of the bits `i, …, i + w - 1` of `m` is. -/
def Spread (w m x : Nat) : Prop := ∀ i, x.testBit i = true ↔ ∃ j < w, m.testBit (i + j) = true

theorem Spread.one (m : Nat) : Spread 1 m m := by
  intro i
  simp

theorem Spread.double {w m x : Nat} (h : Spread w m x) : Spread (w + w) m (x ||| x >>> w) := by
  intro i
  simp only [Nat.testBit_or, Nat.testBit_shiftRight, Bool.or_eq_true, h i, h (w + i)]
  constructor
  · rintro (⟨j, hj, hb⟩ | ⟨j, hj, hb⟩)
    · exact ⟨j, by omega, hb⟩
    · exact ⟨w + j, by omega, by rwa [show i + (w + j) = w + i + j by omega]⟩
  · rintro ⟨j, hj, hb⟩
    by_cases hlt : j < w
    · exact Or.inl ⟨j, hlt, hb⟩
    · exact Or.inr ⟨j - w, by omega, by rwa [show w + i + (j - w) = i + j by omega]⟩

/-- Once the width covers the whole number, all bits up to the highest one are set. -/
theorem Spread.eq_ones {w m x : Nat} (h : Spread w m x) (hm : m ≠ 0) (hw : m < 2 ^ w) :
    x = 2 ^ (m.log2 + 1) - 1 := by
  apply Nat.eq_of_testBit_eq
  intro i
  rw [Bool.eq_iff_iff, h i, Nat.testBit_two_pow_sub_one, decide_eq_true_iff]
  constructor
  · rintro ⟨j, _, hb⟩
    have := (Nat.le_log2 hm).mpr (Nat.ge_two_pow_of_testBit hb)
    omega
  · intro hi
    have hlog := (Nat.log2_lt hm).mpr hw
    exact ⟨m.log2 - i, by omega, by
      rw [show i + (m.log2 - i) = m.log2 by omega]; exact Nat.testBit_log2 hm⟩

/-- `2 ^ (log2 m + 1)` is the least power of two above `m`. -/
theorem two_pow_log2_succ_le {m k : Nat} (hm : m ≠ 0) (h : m < 2 ^ k) :
    2 ^ (m.log2 + 1) ≤ 2 ^ k :=
  Nat.pow_le_pow_right (by omega) ((Nat.log2_lt hm).mpr h)

end DsaStdexec.Lib

import Mathlib.Algebra.Field.ZMod
import Mathlib.Algebra.Polynomial.FieldDivision

/-!
# Cyclic redundancy checks as polynomial division

A register of `w` bits is a polynomial over GF(2) of degree below `w`. Shifting it by one place and
taking the bit that falls out back in as the generator is a multiplication by `X` modulo the
generator; so a register that is fed a message ends as the remainder of a division.
-/

namespace DsaStdexec.Lib.Crc

open Polynomial

variable {w v : Nat}

/-! ## Bits as coefficients -/

/-- The polynomial whose coefficient of `X ^ i` is bit `i` of `x`. -/
noncomputable def toPoly (x : BitVec w) : (ZMod 2)[X] :=
  ∑ i ∈ Finset.range w, if x.getLsbD i then X ^ i else 0

theorem coeff_toPoly (x : BitVec w) (i : Nat) :
    (toPoly x).coeff i = if x.getLsbD i then 1 else 0 := by
  have hterm : ∀ k, (if x.getLsbD k then (X : (ZMod 2)[X]) ^ k else 0).coeff i =
      if i = k then (if x.getLsbD i then 1 else 0) else 0 := by
    intro k
    by_cases hik : i = k
    · subst hik; split <;> simp
    · split <;> simp [coeff_X_pow, hik]
  rw [toPoly, finsetSum_coeff]
  simp only [hterm, Finset.sum_ite_eq, Finset.mem_range]
  by_cases hi : i < w
  · rw [if_pos hi]
  · rw [if_neg hi, if_neg (by rw [BitVec.getLsbD_of_ge x i (by omega)]; simp)]

theorem degree_toPoly_lt (x : BitVec w) : (toPoly x).degree < w := by
  rw [degree_lt_iff_coeff_zero]
  intro i hi
  rw [coeff_toPoly, BitVec.getLsbD_of_ge x i hi]
  simp

theorem toPoly_injective {x y : BitVec w} (h : toPoly x = toPoly y) : x = y := by
  apply BitVec.eq_of_getLsbD_eq
  intro i _
  have hc := congrArg (fun p => p.coeff i) h
  simp only [coeff_toPoly] at hc
  cases hx : x.getLsbD i <;> cases hy : y.getLsbD i <;> simp [hx, hy] at hc ⊢

theorem toPoly_zero : toPoly (0#w) = 0 := by
  ext i
  simp [coeff_toPoly]

theorem toPoly_xor (x y : BitVec w) : toPoly (x ^^^ y) = toPoly x + toPoly y := by
  ext i
  rw [coeff_add, coeff_toPoly, coeff_toPoly, coeff_toPoly, BitVec.getLsbD_xor]
  cases x.getLsbD i <;> cases y.getLsbD i <;> decide

/-- Shifted by `k` places without losing a bit. -/
theorem toPoly_setWidth_shiftLeft (x : BitVec v) {k : Nat} (h : v + k ≤ w) :
    toPoly (x.setWidth w <<< k) = X ^ k * toPoly x := by
  ext i
  rw [coeff_X_pow_mul', coeff_toPoly, coeff_toPoly, BitVec.getLsbD_shiftLeft, BitVec.getLsbD_setWidth]
  by_cases hk : k ≤ i
  · by_cases hi : i < w
    · simp [hk, hi, show ¬ i < k by omega, show i - k < w by omega]
    · rw [BitVec.getLsbD_of_ge x (i - k) (by omega)]
      simp
  · simp [hk, show i < k by omega]

/-- Shifted by one place, a word loses its most significant bit. -/
theorem X_mul_toPoly (hw : 0 < w) (x : BitVec w) :
    X * toPoly x = toPoly (x <<< 1) + if x.msb then X ^ w else 0 := by
  ext i
  have hmsb : (if x.msb then (X : (ZMod 2)[X]) ^ w else 0).coeff i =
      if i = w ∧ x.msb then 1 else 0 := by
    split <;> simp [coeff_X_pow, *]
  rw [coeff_add, hmsb, coeff_toPoly, BitVec.getLsbD_shiftLeft, BitVec.msb_eq_getLsbD_last]
  cases i with
  | zero => simp [hw.ne]
  | succ i =>
      rw [coeff_X_mul, coeff_toPoly]
      by_cases hi : i + 1 = w
      · subst hi; simp
      · by_cases hlt : i + 1 < w
        · simp [hi, hlt]
        · rw [BitVec.getLsbD_of_ge x i (by omega)]
          simp [hi, hlt]

theorem toPoly_append (x : BitVec w) (y : BitVec v) :
    toPoly (x ++ y) = X ^ v * toPoly x + toPoly y := by
  ext i
  rw [coeff_add, coeff_X_pow_mul', coeff_toPoly, coeff_toPoly, coeff_toPoly, BitVec.getLsbD_append]
  by_cases hi : i < v
  · simp [hi, show ¬ v ≤ i by omega]
  · rw [BitVec.getLsbD_of_ge y i (by omega)]
    simp [hi, show v ≤ i by omega]

/-! ## Messages -/

/-- A sequence of bits as a polynomial, the first bit the coefficient of the highest power. -/
noncomputable def ofBits : List Bool → (ZMod 2)[X]
  | [] => 0
  | b :: bs => (if b then X ^ bs.length else 0) + ofBits bs

theorem ofBits_append (as bs : List Bool) :
    ofBits (as ++ bs) = X ^ bs.length * ofBits as + ofBits bs := by
  induction as with
  | nil => simp [ofBits]
  | cons a as ih =>
      simp only [List.cons_append, ofBits, List.length_append, ih]
      split <;> ring

theorem coeff_ofBits (bs : List Bool) (i : Nat) :
    (ofBits bs).coeff i = if bs.reverse[i]? = some true then 1 else 0 := by
  induction bs with
  | nil => simp [ofBits]
  | cons b bs ih =>
      have hb : (if b then (X : (ZMod 2)[X]) ^ bs.length else 0).coeff i =
          if i = bs.length ∧ b then 1 else 0 := by
        split <;> simp [coeff_X_pow, *]
      rw [ofBits, coeff_add, ih, hb, List.reverse_cons, List.getElem?_append, List.length_reverse]
      by_cases hi : i < bs.length
      · simp [hi, hi.ne]
      · rw [List.getElem?_eq_none (l := bs.reverse) (by simpa using hi)]
        by_cases heq : i = bs.length
        · subst heq; simp
        · simp [hi, heq, show i - bs.length ≠ 0 by omega]

/-- The bits of a word, the most significant one first. -/
def msbFirst (x : BitVec w) : List Bool := (List.range w).map x.getMsbD

@[simp] theorem length_msbFirst (x : BitVec w) : (msbFirst x).length = w := by simp [msbFirst]

theorem ofBits_msbFirst (x : BitVec w) : ofBits (msbFirst x) = toPoly x := by
  ext i
  rw [coeff_ofBits, coeff_toPoly]
  by_cases hi : i < w
  · rw [List.getElem?_reverse (by simpa using hi), length_msbFirst, BitVec.getLsbD_eq_getMsbD]
    simp [msbFirst, hi, show w - 1 - i < w by omega]
  · rw [List.getElem?_eq_none (by simpa using hi), BitVec.getLsbD_of_ge x i (by omega)]
    simp

/-! ## The register -/

section Register

variable (g : BitVec w)

/-- The generator whose coefficients below `X ^ w` are the bits of `g`. -/
noncomputable def generator : (ZMod 2)[X] := X ^ w + toPoly g

theorem generator_monic : (generator g).Monic := monic_X_pow_add (degree_toPoly_lt g)

theorem degree_generator : (generator g).degree = w := by
  rw [generator, degree_add_eq_left_of_degree_lt, degree_X_pow]
  rw [degree_X_pow]
  exact degree_toPoly_lt g

/-- One place to the left; the bit that falls out comes back as `g`. -/
def shift (c : BitVec w) : BitVec w := if c.msb then (c <<< 1) ^^^ g else c <<< 1

/-- A register of `w` bits takes in a word of `v` bits at its upper end. -/
def feed (c : BitVec w) (x : BitVec v) : BitVec w :=
  (shift g)^[v] (c ^^^ (x.setWidth w <<< (w - v)))

variable {g}

theorem toPoly_mod (x : BitVec w) : toPoly x %ₘ generator g = toPoly x :=
  (modByMonic_eq_self_iff (generator_monic g)).mpr (degree_generator g ▸ degree_toPoly_lt x)

theorem mul_mod_mod (p q : (ZMod 2)[X]) : (p * (q %ₘ generator g)) %ₘ generator g =
    (p * q) %ₘ generator g := by
  apply modByMonic_eq_of_dvd_sub (generator_monic g)
  rw [← mul_sub]
  exact (dvd_modByMonic_sub q (generator g)).mul_left p

theorem toPoly_shift (hw : 0 < w) (c : BitVec w) :
    toPoly (shift g c) = (X * toPoly c) %ₘ generator g := by
  rw [← toPoly_mod (g := g) (shift g c)]
  apply modByMonic_eq_of_dvd_sub (generator_monic g)
  rw [X_mul_toPoly hw, shift]
  split
  · -- the lost bit and `g` together are the generator
    refine ⟨1, ?_⟩
    rw [toPoly_xor, generator, CharTwo.sub_eq_add]
    have h2 := CharTwo.add_self_eq_zero (toPoly (c <<< 1))
    calc toPoly (c <<< 1) + toPoly g + (toPoly (c <<< 1) + X ^ w)
        = (toPoly (c <<< 1) + toPoly (c <<< 1)) + (X ^ w + toPoly g) := by ring
      _ = (X ^ w + toPoly g) * 1 := by rw [h2, zero_add, mul_one]
  · simp

theorem toPoly_shifts (hw : 0 < w) (n : Nat) (c : BitVec w) :
    toPoly ((shift g)^[n] c) = (X ^ n * toPoly c) %ₘ generator g := by
  induction n with
  | zero => simp [toPoly_mod]
  | succ n ih =>
      rw [Function.iterate_succ_apply', toPoly_shift hw, ih, mul_mod_mod, pow_succ', mul_assoc]

theorem toPoly_feed (hw : 0 < w) (hv : v ≤ w) (c : BitVec w) (x : BitVec v) :
    toPoly (feed g c x) = (X ^ v * toPoly c + X ^ w * toPoly x) %ₘ generator g := by
  rw [feed, toPoly_shifts hw, toPoly_xor, toPoly_setWidth_shiftLeft x (by omega), mul_add,
    ← mul_assoc, ← pow_add, show v + (w - v) = w by omega]

/-- The register holds the remainder of what it was fed, `w` places up. -/
theorem toPoly_foldl_feed (hw : 0 < w) (hv : v ≤ w) (xs : List (BitVec v)) :
    toPoly (xs.foldl (feed g) 0#w) = (ofBits (xs.flatMap msbFirst) * X ^ w) %ₘ generator g := by
  induction xs using List.reverseRecOn with
  | nil => simp [ofBits, toPoly_zero]
  | append_singleton xs x ih =>
      rw [List.foldl_concat, toPoly_feed hw hv, ih, List.flatMap_append, ofBits_append,
        add_modByMonic, mul_mod_mod, ← add_modByMonic]
      simp only [List.flatMap_cons, List.flatMap_nil, List.append_nil, length_msbFirst,
        ofBits_msbFirst]
      congr 1
      ring

/-- A message followed by its own remainder leaves no remainder. -/
theorem foldl_feed_append_self (hw : 0 < w) (hv : v ≤ w) (xs ys : List (BitVec v))
    (hlen : (ys.flatMap msbFirst).length = w)
    (hys : ofBits (ys.flatMap msbFirst) = toPoly (xs.foldl (feed g) 0#w)) :
    (xs ++ ys).foldl (feed g) 0#w = 0#w := by
  apply toPoly_injective
  have hzero : (X ^ w * ofBits (xs.flatMap msbFirst) + ofBits (ys.flatMap msbFirst)) %ₘ
      generator g = 0 := by
    rw [add_modByMonic, hys, toPoly_mod, toPoly_foldl_feed hw hv, mul_comm (X ^ w)]
    exact CharTwo.add_self_eq_zero _
  rw [toPoly_foldl_feed hw hv, List.flatMap_append, ofBits_append, hlen, toPoly_zero, mul_comm,
    ← mul_mod_mod, hzero, mul_zero, zero_modByMonic]

end Register

end DsaStdexec.Lib.Crc

import Mathlib.Data.BitVec

/-!
# Moving ranges of memory

Memory is a function on `w`-bit addresses, and addresses wrap around. `move m src dst n` copies `n`
cells as if through a buffer of its own, so the two ranges may overlap. `write m dst n f` puts `f k`
into the cell at offset `k`, for `n` cells.
-/

namespace DsaStdexec.Lib

variable {w : Nat} {β : Type*}

def move (m : BitVec w → β) (src dst : BitVec w) (n : Nat) : BitVec w → β :=
  fun a => if (a - dst).toNat < n then m (src + (a - dst)) else m a

variable {m : BitVec w → β} {src dst k c : BitVec w} {n : Nat}

theorem move_of_lt {a : BitVec w} (h : (a - dst).toNat < n) :
    move m src dst n a = m (src + (a - dst)) := if_pos h

theorem move_of_le {a : BitVec w} (h : n ≤ (a - dst).toNat) : move m src dst n a = m a :=
  if_neg (Nat.not_lt.mpr h)

@[simp] theorem move_zero : move m src dst 0 = m := by
  funext a; exact move_of_le (Nat.zero_le _)

theorem move_self : move m src src n = m := by
  funext a
  by_cases h : (a - src).toNat < n
  · rw [move_of_lt h, add_sub_cancel]
  · exact move_of_le (Nat.not_lt.mp h)

@[simp] theorem move_const (b : β) : move (fun _ => b) src dst n = fun _ => b := by
  funext a
  by_cases h : (a - dst).toNat < n
  · exact move_of_lt h
  · exact move_of_le (Nat.not_lt.mp h)

/-! ## Ranges that start at an offset -/

theorem toNat_sub_of_lt (h : k.toNat < c.toNat) : (k - c).toNat = 2 ^ w - (c.toNat - k.toNat) := by
  have hc := c.isLt
  rw [BitVec.toNat_sub, Nat.mod_eq_of_lt (by omega)]
  omega

theorem move_before (h1 : k.toNat < c.toNat) (h2 : c.toNat + n ≤ 2 ^ w) :
    move m (src + c) (dst + c) n (dst + k) = m (dst + k) := by
  have hk : (dst + k - (dst + c)).toNat = 2 ^ w - (c.toNat - k.toNat) := by
    rw [add_sub_add_left_eq_sub, toNat_sub_of_lt h1]
  exact move_of_le (by omega)

/-! ## Writing a range -/

def write (m : BitVec w → β) (dst : BitVec w) (n : Nat) (f : Nat → β) : BitVec w → β :=
  fun a => if (a - dst).toNat < n then f (a - dst).toNat else m a

variable {f : Nat → β}

theorem write_of_lt {a : BitVec w} (h : (a - dst).toNat < n) :
    write m dst n f a = f (a - dst).toNat := if_pos h

theorem write_of_le {a : BitVec w} (h : n ≤ (a - dst).toNat) : write m dst n f a = m a :=
  if_neg (Nat.not_lt.mpr h)

theorem write_at {i : Nat} (hi : i < 2 ^ w) : write m dst n f (dst + BitVec.ofNat w i) =
    if i < n then f i else m (dst + BitVec.ofNat w i) := by
  have hoff : (dst + BitVec.ofNat w i - dst).toNat = i := by
    rw [add_sub_cancel_left, BitVec.toNat_ofNat, Nat.mod_eq_of_lt hi]
  split
  · rename_i hlt
    rw [write_of_lt (by rwa [hoff]), hoff]
  · rename_i hge
    exact write_of_le (by rw [hoff]; exact Nat.not_lt.mp hge)

/-- A range that continues another one. -/
theorem write_write {g : Nat → β} {l : Nat} (hn : n ≤ l) (hl : l ≤ 2 ^ w) :
    write (write m dst n f) (dst + BitVec.ofNat w n) (l - n) g =
      write m dst l fun k => if k < n then f k else g (k - n) := by
  funext a
  have hsub : a - (dst + BitVec.ofNat w n) = (a - dst) - BitVec.ofNat w n := sub_add_eq_sub_sub _ _ _
  have ha := (a - dst).isLt
  rcases Nat.lt_or_ge (a - dst).toNat n with hlt | hge
  · -- before the second range, which does not wrap around to it
    have hmod : (BitVec.ofNat w n).toNat = n ∨ n = 2 ^ w := by
      rw [BitVec.toNat_ofNat]
      rcases Nat.lt_or_eq_of_le (Nat.le_trans hn hl) with h | h
      · exact Or.inl (Nat.mod_eq_of_lt h)
      · exact Or.inr h
    have hout : l - n ≤ (a - (dst + BitVec.ofNat w n)).toNat := by
      rcases hmod with hmod | hmod
      · rw [hsub, toNat_sub_of_lt (by omega), hmod]; omega
      · omega
    rw [write_of_le hout, write_of_lt hlt, write_of_lt (by omega), if_pos hlt]
  · have hmod : (BitVec.ofNat w n).toNat = n := by
      rw [BitVec.toNat_ofNat, Nat.mod_eq_of_lt (by omega)]
    have hoff : (a - (dst + BitVec.ofNat w n)).toNat = (a - dst).toNat - n := by
      rw [hsub, BitVec.toNat_sub_of_le (BitVec.le_def.mpr (by omega)), hmod]
    by_cases hl' : (a - dst).toNat < l
    · rw [write_of_lt (by omega), write_of_lt hl', if_neg (by omega), hoff]
    · rw [write_of_le (by omega), write_of_le (by omega), write_of_le (by omega)]

/-! ## Contents that start again

`restarted f ns` is `f`, started again from its beginning after each of the lengths in `ns`. -/

def restarted (f : Nat → β) : List Nat → Nat → β
  | [], k => f k
  | n :: ns, k => if k < n then f k else restarted f ns (k - n)

/-! ## Ranges that do not overlap -/

/-- The ranges of `n` cells from `a` and from `b` have no cell in common. -/
def Apart (a b : BitVec w) (n : Nat) : Prop :=
  ∀ i j : BitVec w, i.toNat < n → j.toNat < n → a + i ≠ b + j

theorem Apart.le_sub {a b i : BitVec w} (h : Apart a b n) (hi : i.toNat < n) :
    n ≤ (a + i - b).toNat := by
  by_contra hlt
  exact h i (a + i - b) hi (Nat.not_le.mp hlt) (add_sub_cancel b (a + i)).symm

theorem apart_of_le {a b : BitVec w} (h1 : n ≤ (b - a).toNat) (h2 : n ≤ (a - b).toNat) :
    Apart a b n := by
  intro i j hi hj he
  rcases Nat.le_total j.toNat i.toNat with hle | hle
  · have hba : b - a = i - j := by
      rw [sub_eq_sub_iff_add_eq_add, add_comm i a, he]
    rw [hba, BitVec.toNat_sub_of_le (BitVec.le_def.mpr hle)] at h1
    omega
  · have hab : a - b = j - i := by
      rw [sub_eq_sub_iff_add_eq_add, add_comm j b, he]
    rw [hab, BitVec.toNat_sub_of_le (BitVec.le_def.mpr hle)] at h2
    omega

theorem Apart.symm {a b : BitVec w} (h : Apart a b n) : Apart b a n :=
  fun i j hi hj he => h j i hj hi he.symm

/-- The parts of the two ranges behind the same offset do not overlap either. -/
theorem Apart.drop {a b : BitVec w} (h : Apart a b n) (hc : c.toNat ≤ n) (hn : n ≤ 2 ^ w) :
    Apart (a + c) (b + c) (n - c.toNat) := by
  have hsum : ∀ i : BitVec w, i.toNat < n - c.toNat → (c + i).toNat < n := by
    intro i hi
    rw [BitVec.toNat_add, Nat.mod_eq_of_lt (by omega)]
    omega
  intro i j hi hj
  rw [add_assoc, add_assoc]
  exact h _ _ (hsum i hi) (hsum j hj)

end DsaStdexec.Lib

import Mathlib.Data.List.Basic

/-!
# A range that is worked off from both ends

A range is its start and its length. A cut takes some positions off the front or off the back, and the
next cut works on what is left. `ranges` are the ranges before each cut and after the last one, `pieces`
what each cut takes off, and then the rest.
-/

namespace DsaStdexec.Lib

def InRange (k : Nat) (r : Nat × Nat) : Prop := r.1 ≤ k ∧ k < r.1 + r.2

/-- `r` is a part of `q`. -/
def Inside (r q : Nat × Nat) : Prop := q.1 ≤ r.1 ∧ r.1 + r.2 ≤ q.1 + q.2

theorem Inside.trans {p q r : Nat × Nat} (h : Inside p q) (h' : Inside q r) : Inside p r :=
  ⟨Nat.le_trans h'.1 h.1, Nat.le_trans h.2 h'.2⟩

inductive Cut where
  | front (n : Nat)
  | back (n : Nat)

namespace Cut

def size : Cut → Nat
  | front n | back n => n

def taken (r : Nat × Nat) : Cut → Nat × Nat
  | front n => (r.1, n)
  | back n => (r.1 + (r.2 - n), n)

def rest (r : Nat × Nat) : Cut → Nat × Nat
  | front n => (r.1 + n, r.2 - n)
  | back n => (r.1, r.2 - n)

variable {r : Nat × Nat} {c : Cut} {k : Nat}

theorem rest_inside (h : c.size ≤ r.2) : Inside (c.rest r) r := by
  cases c <;> simp only [size, rest, Inside] at * <;> omega

theorem inRange_iff (h : c.size ≤ r.2) : InRange k r ↔ InRange k (c.taken r) ∨ InRange k (c.rest r) := by
  cases c <;> simp only [size, taken, rest, InRange] at * <;> omega

theorem not_both (h : c.size ≤ r.2) (ht : InRange k (c.taken r)) : ¬ InRange k (c.rest r) := by
  cases c <;> simp only [size, taken, rest, InRange] at * <;> omega

def ranges : Nat × Nat → List Cut → List (Nat × Nat)
  | r, [] => [r]
  | r, c :: cs => r :: ranges (c.rest r) cs

def pieces : Nat × Nat → List Cut → List (Nat × Nat)
  | r, [] => [r]
  | r, c :: cs => c.taken r :: pieces (c.rest r) cs

def Fits : Nat × Nat → List Cut → Prop
  | _, [] => True
  | r, c :: cs => c.size ≤ r.2 ∧ Fits (c.rest r) cs

variable {cs : List Cut}

theorem ranges_head : (ranges r cs)[0]? = some r := by
  cases cs <;> rfl

theorem Fits.inside (h : Fits r cs) : ∀ q ∈ ranges r cs, Inside q r := by
  induction cs generalizing r with
  | nil =>
      intro q hq
      cases List.mem_singleton.mp hq
      exact ⟨Nat.le_refl _, Nat.le_refl _⟩
  | cons c cs ih =>
      intro q hq
      rcases List.mem_cons.mp hq with rfl | hq
      · exact ⟨Nat.le_refl _, Nat.le_refl _⟩
      · exact (ih h.2 q hq).trans (rest_inside h.1)

/-- Every range but the first is what its cut has left of the one before. -/
theorem Fits.next (h : Fits r cs) {i : Nat} {p q : Nat × Nat} (hp : (ranges r cs)[i]? = some p)
    (hq : (ranges r cs)[i + 1]? = some q) : ∃ c, cs[i]? = some c ∧ c.size ≤ p.2 ∧ q = c.rest p := by
  induction cs generalizing r i with
  | nil => simp [ranges] at hq
  | cons c cs ih =>
      cases i with
      | zero =>
          cases hp
          rw [ranges, List.getElem?_cons_succ, ranges_head] at hq
          cases hq
          exact ⟨c, rfl, h.1, rfl⟩
      | succ i => exact ih h.2 hp hq

theorem Fits.piece_inside (h : Fits r cs) {i : Nat} {p : Nat × Nat} (hp : (pieces r cs)[i]? = some p)
    (hk : InRange k p) : InRange k r := by
  induction cs generalizing r i with
  | nil =>
      cases i with
      | zero => cases hp; exact hk
      | succ i => simp [pieces] at hp
  | cons c cs ih =>
      cases i with
      | zero => cases hp; exact (inRange_iff h.1).mpr (Or.inl hk)
      | succ i => exact (inRange_iff h.1).mpr (Or.inr (ih h.2 hp))

/-- Every position lies in exactly one piece. -/
theorem Fits.existsUnique (h : Fits r cs) (hk : InRange k r) :
    ∃! j : Nat, ∃ p, (pieces r cs)[j]? = some p ∧ InRange k p := by
  induction cs generalizing r with
  | nil =>
      refine ⟨0, ⟨r, rfl, hk⟩, ?_⟩
      rintro (_ | j) ⟨p, hp, _⟩
      · rfl
      · simp [pieces] at hp
  | cons c cs ih =>
      rcases (inRange_iff h.1).mp hk with ht | hr
      · refine ⟨0, ⟨_, rfl, ht⟩, ?_⟩
        rintro (_ | j) ⟨p, hp, hkp⟩
        · rfl
        · exact absurd (h.2.piece_inside hp hkp) (not_both h.1 ht)
      · obtain ⟨j, ⟨p, hp, hkp⟩, huniq⟩ := ih h.2 hr
        refine ⟨j + 1, ⟨p, hp, hkp⟩, ?_⟩
        rintro (_ | i) ⟨q, hq, hkq⟩
        · cases hq
          exact absurd hr (not_both h.1 hkq)
        · rw [huniq i ⟨q, hq, hkq⟩]

end Cut

end DsaStdexec.Lib

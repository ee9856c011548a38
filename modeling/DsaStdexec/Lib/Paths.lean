import Mathlib.Data.List.Induction
import Mathlib.Logic.Relation

/-!
# Paths without links

A path is walked step by step from a directory, which is the list of its names, the innermost first.
The parent of the root is the root. Where a path leads is compared with how it is spelled: by counting
the names and the steps up, and by the detours that a spelling can have.
-/

namespace DsaStdexec.Lib

inductive PathStep (ν : Type) where
  | stay
  | up
  | down (name : ν)
  deriving DecidableEq

namespace Path

variable {ν : Type}

def move (dir : List ν) : PathStep ν → List ν
  | .stay => dir
  | .up => dir.tail
  | .down name => name :: dir

def walk (dir : List ν) (path : List (PathStep ν)) : List ν := path.foldl move dir

/-- How deep a path ends that begins at depth `k`; `none` if it climbs above its base. -/
def depth : Nat → List (PathStep ν) → Option Nat
  | k, [] => some k
  | k, .stay :: path => depth k path
  | k, .down _ :: path => depth (k + 1) path
  | 0, .up :: _ => none
  | k + 1, .up :: path => depth k path

def names (path : List (PathStep ν)) : List ν :=
  path.filterMap fun
    | .down name => some name
    | _ => none

/-- Strictly inside a directory. -/
def Inside (dir loc : List ν) : Prop := ∃ inner, inner ≠ [] ∧ loc = inner ++ dir

/-- The path comes back to its base without climbing above it, enters `name`, and goes on below it,
with more names than steps up. -/
def Descends (name : ν) (path : List (PathStep ν)) : Prop :=
  ∃ before below k, path = before ++ .down name :: below ∧ depth 0 before = some 0 ∧
    depth 0 below = some (k + 1)

/-- A detour of a path: a step that stays, a name and the way back, or a step up at the root. -/
inductive Detour : List (PathStep ν) → List (PathStep ν) → Prop
  | stay (p q : List (PathStep ν)) : Detour (p ++ .stay :: q) (p ++ q)
  | back (p : List (PathStep ν)) (name : ν) (q : List (PathStep ν)) :
      Detour (p ++ .down name :: .up :: q) (p ++ q)
  | root (q : List (PathStep ν)) : Detour (.up :: q) q

/-- Two spellings of one path: they differ by detours. -/
def Respelled : List (PathStep ν) → List (PathStep ν) → Prop := Relation.EqvGen Detour

/-! ## Walking -/

variable {dir base : List ν} {p q : List (PathStep ν)} {name : ν} {j k : Nat}

theorem walk_append : walk dir (p ++ q) = walk (walk dir p) q := List.foldl_append

theorem depth_append : depth k (p ++ q) = (depth k p).bind fun j => depth j q := by
  induction p generalizing k with
  | nil => rfl
  | cons step p ih =>
      cases step with
      | stay => exact ih
      | down name => exact ih
      | up =>
          cases k with
          | zero => rfl
          | succ k => exact ih

/-- From one level deeper a path ends one level deeper. -/
theorem depth_succ (h : depth k p = some j) : depth (k + 1) p = some (j + 1) := by
  induction p generalizing k with
  | nil => exact congrArg (fun o => o.map (· + 1)) h
  | cons step p ih =>
      cases step with
      | stay => exact ih h
      | down name => exact ih h
      | up =>
          cases k with
          | zero => cases h
          | succ k => exact ih h

/-- A path that does not climb above its base leaves what is above the base alone. -/
theorem walk_base (h : depth dir.length p = some j) :
    walk (dir ++ base) p = walk dir p ++ base ∧ (walk dir p).length = j := by
  induction p generalizing dir with
  | nil => exact ⟨rfl, Option.some.inj h⟩
  | cons step p ih =>
      cases step with
      | stay => exact ih h
      | down name =>
          have h' : depth (name :: dir).length p = some j := h
          exact ih h'
      | up =>
          cases dir with
          | nil => cases h
          | cons name dir => exact ih h

theorem walk_from (h : depth 0 p = some j) : walk base p = walk [] p ++ base := by
  have h' : depth (List.length ([] : List ν)) p = some j := h
  exact (walk_base h').1

theorem length_walk (h : depth 0 p = some j) : (walk [] p).length = j := by
  have h' : depth (List.length ([] : List ν)) p = some j := h
  exact (@walk_base _ _ [] _ _ h').2

theorem mem_walk {x : ν} (h : x ∈ walk dir p) : x ∈ dir ∨ x ∈ names p := by
  induction p generalizing dir with
  | nil => exact Or.inl h
  | cons step p ih =>
      cases step with
      | stay => exact ih h
      | up => exact (ih h).imp_left List.mem_of_mem_tail
      | down name =>
          rcases ih h with hd | hn
          · rcases List.mem_cons.mp hd with rfl | hd
            · exact Or.inr List.mem_cons_self
            · exact Or.inl hd
          · exact Or.inr (List.mem_cons_of_mem _ hn)

/-- A path that climbs above its base does not come back to a base it does not name. -/
theorem not_mem_walk {r : ν} (h : depth dir.length p = none) (hdir : r ∉ dir) (hp : r ∉ names p) :
    r ∉ walk (dir ++ [r]) p := by
  induction p generalizing dir with
  | nil => cases h
  | cons step p ih =>
      cases step with
      | stay => exact ih h hdir hp
      | down name =>
          have h' : depth (name :: dir).length p = none := h
          have hp' : r ∉ name :: names p := hp
          rw [List.mem_cons, not_or] at hp'
          exact ih h' (List.not_mem_cons_of_ne_of_not_mem hp'.1 hdir) hp'.2
      | up =>
          cases dir with
          | nil =>
              intro hmem
              have hmem : r ∈ walk [] p := hmem
              rcases mem_walk hmem with hnil | hp'
              · cases hnil
              · exact hp hp'
          | cons name dir => exact ih h (List.not_mem_of_not_mem_cons hdir) hp

/-! ## Confinement -/

/-- The last time that a path leaves its base. -/
theorem descends_split {x : ν} {inner : List ν} (h : depth 0 p = some j) (hw : walk [] p = inner ++ [x]) :
    ∃ before below, p = before ++ .down x :: below ∧ depth 0 before = some 0 ∧
      depth 0 below = some inner.length := by
  induction p using List.reverseRecOn generalizing inner j with
  | nil => simp [walk] at hw
  | append_singleton p step ih =>
      rw [depth_append] at h
      obtain ⟨i, hi, hstep⟩ := Option.bind_eq_some_iff.mp h
      have hlen := length_walk hi
      rw [walk_append] at hw
      cases step with
      | stay =>
          obtain ⟨before, below, rfl, hb, hd⟩ := ih hi hw
          refine ⟨before, below ++ [.stay], by simp, hb, ?_⟩
          rw [depth_append, hd]
          rfl
      | down name =>
          change name :: walk [] p = inner ++ [x] at hw
          cases inner with
          | nil =>
              obtain ⟨rfl, hnil⟩ := List.cons.inj hw
              refine ⟨p, [], rfl, ?_, rfl⟩
              rw [hi, ← hlen, hnil]
              rfl
          | cons n inner =>
              rw [List.cons_append] at hw
              obtain ⟨rfl, hrest⟩ := List.cons.inj hw
              obtain ⟨before, below, rfl, hb, hd⟩ := ih hi hrest
              refine ⟨before, below ++ [.down name], by simp, hb, ?_⟩
              rw [depth_append, hd]
              rfl
      | up =>
          change (walk [] p).tail = inner ++ [x] at hw
          cases hp : walk [] p with
          | nil =>
              rw [hp] at hw
              simp at hw
          | cons n rest =>
              rw [hp, List.tail_cons] at hw
              subst hw
              obtain ⟨before, below, rfl, hb, hd⟩ := ih hi (hp.trans (List.cons_append ..).symm)
              refine ⟨before, below ++ [.up], by simp, hb, ?_⟩
              rw [depth_append, hd]
              rfl

theorem Descends.inside (h : Descends name p) : Inside (name :: base) (walk base p) := by
  obtain ⟨before, below, k, rfl, hb, hd⟩ := h
  have hnil : walk [] before = [] := List.eq_nil_of_length_eq_zero (length_walk hb)
  refine ⟨walk [] below, ?_, ?_⟩
  · intro hnil
    have := length_walk hd
    rw [hnil] at this
    cases this
  · rw [walk_append, walk_from hb, hnil]
    exact walk_from hd

theorem Descends.depth_eq (h : Descends name p) : ∃ j, depth 0 p = some j := by
  obtain ⟨before, below, k, rfl, hb, hd⟩ := h
  refine ⟨k + 1 + 1, ?_⟩
  rw [depth_append, hb]
  exact depth_succ hd

/-- A path leads strictly inside `name` from every base if and only if it descends into it. There is
always a base with a name that the path does not have. -/
theorem inside_iff_descends {Valid : ν → Prop} (hfresh : ∀ avoid : List ν, ∃ r, Valid r ∧ r ∉ avoid) :
    (∀ base, (∀ n ∈ base, Valid n) → Inside (name :: base) (walk base p)) ↔ Descends name p := by
  constructor
  · intro h
    obtain ⟨r, hr, hne⟩ := hfresh (names p)
    obtain ⟨inner, hinner, hw⟩ := h [r] (by simpa using hr)
    cases hd : depth 0 p with
    | none =>
        have hnot : r ∉ walk ([] ++ [r]) p := not_mem_walk hd List.not_mem_nil hne
        rw [List.nil_append, hw] at hnot
        simp at hnot
    | some j =>
        rw [walk_from hd, show inner ++ name :: [r] = (inner ++ [name]) ++ [r] by simp] at hw
        obtain ⟨before, below, hp, hb, hbelow⟩ := descends_split hd (List.append_cancel_right hw)
        obtain ⟨k, hk⟩ : ∃ k, inner.length = k + 1 :=
          Nat.exists_eq_succ_of_ne_zero (fun h0 => hinner (List.eq_nil_of_length_eq_zero h0))
        exact ⟨before, below, k, hp, hb, hk ▸ hbelow⟩
  · exact fun h base _ => h.inside

/-! ## Spelling -/

theorem walk_detour (h : Detour p q) : walk [] p = walk [] q := by
  cases h with
  | stay p q => simp only [walk_append]; rfl
  | back p name q => simp only [walk_append]; rfl
  | root q => rfl

theorem Detour.append (h : Detour p q) (rest : List (PathStep ν)) : Detour (p ++ rest) (q ++ rest) := by
  cases h with
  | stay p q =>
      simp only [List.append_assoc, List.cons_append]
      exact .stay p (q ++ rest)
  | back p name q =>
      simp only [List.append_assoc, List.cons_append]
      exact .back p name (q ++ rest)
  | root q => exact .root (q ++ rest)

theorem Respelled.append (h : Respelled p q) (rest : List (PathStep ν)) :
    Respelled (p ++ rest) (q ++ rest) := by
  induction h with
  | rel p q h => exact .rel _ _ (h.append rest)
  | refl p => exact .refl _
  | symm p q _ ih => exact .symm _ _ ih
  | trans p q r _ _ ih₁ ih₂ => exact .trans _ _ _ ih₁ ih₂

/-- The path without detours. -/
def plain (dir : List ν) : List (PathStep ν) := dir.reverse.map .down

theorem walk_plain (dir : List ν) : walk [] (plain dir) = dir := by
  induction dir with
  | nil => rfl
  | cons name dir ih =>
      have hplain : plain (name :: dir) = plain dir ++ [.down name] := by simp [plain]
      rw [hplain, walk_append, ih]
      rfl

/-- Every path is a spelling of the plain path to where it leads. -/
theorem respelled_plain (p : List (PathStep ν)) : Respelled p (plain (walk [] p)) := by
  induction p using List.reverseRecOn with
  | nil => exact .refl _
  | append_singleton p step ih =>
      refine .trans _ _ _ (ih.append [step]) ?_
      rw [walk_append]
      cases step with
      | stay =>
          have h := Detour.stay (plain (walk [] p)) []
          rw [List.append_nil] at h
          exact .rel _ _ h
      | down name =>
          have h : plain (walk [] p) ++ [.down name] = plain (name :: walk [] p) := by simp [plain]
          rw [h]
          exact .refl _
      | up =>
          change Respelled (plain (walk [] p) ++ [.up]) (plain (walk [] p).tail)
          cases walk [] p with
          | nil => exact .rel _ _ (.root [])
          | cons name dir =>
              have h := Detour.back (plain dir) name []
              rw [List.append_nil] at h
              have hplain : plain (name :: dir) ++ [.up] = plain dir ++ [.down name, .up] := by simp [plain]
              rw [hplain]
              exact .rel _ _ h

theorem respelled_iff : Respelled p q ↔ walk [] p = walk [] q := by
  constructor
  · intro h
    induction h with
    | rel p q h => exact walk_detour h
    | refl p => rfl
    | symm p q _ ih => exact ih.symm
    | trans p q r _ _ ih₁ ih₂ => exact ih₁.trans ih₂
  · intro h
    have hq := respelled_plain q
    rw [← h] at hq
    exact .trans _ _ _ (respelled_plain p) (.symm _ _ hq)

end Path

end DsaStdexec.Lib

import Mathlib.Data.Fintype.Basic
import Mathlib.Data.List.Nodup
import Mathlib.Data.List.Perm.Basic

/-!
# What finitely many parties hold together

Each party has a list. A step of one party changes the list of that party alone, and the lists of the
others are the same part of the whole before and after it.
-/

namespace DsaStdexec.Lib

variable {T α : Type*} [Fintype T] {f g : T → List α} {t : T} {a : α}

noncomputable def gather (f : T → List α) : List α := Finset.univ.toList.flatMap f

theorem mem_gather : a ∈ gather f ↔ ∃ t, a ∈ f t := by simp [gather]

theorem gather_eq_nil (h : ∀ t, f t = []) : gather f = [] := by
  simp [gather, h]

variable [DecidableEq T]

/-- What all parties but `t` hold. -/
noncomputable def gatherOthers (t : T) (f : T → List α) : List α := (Finset.univ.toList.erase t).flatMap f

theorem gather_perm (t : T) (f : T → List α) : (gather f).Perm (f t ++ gatherOthers t f) := by
  have h : (Finset.univ (α := T)).toList.Perm (t :: Finset.univ.toList.erase t) :=
    List.perm_cons_erase (by simp)
  exact h.flatMap_right f

theorem ne_of_mem_erase_univ {u : T} (hu : u ∈ (Finset.univ (α := T)).toList.erase t) : u ≠ t := by
  rintro rfl
  exact (Finset.nodup_toList _).not_mem_erase hu

theorem mem_gatherOthers {u : T} (hu : u ≠ t) (ha : a ∈ f u) : a ∈ gatherOthers t f := by
  refine List.mem_flatMap.mpr ⟨u, ?_, ha⟩
  exact (List.mem_erase_of_ne hu).mpr (by simp)

theorem gatherOthers_congr (h : ∀ u, u ≠ t → f u = g u) : gatherOthers t f = gatherOthers t g := by
  refine List.flatMap_congr fun u hu => h u (ne_of_mem_erase_univ hu)

theorem gatherOthers_eq_nil (h : ∀ u, u ≠ t → f u = []) : gatherOthers t f = [] := by
  rw [gatherOthers, List.flatMap_eq_nil_iff]
  exact fun u hu => h u (ne_of_mem_erase_univ hu)

end DsaStdexec.Lib

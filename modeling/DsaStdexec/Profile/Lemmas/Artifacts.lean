import DsaStdexec.Profile.Lemmas.Families
import Mathlib.Data.Set.Finite.Basic

/-!
# Where the artifacts of a manifest lead

An accepted artifact begins with the directory of its family, so it is relative to the run root. What it
is below that directory is not checked.
-/

namespace DsaStdexec.Profile

open DsaStdexec.Lib

/-! ## Names -/

def longName (n : Nat) : String := String.ofList (List.replicate (n + 3) 'a')

theorem longName_injective : Function.Injective longName := by
  intro m n h
  have hlen := congrArg (fun s => s.toList.length) h
  simpa [longName] using hlen

theorem isName_longName (n : Nat) : IsName (longName n) := by
  have hlist : (longName n).toList = List.replicate (n + 3) 'a' := String.toList_ofList
  have hne : ∀ s : String, s.toList.length < 3 → longName n ≠ s := by
    rintro s hs rfl
    rw [hlist, List.length_replicate] at hs
    omega
  constructor
  · rw [stepOf, if_neg, if_neg (hne ".." (by decide))]
    rintro (h | h)
    · exact hne "" (by decide) h
    · exact hne "." (by decide) h
  · rw [hlist]
    simp

/-- There is always another name. -/
theorem exists_name (avoid : List String) : ∃ name, IsName name ∧ name ∉ avoid := by
  obtain ⟨_, ⟨n, rfl⟩, hn⟩ :=
    (Set.infinite_range_of_injective longName_injective).exists_notMem_finset avoid.toFinset
  exact ⟨longName n, isName_longName n, by simpa using hn⟩

namespace Contract

variable {family : RunFamily} {raw : String}

theorem not_isAbsolute_of_under (h : family.under.toList <+: raw.toList) :
    (PurePath.ofString raw).isAbsolute = false := by
  obtain ⟨rest, hrest⟩ := h
  have htake : raw.toList.takeWhile (· = '/') = [] := by
    rw [← hrest]
    cases family <;> rfl
  simp [PurePath.ofString, PurePath.isAbsolute, htake]

theorem locate_of_under (h : family.under.toList <+: raw.toList) (root : List String) :
    locate root raw = Path.walk root (steps raw) := by
  rw [locate, not_isAbsolute_of_under h]
  rfl

/-! ## Confinement -/

/-- Below every run root, the artifacts lie strictly inside the directory of their family, and those of
different entries are different files. -/
def Confined (manifest : Manifest) : Prop :=
  ∀ root : List String, (∀ name ∈ root, IsName name) →
    (∀ family ∈ manifest.artifactFamilies, ∀ entry ∈ family.endpointReports,
      Path.Inside (family.runFamily.selectedPath :: root) (locate root entry.artifact)) ∧
    ∀ family ∈ manifest.artifactFamilies, ∀ entry ∈ family.endpointReports,
      ∀ family' ∈ manifest.artifactFamilies, ∀ entry' ∈ family'.endpointReports,
        (family.runFamily, entry.pair) ≠ (family'.runFamily, entry'.pair) →
          locate root entry.artifact ≠ locate root entry'.artifact

/-- The artifacts descend into the directory of their family, and those of different entries are not
two spellings of one path. -/
structure WellSpelled (manifest : Manifest) : Prop where
  descends : ∀ family ∈ manifest.artifactFamilies, ∀ entry ∈ family.endpointReports,
    Path.Descends family.runFamily.selectedPath (steps entry.artifact)
  distinct : ∀ family ∈ manifest.artifactFamilies, ∀ entry ∈ family.endpointReports,
    ∀ family' ∈ manifest.artifactFamilies, ∀ entry' ∈ family'.endpointReports,
      (family.runFamily, entry.pair) ≠ (family'.runFamily, entry'.pair) →
        ¬ Path.Respelled (steps entry.artifact) (steps entry'.artifact)

/-- Of two paths that stay below their base, where they lead does not depend on the base. -/
theorem walk_eq_iff {p q : List (PathStep String)} {name name' : String} (hp : Path.Descends name p)
    (hq : Path.Descends name' q) (root : List String) :
    Path.walk root p = Path.walk root q ↔ Path.Respelled p q := by
  obtain ⟨_, hp⟩ := hp.depth_eq
  obtain ⟨_, hq⟩ := hq.depth_eq
  rw [Path.walk_from hp, Path.walk_from hq, List.append_left_inj, Path.respelled_iff]

theorem confined_iff {manifest : Manifest} (h : Accepted manifest) :
    Confined manifest ↔ WellSpelled manifest := by
  constructor
  · intro hconf
    have hdesc : ∀ family ∈ manifest.artifactFamilies, ∀ entry ∈ family.endpointReports,
        Path.Descends family.runFamily.selectedPath (steps entry.artifact) := by
      intro family hf entry he
      refine (Path.inside_iff_descends exists_name).mp fun root hroot => ?_
      rw [← locate_of_under (h.under family hf entry he)]
      exact (hconf root hroot).1 family hf entry he
    refine ⟨hdesc, ?_⟩
    intro family hf entry he family' hf' entry' he' hne hsame
    refine (hconf [] (by simp)).2 family hf entry he family' hf' entry' he' hne ?_
    rw [locate_of_under (h.under family hf entry he), locate_of_under (h.under family' hf' entry' he')]
    exact (walk_eq_iff (hdesc family hf entry he) (hdesc family' hf' entry' he') []).mpr hsame
  · intro hspelled root _
    constructor
    · intro family hf entry he
      rw [locate_of_under (h.under family hf entry he)]
      exact (hspelled.descends family hf entry he).inside
    · intro family hf entry he family' hf' entry' he' hne hsame
      rw [locate_of_under (h.under family hf entry he), locate_of_under (h.under family' hf' entry' he')]
        at hsame
      exact hspelled.distinct family hf entry he family' hf' entry' he' hne
        ((walk_eq_iff (hspelled.descends family hf entry he) (hspelled.descends family' hf' entry' he')
          root).mp hsame)

end Contract

end DsaStdexec.Profile

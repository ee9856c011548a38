import DsaStdexec.Profile.Lemmas.Evidence
import DsaStdexec.Profile.PackageTheorems

/-!
# The reports of the evidence runners
-/

namespace DsaStdexec.Profile.Evidence

open DsaStdexec.Lib Contract Package

variable {F : Type} (py : Python F) (files : Files F)

/-- The artifacts of an accepted manifest are different files, and every report is in place when it is
read, if and only if no two workloads share a name and no two different names are spellings of one path,
which is what `load_manifest` does not check. Reports that are all in place have different files. -/
theorem reports_kept (runner : Runner) (path : PurePath) {jobs : List Job}
    (h : runner.jobs py files path = .ok jobs) (outputDir : List String) (order : Job → Bool)
    (before : Store) :
    (Distinct outputDir jobs ∧ InPlace outputDir jobs order before ↔
      Unshared jobs ∧ Unaliased outputDir jobs) ∧
      (InPlace outputDir jobs order before → Distinct outputDir jobs) := by
  have hkeys := Runner.nodup_keys h
  refine ⟨?_, distinct_of_inPlace hkeys⟩
  rw [← distinct_iff hkeys (Runner.ownNames h)]
  exact ⟨fun hkept => hkept.1, fun hdistinct => ⟨hdistinct, inPlace_of_distinct hdistinct⟩⟩

/-- An S02 manifest of two workloads, with the given stems of their artifacts. -/
def matrix (stems : List String) : Value Unit :=
  .object [("expected_benchmarks", .array (S02.expectedBenchmarks.map text)),
    ("defaults", .object ((["warmup_ms", "measure_ms", "requests", "concurrency", "payload_size"].map
      fun field => (field, .number (.int 1))) ++
        ["runtime", "compression", "buffer_policy", "payload_kind"].map fun field => (field, text "any"))),
    ("workloads", .array ((stems.zip requiredLabels).map fun (stem, label) =>
      .object [("label", text label), ("rpc", text "unary-bytes"),
        ("endpoint_artifacts", .object [("off", pair (stem ++ "off-")), ("on", pair (stem ++ "on-"))])]))]

def matrixJobs (stems : List String) : Except PyError (List Job) :=
  Runner.s02.jobs python ⟨fun _ => .value (matrix stems), fun _ => .ok true⟩ manifestPath

theorem reports_kept_matrix : ∃ jobs, matrixJobs ["bytes-", "proto-"] = .ok jobs ∧
    Distinct ["out"] jobs ∧ ∀ order before, InPlace ["out"] jobs order before := by
  have h : (matrixJobs ["bytes-", "proto-"]).toOption.any (fun jobs =>
      decide ((∀ a ∈ reports jobs, ∀ b ∈ reports jobs, a.1.label ≠ b.1.label → a.2 ≠ b.2) ∧
        ∀ a ∈ artifactNames jobs, ∀ b ∈ artifactNames jobs, a ≠ b →
          locate ["out"] a ≠ locate ["out"] b)) = true := by decide +kernel
  obtain ⟨jobs, hjobs, hdecide⟩ := exists_of_any h
  obtain ⟨hshared, hpaths⟩ := of_decide_eq_true hdecide
  have hunaliased : Unaliased ["out"] jobs := fun a ha b hb hne hsame =>
    hpaths a ha b hb hne (locate_eq_iff.mpr hsame)
  have hkept := fun order before =>
    (reports_kept _ _ _ _ hjobs ["out"] order before).1.mpr ⟨hshared, hunaliased⟩
  exact ⟨jobs, hjobs, (hkept (fun _ => true) fun _ => none).1, fun order before => (hkept order before).2⟩

/-- Both workloads name the same artifacts. -/
theorem reports_overwritten : ∃ jobs, matrixJobs ["", ""] = .ok jobs ∧ ¬ Distinct ["out"] jobs ∧
    ∀ order before, ¬ InPlace ["out"] jobs order before := by
  have h : (matrixJobs ["", ""]).toOption.any
      (fun jobs => decide ¬ ((artifactNames jobs).map (locate ["out"])).Nodup) = true := by decide +kernel
  obtain ⟨jobs, hjobs, hdup⟩ := exists_of_any h
  rw [decide_eq_true_eq] at hdup
  have hnot : ¬ Distinct ["out"] jobs := hdup
  exact ⟨jobs, hjobs, hnot, fun order before hplace =>
    hnot (distinct_of_inPlace (Runner.nodup_keys hjobs) hplace)⟩

end DsaStdexec.Profile.Evidence

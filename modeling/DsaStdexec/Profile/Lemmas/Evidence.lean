import DsaStdexec.Profile.Evidence
import DsaStdexec.Profile.Lemmas.Contract
import Mathlib.Data.List.Nodup

/-!
# The reports of a run

The labels of an accepted manifest are distinct, so every report of a run has an identity of its own. A
report is in place after the run if nothing else was written to its location.
-/

namespace DsaStdexec.Profile.Evidence

open DsaStdexec.Lib Contract

variable {F : Type} {py : Python F} {files : Files F}

/-! ## Labels and names -/

theorem checkNamed_label {phase scope : String} {seen : List String} {entry : Dict F} {named : Named F}
    (h : checkNamed py phase scope seen entry = .ok named) : named.label ∉ seen := by
  simp only [checkNamed, bind_ok_iff, ensure_ok_iff, pure_ok_iff] at h
  obtain ⟨label, -, -, hnew, rpc, -, artifacts, -, rfl⟩ := h
  exact hnew

theorem validatePair_names {phase scope : String} {seen : List String} {obj : Dict F} {pair : Pair}
    (h : validatePair py phase scope seen obj = .ok pair) :
    pair.client ∉ seen ∧ pair.server ∉ pair.client :: seen := by
  simp only [validatePair, validateRole, bind_ok_iff, ensure_ok_iff, pure_ok_iff] at h
  obtain ⟨_, ⟨client, -, -, hclient, rfl⟩, _, ⟨server, -, -, hserver, rfl⟩, rfl⟩ := h
  exact ⟨hclient, hserver⟩

theorem S02.names_injective {index : Nat} {label : String} {obj : Dict F} {pairs : ModePairs}
    (h : S02.validateEndpointArtifacts py index label obj = .ok pairs) :
    Function.Injective fun key : Instrumentation × EndpointRole => (pairs.get key.1).get key.2 := by
  simp only [S02.validateEndpointArtifacts, bind_ok_iff, pure_ok_iff] at h
  obtain ⟨_, -, off, hoff, _, -, on, hon, rfl⟩ := h
  have hoff := validatePair_names hoff
  have hon := validatePair_names hon
  simp only [List.mem_cons, List.not_mem_nil, not_or, or_false] at hoff hon
  rintro ⟨mode, role⟩ ⟨mode', role'⟩ he
  cases mode <;> cases role <;> cases mode' <;> cases role' <;> simp_all [ModePairs.get, Pair.get, eq_comm]

theorem S03.names_injective {index : Nat} {label : String} {obj : Dict F} {pair : Pair}
    (h : S03.validateEndpointArtifacts py index label obj = .ok pair) : Function.Injective pair.get := by
  obtain ⟨-, hserver⟩ := validatePair_names h
  rw [List.mem_cons, not_or] at hserver
  rintro role role' he
  cases role <;> cases role' <;> simp_all [Pair.get, eq_comm]

/-- The validated workloads have different labels, and the artifacts of each of them have different names. -/
structure Loaded {A K : Type} (name : A → K → String) (workloads : List (Workload F A)) : Prop where
  labels : (workloads.map Workload.label).Nodup
  names : ∀ workload ∈ workloads, Function.Injective (name workload.endpointArtifacts)

section Loaded

variable {A K : Type} {name : A → K → String} {workloads : List (Workload F A)}

theorem loaded_nil : Loaded name ([] : List (Workload F A)) := ⟨List.nodup_nil, nofun⟩

theorem Loaded.concat (h : Loaded name workloads) {workload : Workload F A}
    (hnew : workload.label ∉ workloads.map Workload.label)
    (hnames : Function.Injective (name workload.endpointArtifacts)) :
    Loaded name (workloads ++ [workload]) := by
  refine ⟨?_, fun w hw => ?_⟩
  · rw [List.map_append, List.map_singleton, ← List.concat_eq_append]
    exact List.Nodup.concat hnew h.labels
  · rcases List.mem_append.mp hw with hw | hw
    · exact h.names w hw
    · exact List.mem_singleton.mp hw ▸ hnames

theorem Loaded.key_eq (h : Loaded name workloads) (key key' : K) {w w' : Workload F A} (hw : w ∈ workloads)
    (hw' : w' ∈ workloads) (hlabel : w.label = w'.label)
    (hname : name w.endpointArtifacts key = name w'.endpointArtifacts key') : key = key' := by
  obtain rfl := List.inj_on_of_nodup_map h.labels hw hw' hlabel
  exact h.names w hw hname

end Loaded

theorem S02.loaded {path : PurePath} {manifest : S02.Manifest F}
    (h : S02.loadManifest py files path = .ok manifest) :
    Loaded (fun pairs (key : Instrumentation × EndpointRole) => (ModePairs.get pairs key.1).get key.2)
      manifest.workloads := by
  simp only [S02.loadManifest, bind_ok_iff, pure_ok_iff] at h
  obtain ⟨obj, -, defaults, -, benchmarks, -, validated, -, -, -, entries, -, workloads, hloop, -, -, rfl⟩ := h
  refine checkLoop_invariant (I := Loaded _) ?_ loaded_nil hloop
  intro workloads index entry workloads' hs hstep
  simp only [S02.validateWorkload, bind_ok_iff, pure_ok_iff] at hstep
  obtain ⟨entry, -, named, hnamed, artifacts, hartifacts, -, -, -, -, rfl⟩ := hstep
  exact hs.concat (checkNamed_label hnamed) (S02.names_injective hartifacts)

theorem S03.loaded {path : PurePath} {manifest : S03.Manifest F}
    (h : S03.loadManifest py files path = .ok manifest) : Loaded Pair.get manifest.workloads := by
  simp only [S03.loadManifest, bind_ok_iff, pure_ok_iff] at h
  obtain ⟨obj, -, defaults, -, metadata, -, validated, -, entries, -, workloads, hloop, -, -, rfl⟩ := h
  refine checkLoop_invariant (I := Loaded _) ?_ loaded_nil hloop
  intro workloads index entry workloads' hs hstep
  simp only [S03.validateWorkload, bind_ok_iff, pure_ok_iff] at hstep
  obtain ⟨entry, -, named, hnamed, artifacts, hartifacts, -, -, -, -, -, -, -, -, rfl⟩ := hstep
  exact hs.concat (checkNamed_label hnamed) (S03.names_injective hartifacts)

/-! ## Reports -/

def Job.key (job : Job) : String × Instrumentation := (job.label, job.instrumentation)

theorem S02.nodup_keys {path : PurePath} {manifest : S02.Manifest F}
    (h : S02.loadManifest py files path = .ok manifest) : (manifest.jobs.map Job.key).Nodup := by
  have hkeys : manifest.jobs.map Job.key =
      (manifest.workloads.map Workload.label).product [.off, .on] := by
    simp only [S02.Manifest.jobs, List.product, List.map_flatMap, List.flatMap_map, List.map_map]
    rfl
  rw [hkeys]
  exact (S02.loaded h).labels.product (by decide)

theorem S03.nodup_keys {path : PurePath} {manifest : S03.Manifest F}
    (h : S03.loadManifest py files path = .ok manifest) : (manifest.jobs.map Job.key).Nodup := by
  have hkeys : manifest.jobs.map Job.key =
      (manifest.workloads.map Workload.label).map fun label => (label, Instrumentation.on) := by
    simp only [S03.Manifest.jobs, List.map_map]
    rfl
  rw [hkeys]
  exact (S03.loaded h).labels.map fun _ _ he => congrArg Prod.fst he

theorem Runner.nodup_keys {runner : Runner} {path : PurePath} {jobs : List Job}
    (h : runner.jobs py files path = .ok jobs) : (jobs.map Job.key).Nodup := by
  cases runner with
  | s02 =>
      obtain ⟨manifest, hload, rfl⟩ := map_ok_iff.mp h
      exact S02.nodup_keys hload
  | s03 =>
      obtain ⟨manifest, hload, rfl⟩ := map_ok_iff.mp h
      exact S03.nodup_keys hload

/-- The reports of a run with their artifacts. -/
def reports (jobs : List Job) : List (ReportId × String) :=
  jobs.flatMap fun job => expectedEndpointRoles.map fun role => (job.report role, job.artifacts.get role)

/-- The names of the artifacts. -/
def artifactNames (jobs : List Job) : List String := (reports jobs).map Prod.snd

theorem nodup_reports {jobs : List Job} (h : (jobs.map Job.key).Nodup) :
    ((reports jobs).map Prod.fst).Nodup := by
  have hids : (reports jobs).map Prod.fst = ((jobs.map Job.key).product expectedEndpointRoles).map
      fun pair => ⟨pair.1.1, pair.1.2, pair.2⟩ := by
    simp only [reports, List.product, List.map_flatMap, List.flatMap_map, List.map_map]
    rfl
  rw [hids]
  refine (h.product (by decide)).map ?_
  rintro ⟨⟨_, _⟩, _⟩ ⟨⟨_, _⟩, _⟩ he
  simpa [and_assoc] using he

/-- Two reports of one workload do not have the same name. -/
def OwnNames (jobs : List Job) : Prop :=
  ∀ a ∈ reports jobs, ∀ b ∈ reports jobs, a.1.label = b.1.label → a.2 = b.2 → a.1 = b.1

theorem S02.ownNames {path : PurePath} {manifest : S02.Manifest F}
    (h : S02.loadManifest py files path = .ok manifest) : OwnNames manifest.jobs := by
  intro a ha b hb hlabel hname
  simp only [reports, S02.Manifest.jobs, List.mem_flatMap, List.mem_map] at ha hb
  obtain ⟨_, ⟨w, hw, mode, -, rfl⟩, role, -, rfl⟩ := ha
  obtain ⟨_, ⟨w', hw', mode', -, rfl⟩, role', -, rfl⟩ := hb
  have hkey := (S02.loaded h).key_eq (mode, role) (mode', role') hw hw' hlabel hname
  obtain ⟨rfl, rfl⟩ := Prod.mk.inj hkey
  exact congrArg (fun label => ReportId.mk label mode role) hlabel

theorem S03.ownNames {path : PurePath} {manifest : S03.Manifest F}
    (h : S03.loadManifest py files path = .ok manifest) : OwnNames manifest.jobs := by
  intro a ha b hb hlabel hname
  simp only [reports, S03.Manifest.jobs, List.mem_flatMap, List.mem_map] at ha hb
  obtain ⟨_, ⟨w, hw, rfl⟩, role, -, rfl⟩ := ha
  obtain ⟨_, ⟨w', hw', rfl⟩, role', -, rfl⟩ := hb
  obtain rfl := (S03.loaded h).key_eq role role' hw hw' hlabel hname
  exact congrArg (fun label => ReportId.mk label .on role) hlabel

theorem Runner.ownNames {runner : Runner} {path : PurePath} {jobs : List Job}
    (h : runner.jobs py files path = .ok jobs) : OwnNames jobs := by
  cases runner with
  | s02 =>
      obtain ⟨manifest, hload, rfl⟩ := map_ok_iff.mp h
      exact S02.ownNames hload
  | s03 =>
      obtain ⟨manifest, hload, rfl⟩ := map_ok_iff.mp h
      exact S03.ownNames hload

theorem mem_writes_iff {jobs : List Job} {order : Job → Bool} {report : ReportId × String} :
    report ∈ jobs.flatMap (fun job => job.writes (order job)) ↔ report ∈ reports jobs := by
  simp only [reports, List.mem_flatMap]
  refine exists_congr fun job => and_congr_right fun _ => ?_
  unfold Job.writes
  cases order job with
  | false => rfl
  | true => simp [expectedEndpointRoles, Pair.get, or_comm]

/-! ## Writing -/

section Writes

variable {dir : List String} {store : Store} {location : List String} {rs : List (ReportId × String)}

theorem foldl_write_of_ne (h : ∀ r ∈ rs, locate dir r.2 ≠ location) :
    rs.foldl (write dir) store location = store location := by
  induction rs generalizing store with
  | nil => rfl
  | cons r rs ih =>
      rw [List.forall_mem_cons] at h
      rw [List.foldl_cons, ih h.2, write, Function.update_of_ne (Ne.symm h.1)]

/-- A location that is written for one report only holds this report. -/
theorem foldl_write_of_mem {id : ReportId} (hmem : ∃ r ∈ rs, locate dir r.2 = location)
    (h : ∀ r ∈ rs, locate dir r.2 = location → r.1 = id) :
    rs.foldl (write dir) store location = some id := by
  induction rs generalizing store with
  | nil =>
      obtain ⟨r, hr, -⟩ := hmem
      cases hr
  | cons r rs ih =>
      rw [List.forall_mem_cons] at h
      rw [List.foldl_cons]
      by_cases hlater : ∃ r ∈ rs, locate dir r.2 = location
      · exact ih hlater h.2
      · -- no later report goes there, so it is this one
        have hr : locate dir r.2 = location := by
          obtain ⟨r', hr', he⟩ := hmem
          rcases List.mem_cons.mp hr' with rfl | hr'
          · exact he
          · exact absurd ⟨r', hr', he⟩ hlater
        rw [foldl_write_of_ne fun r' hr' he => hlater ⟨r', hr', he⟩, write, ← hr, Function.update_self,
          h.1 hr]

end Writes

/-! ## In place -/

section Kept

variable (outputDir : List String) (jobs : List Job)

/-- No two artifacts are one file. -/
def Distinct : Prop := ((artifactNames jobs).map (locate outputDir)).Nodup

/-- Every report that the run has written is there when it is read. -/
def InPlace (order : Job → Bool) (before : Store) : Prop :=
  ∀ read ∈ readArtifacts outputDir jobs (runManifest order outputDir jobs before), read.2 = some read.1

/-- The path to an artifact, as it is spelled. -/
def spelled (name : String) : List (PathStep String) :=
  if (PurePath.ofString name).isAbsolute then steps name else Path.plain outputDir ++ steps name

/-- No workload names an artifact that another one names. -/
def Unshared : Prop :=
  ∀ a ∈ reports jobs, ∀ b ∈ reports jobs, a.1.label ≠ b.1.label → a.2 ≠ b.2

/-- No two different names are spellings of one path. -/
def Unaliased : Prop :=
  ∀ a ∈ artifactNames jobs, ∀ b ∈ artifactNames jobs, a ≠ b →
    ¬ Path.Respelled (spelled outputDir a) (spelled outputDir b)

variable {outputDir jobs} {order : Job → Bool} {before : Store}

theorem locate_eq_walk (name : String) : locate outputDir name = Path.walk [] (spelled outputDir name) := by
  unfold locate spelled
  split
  · rfl
  · rw [Path.walk_append, Path.walk_plain]

theorem locate_eq_iff {a b : String} :
    locate outputDir a = locate outputDir b ↔ Path.Respelled (spelled outputDir a) (spelled outputDir b) := by
  rw [Path.respelled_iff, locate_eq_walk, locate_eq_walk]

/-- What `load_manifest` has checked and what it has not make up the distinctness of the files. -/
theorem distinct_iff (hkeys : (jobs.map Job.key).Nodup) (hown : OwnNames jobs) :
    Distinct outputDir jobs ↔ Unshared jobs ∧ Unaliased outputDir jobs := by
  constructor
  · intro h
    refine ⟨fun a ha b hb hlabel hname => hlabel ?_, fun a ha b hb hne hsame => hne ?_⟩
    · rw [Distinct, artifactNames, List.map_map] at h
      rw [List.inj_on_of_nodup_map h ha hb (congrArg (locate outputDir) hname)]
    · exact List.inj_on_of_nodup_map h ha hb (locate_eq_iff.mpr hsame)
  · rintro ⟨hshared, haliased⟩
    have hids := nodup_reports hkeys
    rw [Distinct, artifactNames, List.map_map]
    refine hids.of_map.map_on fun a ha b hb he => ?_
    have hname : a.2 = b.2 := by
      by_contra hne
      exact haliased a.2 (List.mem_map_of_mem ha) b.2 (List.mem_map_of_mem hb) hne (locate_eq_iff.mp he)
    by_cases hlabel : a.1.label = b.1.label
    · exact List.inj_on_of_nodup_map hids ha hb (hown a ha b hb hlabel hname)
    · exact absurd hname (hshared a ha b hb hlabel)

theorem inPlace_iff : InPlace outputDir jobs order before ↔ ∀ report ∈ reports jobs,
    runManifest order outputDir jobs before (locate outputDir report.2) = some report.1 := by
  simp only [InPlace, readArtifacts, reports, List.mem_flatMap, List.mem_map]
  constructor
  · rintro h _ ⟨job, hjob, role, hrole, rfl⟩
    exact h (job.report role, _) ⟨job, hjob, role, hrole, rfl⟩
  · rintro h _ ⟨job, hjob, role, hrole, rfl⟩
    exact h (job.report role, job.artifacts.get role) ⟨job, hjob, role, hrole, rfl⟩

theorem inPlace_of_distinct (h : Distinct outputDir jobs) : InPlace outputDir jobs order before := by
  rw [Distinct, artifactNames, List.map_map] at h
  rw [inPlace_iff]
  intro report hreport
  rw [runManifest]
  refine foldl_write_of_mem ⟨report, mem_writes_iff.mpr hreport, rfl⟩ fun other hother he => ?_
  rw [List.inj_on_of_nodup_map h (mem_writes_iff.mp hother) hreport he]

theorem distinct_of_inPlace (hkeys : (jobs.map Job.key).Nodup) (h : InPlace outputDir jobs order before) :
    Distinct outputDir jobs := by
  rw [inPlace_iff] at h
  have hids := nodup_reports hkeys
  rw [Distinct, artifactNames, List.map_map]
  refine hids.of_map.map_on fun a ha b hb he => ?_
  have hsame := h a ha
  rw [show locate outputDir a.2 = locate outputDir b.2 from he, h b hb] at hsame
  exact List.inj_on_of_nodup_map hids ha hb (Option.some.inj hsame).symm

end Kept

end DsaStdexec.Profile.Evidence

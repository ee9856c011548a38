import DsaStdexec.Profile.Lemmas.Artifacts
import DsaStdexec.Profile.Lemmas.Summary

/-!
# The claim package: its manifest, artifacts and table
-/

namespace DsaStdexec.Profile

open DsaStdexec.Lib Contract Summary

/-! ## A small package -/

namespace Package

def python : Python Unit where
  repr _ := ""
  float _ := .ok ()
  isZero _ := false
  isOne _ := false
  zero := ()
  add _ _ := ()
  sub _ _ := ()
  div _ _ := ()

def repoRoot : PurePath := ⟨"/", ["repo"]⟩

def manifestPath : PurePath := ⟨"/", ["repo", "manifest.json"]⟩

def text (s : String) : Value Unit := .string s

/-- The curated labels with short names. -/
def labels : List (String × String) := ["a-", "b-"].zip requiredLabels

/-- What the names of the artifacts of a family begin with. -/
def stem : RunFamily → String
  | .softwareBaseline => "off-"
  | .softwareAttribution => "on-"
  | .idxdAttribution => "idxd-"

def pair (stem : String) : Value Unit :=
  .object (expectedEndpointRoles.map fun role => (role.text, text (stem ++ role.text)))

def upstream (artifacts : String → Value Unit) : Value Unit :=
  .object [("workloads", .array (labels.map fun (short, label) =>
    .object [("label", text label), ("endpoint_artifacts", artifacts short)]))]

def software : Value Unit :=
  upstream fun short => .object [("off", pair ("off-" ++ short)), ("on", pair ("on-" ++ short))]

def idxd : Value Unit := upstream fun short => pair ("idxd-" ++ short)

def entries (directory : String) (family : RunFamily) : Value Unit :=
  .array (labels.flatMap fun (short, label) => expectedEndpointRoles.map fun role =>
    .object [("workload_label", text label), ("endpoint_role", text role.text),
      ("artifact", text (directory ++ stem family ++ short ++ role.text))])

def inputs : Inputs := ⟨"software.json", "idxd.json", "floor.json", "report.md"⟩

def family (directory : RunFamily → String) (f : RunFamily) : Value Unit :=
  .object [("run_family", text f.text), ("source_manifest", text (inputs.source f)),
    ("instrumentation", text f.instrumentation.text), ("selected_path", text f.selectedPath),
    ("endpoint_reports", entries (directory f) f)]

/-- A manifest with the given labels in its scope, and its artifacts in the given directories. -/
def manifest (scopeLabels : List String) (directory : RunFamily → String) : Value Unit :=
  .object [("version", .number (.int 1)), ("run_root", text expectedRunRoot),
    ("scope", .object [("workload_labels", .array (scopeLabels.map text)),
      ("pairing_keys", .array (requiredPairingKeys.map text))]),
    ("inputs", .object [("software_manifest", text inputs.softwareManifest),
      ("idxd_manifest", text inputs.idxdManifest),
      ("control_floor_summary", text inputs.controlFloorSummary),
      ("report_contract", text inputs.reportContract)]),
    ("derived_outputs", .object (expectedDerivedOutputs.map fun (key, path) => (key, text path))),
    ("artifact_families", .array (RunFamily.all.map (family directory))),
    ("report", .object [("path", text expectedReportPath),
      ("required_references", .array ((expectedReportReferences expectedRunRoot).map text))])]

/-- The report that a file of the run is. -/
def keys : List (String × ReportKey) :=
  RunFamily.all.flatMap fun f => labels.flatMap fun (short, label) => expectedEndpointRoles.map fun role =>
    (stem f ++ short ++ role.text, ⟨label, role, f, f.instrumentation.text, f.selectedPath⟩)

def report (key : ReportKey) : Value Unit :=
  .object [("metadata", .object ([("mode", text "unary"), ("endpoint_role", text key.endpointRole.text),
      ("run_id", text "run-1"), ("selected_path", text key.selectedPath), ("workload_label", text key.label),
      ("instrumentation", text key.instrumentation)] ++
      if key.selectedPath = "idxd" then [("accelerated_device_path", text "/dev/dsa/wq0.0")] else [])),
    ("metrics", .object (requiredMetricNames.map fun name => (name, .number (.int 1)))),
    ("stages", .object (("enabled", .bool (key.instrumentation == "on")) ::
      requiredStageNames.map fun name =>
        (name, .object (stageFields.map fun field => (field, .number (.int 1))))))]

def files (manifest idxd : Value Unit) : Files Unit where
  read path :=
    if path = manifestPath then .value manifest
    else if path.name = inputs.softwareManifest then .value software
    else if path.name = inputs.idxdManifest then .value idxd
    else match keys.lookup path.name with
      | some key => .value (report key)
      | none => .osError ""
  pathExists _ := .ok true

/-- There are no links. -/
def resolve (path : PurePath) : Except PyError PurePath := .ok path

def runRoot : PurePath := ⟨"/", ["run"]⟩

/-- The manifest with the given labels and directories, with complete upstream manifests. -/
def load (scopeLabels : List String) (directory : RunFamily → String) : Except PyError Manifest :=
  loadManifest python (files (manifest scopeLabels directory) idxd) repoRoot manifestPath

theorem exists_of_any {α : Type} {x : Except PyError α} {p : α → Bool}
    (h : x.toOption.any p = true) : ∃ a, x = .ok a ∧ p a = true := by
  cases x with
  | error e => cases h
  | ok a => exact ⟨a, rfl, h⟩

def isRun (loaded : Except PyError (LoadedReport Unit)) : Bool :=
  match loaded with
  | .ok report =>
      match get report.metadata "run_id" with
      | .string id => id == "run-1"
      | _ => false
  | .error _ => false

theorem isRun_iff {loaded : Except PyError (LoadedReport Unit)} (h : isRun loaded = true) :
    ∃ report, loaded = .ok report ∧ get report.metadata "run_id" = .string "run-1" := by
  cases loaded with
  | error e => cases h
  | ok report =>
      refine ⟨report, rfl, ?_⟩
      simp only [isRun] at h
      split at h
      · next id hid => rw [hid, eq_of_beq h]
      · cases h

/-- All reports are there, and of one run. -/
def passes (files : Files Unit) (m : Manifest) : Bool :=
  m.artifactFamilies.all fun family => family.endpointReports.all fun entry =>
    isRun (loadEntry python files resolve runRoot family.toFamilyHeader entry)

theorem reportsPass_of_passes {files : Files Unit} {m : Manifest} (h : passes files m = true) :
    ReportsPass python files resolve runRoot m := by
  simp only [passes, List.all_eq_true] at h
  constructor
  · intro family hf entry he
    obtain ⟨report, hr, -⟩ := isRun_iff (h family hf entry he)
    exact ⟨report, hr⟩
  · intro family hf client hc server hs _ _ _ c s hclient hserver
    obtain ⟨_, hr, hid⟩ := isRun_iff (h family hf client hc)
    obtain ⟨_, hr', hid'⟩ := isRun_iff (h family hf server hs)
    obtain rfl := Except.ok.inj (hr.symm.trans hclient)
    obtain rfl := Except.ok.inj (hr'.symm.trans hserver)
    rw [hid, hid']

end Package

open Package

variable {F : Type} (py : Python F) (files : Files F) (repoRoot : PurePath)

/-! ## Errors of the validation -/

/-- `load_manifest` ends with a manifest or a `ManifestError`, unless the validation comes to a file or a
path that the system raises for, or to an entry whose workload its upstream manifest does not have. -/
theorem loadManifest_raises_iff (path : PurePath) :
    Raises IsManifest (loadManifest py files repoRoot path) ↔ ¬ ManifestEscapes py files repoRoot path :=
  raises_iff_not_escapes.trans (not_congr loadManifest_escapes_iff)

/-- The IDXD manifest with its first workload only. -/
def firstWorkload : Value Unit :=
  .object [("workloads", .array [.object [("label", text "ordinary/unary-bytes/repeated-64"),
    ("endpoint_artifacts", pair "idxd-a-")]])]

def keyError? (loaded : Except PyError Manifest) : Option String :=
  match loaded with
  | .error (.key key) => some key
  | _ => none

theorem upstream_label_keyError :
    ¬ Raises IsManifest (loadManifest python
      (Package.files (manifest requiredLabels RunFamily.under) firstWorkload) Package.repoRoot manifestPath) := by
  have h : keyError? (loadManifest python
      (Package.files (manifest requiredLabels RunFamily.under) firstWorkload) Package.repoRoot manifestPath) =
      some "ordinary/unary-proto-shape/fleet-small-to-fleet-response-heavy" := by decide +kernel
  intro hraises
  unfold keyError? at h
  split at h
  · next key hkey =>
      obtain ⟨_, hne⟩ := hraises _ hkey
      cases hne
  · cases h

/-! ## Artifacts -/

/-- The artifacts of an accepted manifest are confined and distinct if and only if they descend into the
directories of their families and no two are spellings of one path. -/
theorem artifacts_confined {path : PurePath} {manifest : Manifest}
    (h : loadManifest py files repoRoot path = .ok manifest) :
    Confined manifest ↔ WellSpelled manifest :=
  confined_iff (accepted h)

/-- Every artifact is one name below the directory of its family, and they are all different. -/
def plainlySpelled (m : Manifest) : Bool :=
  decide (∀ family ∈ m.artifactFamilies, ∀ entry ∈ family.endpointReports,
    (steps entry.artifact).head? = some (.down family.runFamily.selectedPath) ∧
      Path.depth 0 (steps entry.artifact).tail = some 1) &&
  decide (∀ family ∈ m.artifactFamilies, ∀ entry ∈ family.endpointReports,
    ∀ family' ∈ m.artifactFamilies, ∀ entry' ∈ family'.endpointReports,
      (family.runFamily, entry.pair) ≠ (family'.runFamily, entry'.pair) →
        Path.walk [] (steps entry.artifact) ≠ Path.walk [] (steps entry'.artifact))

theorem wellSpelled_of_plainly {m : Manifest} (h : plainlySpelled m = true) : WellSpelled m := by
  simp only [plainlySpelled, Bool.and_eq_true, decide_eq_true_eq] at h
  constructor
  · intro family hf entry he
    obtain ⟨hhead, hdepth⟩ := h.1 family hf entry he
    exact ⟨[], (steps entry.artifact).tail, 0, List.eq_cons_of_mem_head? hhead, rfl, hdepth⟩
  · intro family hf entry he family' hf' entry' he' hne hsame
    exact h.2 family hf entry he family' hf' entry' he' hne (Path.respelled_iff.mp hsame)

theorem artifacts_confined_plain : ∃ m, load requiredLabels RunFamily.under = .ok m ∧ Confined m := by
  have h : (load requiredLabels RunFamily.under).toOption.any plainlySpelled = true := by decide +kernel
  obtain ⟨m, hm, hplain⟩ := exists_of_any h
  exact ⟨m, hm, (artifacts_confined _ _ _ hm).mpr (wellSpelled_of_plainly hplain)⟩

/-- The artifacts of the software families climb out of `software/`. -/
def climbing : RunFamily → String
  | .softwareBaseline => "software/../"
  | .softwareAttribution => "software/../"
  | .idxdAttribution => "idxd/"

/-- The last directory of some artifact is not the one of its family. -/
def strays (m : Manifest) : Bool :=
  decide (∃ family ∈ m.artifactFamilies, ∃ entry ∈ family.endpointReports,
    (locate [] entry.artifact).getLast? ≠ some family.runFamily.selectedPath)

theorem artifact_outside : ∃ m, load requiredLabels climbing = .ok m ∧ ¬ Confined m := by
  have h : (load requiredLabels climbing).toOption.any strays = true := by decide +kernel
  obtain ⟨m, hm, hstrays⟩ := exists_of_any h
  refine ⟨m, hm, fun hconf => ?_⟩
  obtain ⟨family, hf, entry, he, hne⟩ := of_decide_eq_true hstrays
  obtain ⟨inner, -, hloc⟩ := (hconf [] (by simp)).1 family hf entry he
  rw [hloc] at hne
  simp at hne

/-! ## The table -/

/-- For an accepted manifest whose reports pass, the table is determined if and only if no label of the
scope is there twice. -/
theorem claim_table_determined (resolve : PurePath → Except PyError PurePath) (runRoot path : PurePath)
    {manifest : Manifest} (h : loadManifest py files repoRoot path = .ok manifest)
    (hpass : ReportsPass py files resolve runRoot manifest) :
    Determines py files resolve runRoot manifest ↔ manifest.scope.workloadLabels.Nodup :=
  determines_iff (accepted h) hpass

/-- The files of a package with the given labels. -/
def packageFiles (scopeLabels : List String) : Files Unit :=
  Package.files (manifest scopeLabels RunFamily.under) idxd

theorem claim_table_determined_curated : ∃ m, load requiredLabels RunFamily.under = .ok m ∧
    Determines python (packageFiles requiredLabels) resolve runRoot m := by
  have h : (load requiredLabels RunFamily.under).toOption.any (fun m =>
      passes (packageFiles requiredLabels) m && decide m.scope.workloadLabels.Nodup) = true := by
    decide +kernel
  obtain ⟨m, hm, hcheck⟩ := exists_of_any h
  rw [Bool.and_eq_true, decide_eq_true_eq] at hcheck
  exact ⟨m, hm, (claim_table_determined _ _ _ _ _ _ hm (reportsPass_of_passes hcheck.1)).mpr hcheck.2⟩

/-- The first label is there twice. -/
def repeatedLabels : List String := "ordinary/unary-bytes/repeated-64" :: requiredLabels

theorem repeated_label_repeats_rows : ∃ m, load repeatedLabels RunFamily.under = .ok m ∧
    ReportsPass python (packageFiles repeatedLabels) resolve runRoot m ∧
    ¬ Determines python (packageFiles repeatedLabels) resolve runRoot m := by
  have h : (load repeatedLabels RunFamily.under).toOption.any (fun m =>
      passes (packageFiles repeatedLabels) m && decide ¬ m.scope.workloadLabels.Nodup) = true := by
    decide +kernel
  obtain ⟨m, hm, hcheck⟩ := exists_of_any h
  rw [Bool.and_eq_true, decide_eq_true_eq] at hcheck
  have hpass := reportsPass_of_passes hcheck.1
  exact ⟨m, hm, hpass, fun hdet => hcheck.2 ((determines_iff (accepted hm) hpass).mp hdet)⟩

end DsaStdexec.Profile

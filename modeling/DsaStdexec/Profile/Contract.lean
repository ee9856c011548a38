import DsaStdexec.Profile.Python

/-!
# `claim_package_contract.py`

`load_manifest` of the S04 claim package, with the two upstream manifests that it reads. What is
returned is the validated manifest; a set that only grows beside a list is read off the list.
-/

namespace DsaStdexec.Profile

open DsaStdexec.Lib

inductive EndpointRole where
  | client
  | server
  deriving DecidableEq, Repr

inductive Instrumentation where
  | off
  | on
  deriving DecidableEq, Repr

def EndpointRole.text : EndpointRole → String
  | .client => "client"
  | .server => "server"

def expectedEndpointRoles : List EndpointRole := [.client, .server]

/-- `endpoint_role in EXPECTED_ENDPOINT_ROLES` -/
def EndpointRole.ofText? (text : String) : Option EndpointRole :=
  expectedEndpointRoles.find? fun role => role.text == text

def Instrumentation.text : Instrumentation → String
  | .off => "off"
  | .on => "on"

namespace Contract

/-! ## Constants -/

/-- `sorted(REQUIRED_LABELS)` -/
def requiredLabels : List String :=
  ["ordinary/unary-bytes/repeated-64", "ordinary/unary-proto-shape/fleet-small-to-fleet-response-heavy"]

def requiredPairingKeys : List String := ["workload_label", "endpoint_role", "run_family"]

inductive RunFamily where
  | softwareBaseline
  | softwareAttribution
  | idxdAttribution
  deriving DecidableEq, Repr

namespace RunFamily

def text : RunFamily → String
  | softwareBaseline => "software_baseline"
  | softwareAttribution => "software_attribution"
  | idxdAttribution => "idxd_attribution"

/-- `EXPECTED_FAMILIES`, in the order of `sorted`. -/
def all : List RunFamily := [idxdAttribution, softwareAttribution, softwareBaseline]

def ofText? (text : String) : Option RunFamily := all.find? fun family => family.text == text

def instrumentation : RunFamily → Instrumentation
  | softwareBaseline => .off
  | softwareAttribution => .on
  | idxdAttribution => .on

def selectedPath : RunFamily → String
  | softwareBaseline => "software"
  | softwareAttribution => "software"
  | idxdAttribution => "idxd"

/-- The `prefix` of the artifacts. -/
def under (family : RunFamily) : String := family.selectedPath ++ "/"

end RunFamily

def expectedDerivedOutputs : List (String × String) :=
  [("comparison_summary_json", "summary/comparison_summary.json"),
    ("ordinary_vs_idxd_csv", "summary/ordinary_vs_idxd.csv"),
    ("claim_table_md", "summary/claim_table.md")]

def expectedReportPath : String := "docs/report/benchmarking/014.idxd_tonic_same_repo_claim_package.md"

def expectedRunRoot : String := "accel-rpc/target/s04-claim-package/latest"

/-! ## Fields -/

variable {F : Type}

def asObject (value : Value F) (text : String) : Except PyError (Dict F) :=
  match value with
  | .object members => .ok members
  | _ => .error (.manifest text)

def requiredStr (obj : Dict F) (key scope : String) : Except PyError String :=
  match get obj key with
  | .string value =>
      if value = "" then .error (.manifest s!"{scope} missing {key}") else .ok value
  | _ => .error (.manifest s!"{scope} missing {key}")

def nonEmptyArray (value : Value F) (text : String) : Except PyError (List (Value F)) :=
  match value with
  | .array (item :: items) => .ok (item :: items)
  | _ => .error (.manifest text)

def requiredList (obj : Dict F) (key scope : String) : Except PyError (List (Value F)) :=
  nonEmptyArray (get obj key) s!"{scope}.{key} must be a non-empty array"

/-- One item of a list of names. -/
def nonEmptyString (scope : String) (index : Nat) (item : Value F) : Except PyError String :=
  match item with
  | .string value =>
      if value = "" then .error (.manifest s!"{scope}[{index}] must be a non-empty string")
      else .ok value
  | _ => .error (.manifest s!"{scope}[{index}] must be a non-empty string")

def nonEmptyStrings (scope : String) (items : List (Value F)) : Except PyError (List String) :=
  checkEach (nonEmptyString scope) 0 items

/-- `set(xs) == set(ys)` -/
def SameSet (xs ys : List String) : Prop := (∀ x ∈ xs, x ∈ ys) ∧ ∀ y ∈ ys, y ∈ xs

instance (xs ys : List String) : Decidable (SameSet xs ys) :=
  inferInstanceAs (Decidable ((∀ x ∈ xs, x ∈ ys) ∧ ∀ y ∈ ys, y ∈ xs))

/-! ## Scope, inputs, outputs and report -/

structure Scope where
  workloadLabels : List String
  pairingKeys : List String

def validateScope (scopeObj : Value F) : Except PyError Scope := do
  let scopeObj ← asObject scopeObj "manifest.scope must be an object"
  let labels ← requiredList scopeObj "workload_labels" "manifest.scope"
  let validatedLabels ← nonEmptyStrings "manifest.scope.workload_labels" labels
  ensure (SameSet validatedLabels requiredLabels)
    (.manifest ("manifest.scope.workload_labels must match the curated S04 workloads: " ++
      ", ".intercalate requiredLabels))
  let pairingKeys ← requiredList scopeObj "pairing_keys" "manifest.scope"
  let validatedPairingKeys ← nonEmptyStrings "manifest.scope.pairing_keys" pairingKeys
  ensure (validatedPairingKeys = requiredPairingKeys)
    (.manifest ("manifest.scope.pairing_keys must be exactly: " ++
      ", ".intercalate requiredPairingKeys))
  return ⟨validatedLabels, validatedPairingKeys⟩

inductive InputKey where
  | softwareManifest
  | idxdManifest
  | controlFloorSummary
  | reportContract
  deriving DecidableEq, Repr

def InputKey.text : InputKey → String
  | .softwareManifest => "software_manifest"
  | .idxdManifest => "idxd_manifest"
  | .controlFloorSummary => "control_floor_summary"
  | .reportContract => "report_contract"

structure Inputs where
  softwareManifest : String
  idxdManifest : String
  controlFloorSummary : String
  reportContract : String

/-- `inputs[expected["source_key"]]` -/
def Inputs.source (inputs : Inputs) : RunFamily → String
  | .softwareBaseline => inputs.softwareManifest
  | .softwareAttribution => inputs.softwareManifest
  | .idxdAttribution => inputs.idxdManifest

variable (py : Python F) (files : Files F) (repoRoot : PurePath)

def resolveRepoPath (raw : String) : PurePath :=
  let path := PurePath.ofString raw
  if path.isAbsolute then path else repoRoot.join path

/-- `path.exists()` -/
def pathExists (path : PurePath) : Except PyError Bool :=
  match files.pathExists path with
  | .ok there => .ok there
  | .error text => .error (.other text)

def validateInput (inputsObj : Dict F) (key : InputKey) : Except PyError String := do
  let raw ← requiredStr inputsObj key.text "manifest.inputs"
  let there ← pathExists files (resolveRepoPath repoRoot raw)
  let name := key.text
  ensure (there = true) (.manifest s!"manifest.inputs.{name} path does not exist: {raw}")
  return raw

def validateInputs (inputsObj : Value F) : Except PyError Inputs := do
  let inputsObj ← asObject inputsObj "manifest.inputs must be an object"
  let softwareManifest ← validateInput files repoRoot inputsObj .softwareManifest
  let idxdManifest ← validateInput files repoRoot inputsObj .idxdManifest
  let controlFloorSummary ← validateInput files repoRoot inputsObj .controlFloorSummary
  let reportContract ← validateInput files repoRoot inputsObj .reportContract
  return ⟨softwareManifest, idxdManifest, controlFloorSummary, reportContract⟩

def validateDerivedOutput (obj : Dict F) (validated : List (String × String)) (_index : Nat)
    (output : String × String) : Except PyError (List (String × String)) := do
  let (key, expected) := output
  let actual ← requiredStr obj key "manifest.derived_outputs"
  let actualRepr := py.reprStr actual
  let expectedRepr := py.reprStr expected
  ensure (actual = expected)
    (.manifest s!"manifest.derived_outputs.{key}={actualRepr} expected {expectedRepr}")
  ensure (actual ∉ validated.map Prod.snd)
    (.manifest s!"manifest.derived_outputs.{key} duplicates output path {actualRepr}")
  return validated ++ [(key, actual)]

def validateDerivedOutputs (derivedOutputsObj : Value F) : Except PyError (List (String × String)) := do
  let obj ← asObject derivedOutputsObj "manifest.derived_outputs must be an object"
  checkLoop (validateDerivedOutput py obj) [] 0 expectedDerivedOutputs

def expectedReportReferences (runRoot : String) : List String :=
  expectedDerivedOutputs.map fun output => runRoot ++ "/" ++ output.2

structure ReportContract where
  path : String
  requiredReferences : List String

def validateReport (reportObj : Value F) (runRoot : String) : Except PyError ReportContract := do
  let reportObj ← asObject reportObj "manifest.report must be an object"
  let path ← requiredStr reportObj "path" "manifest.report"
  let pathRepr := py.reprStr path
  let expectedRepr := py.reprStr expectedReportPath
  ensure (path = expectedReportPath) (.manifest s!"manifest.report.path={pathRepr} expected {expectedRepr}")
  let references ← requiredList reportObj "required_references" "manifest.report"
  let validatedReferences ← nonEmptyStrings "manifest.report.required_references" references
  ensure (validatedReferences = expectedReportReferences runRoot)
    (.manifest ("manifest.report.required_references must point at the stable generated outputs: " ++
      ", ".intercalate (expectedReportReferences runRoot)))
  return ⟨path, validatedReferences⟩

/-! ## Upstream manifests -/

def loadJson (path : PurePath) (scope : String) : Except PyError (Dict F) :=
  let text := path.str
  match files.read path with
  | .osError err => .error (.manifest s!"{scope} read failed ({text}): {err}")
  | .decodeError err => .error (.manifest s!"{scope} parse failed ({text}): {err}")
  | .gaveUp err => .error (.other err)
  | .value value => asObject value s!"{scope} root must be an object"

def loadUpstreamManifest (pathRaw scope : String) : Except PyError (Dict F) := do
  let manifest ← loadJson files (resolveRepoPath repoRoot pathRaw) scope
  let _ ← nonEmptyArray (get manifest "workloads") s!"{scope} workloads must be a non-empty array"
  return manifest

/-- `manifest["workloads"]`; `load_upstream_manifest` has found a list there. -/
def workloadsOf (manifest : Dict F) : Except PyError (List (Value F)) :=
  match member? manifest "workloads" with
  | none => .error (.key "workloads")
  | some (.array workloads) => .ok workloads
  | some _ => .error (.other "TypeError")

/-- The artifact names of the two endpoints. -/
structure Pair where
  client : String
  server : String

def Pair.get (pair : Pair) : EndpointRole → String
  | .client => pair.client
  | .server => pair.server

def requiredPair (obj : Dict F) (scope : String) : Except PyError Pair := do
  let client ← requiredStr obj "client" scope
  let server ← requiredStr obj "server" scope
  return ⟨client, server⟩

structure ModePairs where
  off : Pair
  on : Pair

def ModePairs.get (pairs : ModePairs) : Instrumentation → Pair
  | .off => pairs.off
  | .on => pairs.on

def indexS02Mode (index : Nat) (label : String) (endpointArtifacts : Dict F)
    (instrumentation : Instrumentation) : Except PyError Pair := do
  let labelRepr := py.reprStr label
  let mode := instrumentation.text
  let pair ← asObject (get endpointArtifacts mode)
    s!"inputs.software_manifest workloads[{index}] label={labelRepr} endpoint_artifacts missing {mode}"
  requiredPair pair s!"inputs.software_manifest.workloads[{index}].endpoint_artifacts.{mode}"

def indexS02Workload (index : Nat) (entry : Value F) : Except PyError (String × ModePairs) := do
  let entry ← asObject entry s!"inputs.software_manifest workloads[{index}] must be an object"
  let label ← requiredStr entry "label" s!"inputs.software_manifest.workloads[{index}]"
  let labelRepr := py.reprStr label
  let endpointArtifacts ← asObject (get entry "endpoint_artifacts")
    s!"inputs.software_manifest workloads[{index}] label={labelRepr} missing endpoint_artifacts"
  let off ← indexS02Mode py index label endpointArtifacts .off
  let on ← indexS02Mode py index label endpointArtifacts .on
  return (label, ⟨off, on⟩)

/-- A dictionary is the list of its bindings, the newest first. -/
def indexS02Workloads (manifest : Dict F) : Except PyError (List (String × ModePairs)) := do
  let workloads ← workloadsOf manifest
  let indexed ← checkEach (indexS02Workload py) 0 workloads
  return indexed.reverse

def indexS03Workload (index : Nat) (entry : Value F) : Except PyError (String × Pair) := do
  let entry ← asObject entry s!"inputs.idxd_manifest workloads[{index}] must be an object"
  let label ← requiredStr entry "label" s!"inputs.idxd_manifest.workloads[{index}]"
  let labelRepr := py.reprStr label
  let endpointArtifacts ← asObject (get entry "endpoint_artifacts")
    s!"inputs.idxd_manifest workloads[{index}] label={labelRepr} missing endpoint_artifacts"
  let pair ← requiredPair endpointArtifacts
    s!"inputs.idxd_manifest.workloads[{index}].endpoint_artifacts"
  return (label, pair)

def indexS03Workloads (manifest : Dict F) : Except PyError (List (String × Pair)) := do
  let workloads ← workloadsOf manifest
  let indexed ← checkEach (indexS03Workload py) 0 workloads
  return indexed.reverse

/-! ## Artifact families -/

structure EndpointReport where
  workloadLabel : String
  endpointRole : EndpointRole
  artifact : String
  deriving DecidableEq, Repr

def EndpointReport.pair (report : EndpointReport) : String × EndpointRole :=
  (report.workloadLabel, report.endpointRole)

/-- The fields of a family but its entries. -/
structure FamilyHeader where
  runFamily : RunFamily
  sourceManifest : String
  instrumentation : String
  selectedPath : String

structure ArtifactFamily extends FamilyHeader where
  endpointReports : List EndpointReport

/-- `d[key]` -/
def subscript {α : Type} (bindings : List (String × α)) (key : String) : Except PyError α :=
  match bindings.lookup key with
  | none => .error (.key key)
  | some value => .ok value

/-- A name that has to be one of a few. -/
def known {α : Type} (found : Option α) (text : String) : Except PyError α :=
  match found with
  | some a => .ok a
  | none => .error (.manifest text)

section Entries

variable (family : RunFamily) (expectedLabels : List String) (upstreamArtifacts : List (String × Pair))

/-- The checks of an entry before its upstream name is looked up. -/
def checkEntry (scope : String) (validated : List EndpointReport) (globalArtifacts : List String)
    (entry : Value F) : Except PyError EndpointReport := do
  let entry ← asObject entry s!"{scope} must be an object"
  let workloadLabel ← requiredStr entry "workload_label" scope
  let endpointRole ← requiredStr entry "endpoint_role" scope
  let artifact ← requiredStr entry "artifact" scope
  let labelRepr := py.reprStr workloadLabel
  let roleRepr := py.reprStr endpointRole
  let artifactRepr := py.reprStr artifact
  let underRepr := py.reprStr family.under
  ensure (workloadLabel ∈ expectedLabels)
    (.manifest s!"{scope}.workload_label={labelRepr} is outside the curated S04 scope")
  let role ← known (EndpointRole.ofText? endpointRole)
    s!"{scope}.endpoint_role={roleRepr} expected one of client, server"
  ensure ((workloadLabel, role) ∉ validated.map EndpointReport.pair)
    (.manifest s!"{scope} duplicates workload_label={labelRepr} endpoint_role={roleRepr}")
  ensure (artifact ∉ globalArtifacts)
    (.manifest s!"{scope}.artifact duplicates artifact path {artifactRepr}")
  ensure (family.under.toList <+: artifact.toList)
    (.manifest s!"{scope}.artifact={artifactRepr} expected to live under {underRepr}")
  return ⟨workloadLabel, role, artifact⟩

/-- The entries that were validated, and the artifacts of all families so far. -/
structure EntryState where
  validated : List EndpointReport
  globalArtifacts : List String

def validateEntry (state : EntryState) (index : Nat) (entry : Value F) : Except PyError EntryState := do
  let name := family.text
  let scope := s!"artifact_families.{name}.endpoint_reports[{index}]"
  let report ← checkEntry py family expectedLabels scope state.validated state.globalArtifacts entry
  let pair ← subscript upstreamArtifacts report.workloadLabel
  let expectedUpstream := pair.get report.endpointRole
  let artifactRepr := py.reprStr report.artifact
  let upstreamRepr := py.reprStr expectedUpstream
  ensure ((PurePath.ofString report.artifact).name = expectedUpstream)
    (.manifest s!"{scope}.artifact={artifactRepr} expected basename {upstreamRepr} from upstream manifest")
  return ⟨state.validated ++ [report], state.globalArtifacts ++ [report.artifact]⟩

/-- `expected_pairs - seen_pairs` -/
def missingPairs (validated : List EndpointReport) : List (String × EndpointRole) :=
  (expectedLabels.product expectedEndpointRoles).filter fun pair =>
    pair ∉ validated.map EndpointReport.pair

/-- The pairs of a set, sorted. -/
def sortedPairs (pairs : List (String × EndpointRole)) : List (String × EndpointRole) :=
  (((pairs.map Prod.fst).dedup.mergeSort fun x y => decide (x ≤ y)).product expectedEndpointRoles).filter
    (· ∈ pairs)

def validateFamilyEntries (entries : Value F) (globalArtifacts : List String) :
    Except PyError EntryState := do
  let name := family.text
  let entries ← nonEmptyArray entries
    s!"artifact_families.{name}.endpoint_reports must be a non-empty array"
  let state ← checkLoop (validateEntry py family expectedLabels upstreamArtifacts) ⟨[], globalArtifacts⟩ 0
    entries
  let missing := missingPairs expectedLabels state.validated
  let rendered := ", ".intercalate ((sortedPairs missing).map fun pair => pair.1 ++ ":" ++ pair.2.text)
  ensure (missing = [])
    (.manifest s!"artifact_families.{name}.endpoint_reports missing curated entries: {rendered}")
  return state

end Entries

/-- The families that were validated, and the artifacts of their entries. -/
structure FamilyState where
  validated : List ArtifactFamily
  globalArtifacts : List String

/-- The indexes of the two upstream manifests. -/
structure Upstream where
  s02 : List (String × ModePairs)
  s03 : List (String × Pair)

/-- The artifact names that the entries of a family are compared with. -/
def Upstream.artifacts (upstream : Upstream) : RunFamily → List (String × Pair)
  | .softwareBaseline => upstream.s02.map fun (label, pairs) => (label, pairs.get .off)
  | .softwareAttribution => upstream.s02.map fun (label, pairs) => (label, pairs.get .on)
  | .idxdAttribution => upstream.s03

section Families

variable (inputs : Inputs) (scope : Scope) (upstream : Upstream)

/-- The fields of a family before its entries. -/
def checkFamily (scopeName : String) (validated : List ArtifactFamily) (family : Dict F) :
    Except PyError FamilyHeader := do
  let runFamily ← requiredStr family "run_family" scopeName
  let familyRepr := py.reprStr runFamily
  ensure (runFamily ∉ validated.map fun family => family.runFamily.text)
    (.manifest s!"{scopeName}.run_family={familyRepr} is duplicated")
  let expected ← known (RunFamily.ofText? runFamily)
    s!"{scopeName}.run_family={familyRepr} is not a tracked S04 family"
  let sourceManifest ← requiredStr family "source_manifest" scopeName
  let sourceRepr := py.reprStr sourceManifest
  let expectedSourceRepr := py.reprStr (inputs.source expected)
  ensure (sourceManifest = inputs.source expected)
    (.manifest s!"{scopeName}.source_manifest={sourceRepr} expected {expectedSourceRepr}")
  let instrumentation ← requiredStr family "instrumentation" scopeName
  let instrumentationRepr := py.reprStr instrumentation
  let expectedInstrumentationRepr := py.reprStr expected.instrumentation.text
  ensure (instrumentation = expected.instrumentation.text)
    (.manifest s!"{scopeName}.instrumentation={instrumentationRepr} expected {expectedInstrumentationRepr}")
  let selectedPath ← requiredStr family "selected_path" scopeName
  let selectedRepr := py.reprStr selectedPath
  let expectedSelectedRepr := py.reprStr expected.selectedPath
  ensure (selectedPath = expected.selectedPath)
    (.manifest s!"{scopeName}.selected_path={selectedRepr} expected {expectedSelectedRepr}")
  return ⟨expected, sourceManifest, instrumentation, selectedPath⟩

def validateFamily (state : FamilyState) (index : Nat) (family : Value F) : Except PyError FamilyState := do
  let scopeName := s!"manifest.artifact_families[{index}]"
  let family ← asObject family s!"{scopeName} must be an object"
  let header ← checkFamily py inputs scopeName state.validated family
  let entries ← validateFamilyEntries py header.runFamily scope.workloadLabels
    (upstream.artifacts header.runFamily) (get family "endpoint_reports") state.globalArtifacts
  return ⟨state.validated ++ [⟨header, entries.validated⟩], entries.globalArtifacts⟩

def loadUpstream : Except PyError Upstream := do
  let softwareManifest ← loadUpstreamManifest files repoRoot inputs.softwareManifest "inputs.software_manifest"
  let idxdManifest ← loadUpstreamManifest files repoRoot inputs.idxdManifest "inputs.idxd_manifest"
  let s02 ← indexS02Workloads py softwareManifest
  let s03 ← indexS03Workloads py idxdManifest
  return ⟨s02, s03⟩

def validateArtifactFamilies (artifactFamiliesObj : Value F) : Except PyError (List ArtifactFamily) := do
  let families ← nonEmptyArray artifactFamiliesObj "manifest.artifact_families must be a non-empty array"
  let upstream ← loadUpstream py files repoRoot inputs
  let state ← checkLoop (validateFamily py inputs scope upstream) ⟨[], []⟩ 0 families
  let missing := RunFamily.all.filter fun family => family ∉ state.validated.map (·.runFamily)
  ensure (missing = [])
    (.manifest ("manifest.artifact_families missing required S04 families: " ++
      ", ".intercalate (missing.map RunFamily.text)))
  return state.validated

end Families

/-! ## The manifest -/

structure Manifest where
  runRoot : String
  scope : Scope
  inputs : Inputs
  artifactFamilies : List ArtifactFamily
  derivedOutputs : List (String × String)
  report : ReportContract

def loadManifest (path : PurePath) : Except PyError Manifest := do
  let manifest ← loadJson files path "phase=manifest-parse manifest"
  let version := get manifest "version"
  let versionRepr := py.repr version
  ensure (py.eqOne version = true) (.manifest s!"manifest.version={versionRepr} expected 1")
  let runRoot ← requiredStr manifest "run_root" "manifest"
  let runRootRepr := py.reprStr runRoot
  ensure (runRoot = expectedRunRoot)
    (.manifest s!"manifest.run_root={runRootRepr} expected 'accel-rpc/target/s04-claim-package/latest'")
  let scope ← validateScope (get manifest "scope")
  let inputs ← validateInputs files repoRoot (get manifest "inputs")
  let derivedOutputs ← validateDerivedOutputs py (get manifest "derived_outputs")
  let artifactFamilies ← validateArtifactFamilies py files repoRoot inputs scope
    (get manifest "artifact_families")
  let report ← validateReport py (get manifest "report") runRoot
  return ⟨runRoot, scope, inputs, artifactFamilies, derivedOutputs, report⟩

end Contract

end DsaStdexec.Profile

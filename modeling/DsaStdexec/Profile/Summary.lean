import DsaStdexec.Profile.Contract

/-!
# `summarize_s04_claim_package.py`

The reports of a run are loaded family by family, and the rows of the comparison are built from them. A
dictionary is the list of its bindings, the newest first. What the script prints is left out.
-/

namespace DsaStdexec.Profile.Summary

open DsaStdexec.Lib Contract

/-! ## Constants -/

def requiredStageNames : List String :=
  ["encode", "decode", "compress", "decompress", "buffer_reserve", "body_accum", "frame_header"]

def requiredMetricNames : List String :=
  ["requests_completed", "bytes_sent", "bytes_received", "duration_ms", "throughput_rps",
    "throughput_mib_s", "latency_us_p50", "latency_us_p95", "latency_us_p99", "latency_us_max"]

def requiredReportMetadata : List String :=
  ["mode", "endpoint_role", "run_id", "selected_path", "workload_label", "instrumentation"]

def stageFields : List String := ["count", "nanos", "millis", "bytes", "avg_nanos"]

/-! ## Fields -/

variable {F : Type}

def boolRepr (b : Bool) : String := if b then "True" else "False"

def requireDict (value : Value F) (scope : String) : Except PyError (Dict F) :=
  match value with
  | .object members => .ok members
  | _ => .error (.summary s!"phase=summarization {scope} must be an object")

def requireValue (parent : Dict F) (key scope : String) : Except PyError (Value F) :=
  match member? parent key with
  | none => .error (.summary s!"phase=summarization {scope} missing {key}")
  | some value => .ok value

def asText (value : Value F) (e : PyError) : Except PyError String :=
  match value with
  | .string s => if s = "" then .error e else .ok s
  | _ => .error e

def requireStr (parent : Dict F) (key scope : String) : Except PyError String := do
  let value ← requireValue parent key scope
  asText value (.summary s!"phase=summarization {scope}.{key} must be a non-empty string")

def asBool (value : Value F) (e : PyError) : Except PyError Bool :=
  match value with
  | .bool b => .ok b
  | _ => .error e

def requireBool (parent : Dict F) (key scope : String) : Except PyError Bool := do
  let value ← requireValue parent key scope
  asBool value (.summary s!"phase=summarization {scope}.{key} must be a bool")

def isNumber : Value F → Bool
  | .number _ => true
  | _ => false

variable (py : Python F)

def requireNumber (parent : Dict F) (key scope : String) : Except PyError F := do
  let value ← requireValue parent key scope
  ensure (isNumber value = true) (.summary s!"phase=summarization {scope}.{key} must be numeric")
  py.float value

/-- `obj[key]` -/
def item (obj : Dict F) (key : String) : Except PyError (Value F) :=
  match member? obj key with
  | none => .error (.key key)
  | some value => .ok value

def foundText (value : Value F) : Except PyError String :=
  match value with
  | .string s => .ok s
  | _ => .error (.other "TypeError")

/-- `obj[key]`, where `require_str` has found a text. -/
def textItem (obj : Dict F) (key : String) : Except PyError String := do
  let value ← item obj key
  foundText value

/-! ## A report -/

structure StageTotals (F : Type) where
  totalNanos : F
  totalBytes : F

def addStage (stages : Dict F) (totals : StageTotals F) (_index : Nat) (stageName : String) :
    Except PyError (StageTotals F) := do
  let scope := s!"stages.{stageName}"
  let stage ← requireDict (get stages stageName) scope
  let nanos ← requireNumber py stage "nanos" scope
  let bytes ← requireNumber py stage "bytes" scope
  return ⟨py.add totals.totalNanos nanos, py.add totals.totalBytes bytes⟩

def stageTotals (stages : Dict F) : Except PyError (StageTotals F) :=
  checkLoop (addStage py stages) ⟨py.zero, py.zero⟩ 0 requiredStageNames

structure LoadedReport (F : Type) where
  artifact : String
  metadata : Dict F
  metrics : Dict F
  stages : Dict F
  stageTotals : StageTotals F

variable (files : Files F)

def loadJsonObject (path : PurePath) (phase scope : String) : Except PyError (Dict F) :=
  let text := path.str
  match files.read path with
  | .osError err => .error (.summary s!"phase={phase} {scope} read failed artifact={text}: {err}")
  | .decodeError err => .error (.summary s!"phase={phase} {scope} parse failed artifact={text}: {err}")
  | .gaveUp err => .error (.other err)
  | .value (.object members) => .ok members
  | .value _ => .error (.summary s!"phase={phase} {scope} root must be an object artifact={text}")

/-- A field of the metadata that has to be what the manifest says. -/
def checkMetadata (metadata : Dict F) (context field expected : String) : Except PyError Unit := do
  let actual ← textItem metadata field
  let actualRepr := py.reprStr actual
  let expectedRepr := py.reprStr expected
  ensure (actual = expected) (.summary s!"{context} metadata.{field}={actualRepr} expected {expectedRepr}")

def checkStage (stages : Dict F) (context : String) (_index : Nat) (stageName : String) :
    Except PyError (List F) := do
  let stage ← requireDict (get stages stageName) s!"{context} stages.{stageName}"
  checkEach (fun _ field => requireNumber py stage field s!"{context} stages.{stageName}") 0 stageFields

/-- Only a report of the accelerated path has a device. -/
def checkDevicePath (metadata : Dict F) (context selectedPath : String) : Except PyError Unit :=
  match get metadata "accelerated_device_path", selectedPath == "idxd" with
  | .string s, true =>
      ensure (s ≠ "") (.summary (context ++
        " metadata.accelerated_device_path must be a non-empty string for idxd summaries"))
  | _, true =>
      .error (.summary (context ++
        " metadata.accelerated_device_path must be a non-empty string for idxd summaries"))
  | .null, false => .ok ()
  | _, false =>
      .error (.summary (context ++
        " metadata.accelerated_device_path must be null for software summaries"))

/-- What a report is loaded for. -/
structure ReportKey where
  label : String
  endpointRole : EndpointRole
  runFamily : RunFamily
  instrumentation : String
  selectedPath : String

def reportContext (path : PurePath) (key : ReportKey) : String :=
  let label := key.label
  let role := key.endpointRole.text
  let family := key.runFamily.text
  let text := path.str
  s!"label={label} phase=summarization endpoint_role={role} run_family={family} artifact={text}"

def loadReport (path : PurePath) (key : ReportKey) : Except PyError (LoadedReport F) := do
  let context := reportContext path key
  let report ← loadJsonObject files path "summarization" context
  let metadata ← requireDict (get report "metadata") s!"{context} metadata"
  let metrics ← requireDict (get report "metrics") s!"{context} metrics"
  let stages ← requireDict (get report "stages") s!"{context} stages"
  let _ ← checkEach (fun _ field => requireStr metadata field s!"{context} metadata") 0
    requiredReportMetadata
  let _ ← checkEach (fun _ field => requireNumber py metrics field s!"{context} metrics") 0
    requiredMetricNames
  let enabled ← requireBool stages "enabled" s!"{context} stages"
  checkMetadata py metadata context "endpoint_role" key.endpointRole.text
  checkMetadata py metadata context "workload_label" key.label
  checkMetadata py metadata context "instrumentation" key.instrumentation
  checkMetadata py metadata context "selected_path" key.selectedPath
  let enabledRepr := boolRepr enabled
  let expectedRepr := boolRepr (key.instrumentation == "on")
  ensure ((key.instrumentation == "on") = enabled)
    (.summary s!"{context} stages.enabled={enabledRepr} expected {expectedRepr}")
  let actualRunId ← textItem metadata "run_id"
  ensure (actualRunId ≠ "") (.summary s!"{context} metadata.run_id must be a non-empty string")
  let _ ← checkEach (checkStage py stages context) 0 requiredStageNames
  checkDevicePath metadata context key.selectedPath
  let totals ← stageTotals py stages
  return ⟨path.str, metadata, metrics, stages, totals⟩

/-! ## The reports of a run -/

abbrev FamilyReports (F : Type) := List ((String × EndpointRole) × LoadedReport F)

abbrev Loaded (F : Type) := List (RunFamily × FamilyReports F)

/-- `loaded[run_family][(label, endpoint_role)]` -/
def reportAt (loaded : Loaded F) (family : RunFamily) (pair : String × EndpointRole) :
    Except PyError (LoadedReport F) :=
  match loaded.lookup family with
  | none => .error (.key family.text)
  | some reports =>
      match reports.lookup pair with
      | none => .error (.key (pair.1 ++ ", " ++ pair.2.text))
      | some report => .ok report

section Run

-- `resolve` follows links, and can fail
variable (resolve : PurePath → Except PyError PurePath) (runRoot : PurePath)

def reportKey (family : FamilyHeader) (entry : EndpointReport) : ReportKey :=
  ⟨entry.workloadLabel, entry.endpointRole, family.runFamily, family.instrumentation, family.selectedPath⟩

def loadEntry (family : FamilyHeader) (entry : EndpointReport) : Except PyError (LoadedReport F) := do
  let path ← resolve (runRoot.join (PurePath.ofString entry.artifact))
  loadReport py files path (reportKey family entry)

def addEntry (family : FamilyHeader) (reports : FamilyReports F) (_index : Nat) (entry : EndpointReport) :
    Except PyError (FamilyReports F) := do
  let report ← loadEntry py files resolve runRoot family entry
  return (entry.pair, report) :: reports

def addFamily (loaded : Loaded F) (_index : Nat) (family : ArtifactFamily) : Except PyError (Loaded F) := do
  let reports ← checkLoop (addEntry py files resolve runRoot family.toFamilyHeader) [] 0 family.endpointReports
  return (family.runFamily, reports) :: loaded

/-- The two endpoints of a workload have to come from one run. -/
def checkPairing (loaded : Loaded F) (family : ArtifactFamily) (label : String) : Except PyError Unit := do
  let client ← reportAt loaded family.runFamily (label, .client)
  let server ← reportAt loaded family.runFamily (label, .server)
  let clientRunId ← textItem client.metadata "run_id"
  let serverRunId ← textItem server.metadata "run_id"
  let name := family.runFamily.text
  let directory := (runRoot.join (PurePath.ofString family.selectedPath)).str
  let clientRepr := py.reprStr clientRunId
  let serverRepr := py.reprStr serverRunId
  ensure (clientRunId = serverRunId)
    (.summary (s!"label={label} phase=pairing-mismatch endpoint_role=client/server run_family={name} " ++
      s!"artifact={directory} run_id mismatch client={clientRepr} server={serverRepr}"))

def loadFamilyReports (manifest : Manifest) : Except PyError (Loaded F) := do
  let loaded ← checkLoop (addFamily py files resolve runRoot) [] 0 manifest.artifactFamilies
  let _ ← checkEach (fun _ family =>
    checkEach (fun _ label => checkPairing py runRoot loaded family label) 0
      manifest.scope.workloadLabels) 0 manifest.artifactFamilies
  return loaded

end Run

/-! ## Rows -/

/-- What a row says of one family. -/
structure Column (F : Type) where
  artifact : String
  runId : String
  throughputRps : F
  latencyUsP50 : F
  latencyUsP95 : F
  stageNanosTotal : F
  stageBytesTotal : F

/-- `float(metrics[key])` -/
def metric (metrics : Dict F) (key : String) : Except PyError F := do
  let value ← item metrics key
  py.float value

def column (report : LoadedReport F) : Except PyError (Column F) := do
  let throughputRps ← metric py report.metrics "throughput_rps"
  let latencyUsP50 ← metric py report.metrics "latency_us_p50"
  let runId ← textItem report.metadata "run_id"
  let latencyUsP95 ← metric py report.metrics "latency_us_p95"
  return ⟨report.artifact, runId, throughputRps, latencyUsP50, latencyUsP95, report.stageTotals.totalNanos,
    report.stageTotals.totalBytes⟩

def safeRatio (numerator denominator : F) : Option F :=
  if py.isZero denominator then none else some (py.div numerator denominator)

structure ThroughputBaseline (F : Type) where
  minusRps : F
  throughputRatio : Option F
  minusLatencyUsP50 : F

structure Attribution (F : Type) extends ThroughputBaseline F where
  minusStageNanosTotal : F

structure Row (F : Type) where
  workloadLabel : String
  endpointRole : EndpointRole
  devicePath : Value F
  softwareBaseline : Column F
  softwareAttribution : Column F
  idxdAttribution : Column F
  throughputBaseline : ThroughputBaseline F
  attribution : Attribution F

def Row.pair (row : Row F) : String × EndpointRole := (row.workloadLabel, row.endpointRole)

def Row.column (row : Row F) : RunFamily → Column F
  | .softwareBaseline => row.softwareBaseline
  | .softwareAttribution => row.softwareAttribution
  | .idxdAttribution => row.idxdAttribution

/-- The columns of the accelerated path against those of a software family. -/
def compare (idxd software : Column F) : ThroughputBaseline F where
  minusRps := py.sub idxd.throughputRps software.throughputRps
  throughputRatio := safeRatio py idxd.throughputRps software.throughputRps
  minusLatencyUsP50 := py.sub idxd.latencyUsP50 software.latencyUsP50

def makeRow (pair : String × EndpointRole) (devicePath : Value F) (baseline swOn idxd : Column F) : Row F where
  workloadLabel := pair.1
  endpointRole := pair.2
  devicePath := devicePath
  softwareBaseline := baseline
  softwareAttribution := swOn
  idxdAttribution := idxd
  throughputBaseline := compare py idxd baseline
  attribution :=
    { compare py idxd swOn with
      minusStageNanosTotal := py.sub idxd.stageNanosTotal swOn.stageNanosTotal }

/-- The script takes the fields of the three reports by turns; here they come column by column. -/
def buildRow (familyReports : Loaded F) (pair : String × EndpointRole) : Except PyError (Row F) := do
  let baseline ← reportAt familyReports .softwareBaseline pair
  let swOn ← reportAt familyReports .softwareAttribution pair
  let idxd ← reportAt familyReports .idxdAttribution pair
  let devicePath ← item idxd.metadata "accelerated_device_path"
  let baselineColumn ← column py baseline
  let swOnColumn ← column py swOn
  let idxdColumn ← column py idxd
  return makeRow py pair devicePath baselineColumn swOnColumn idxdColumn

def buildRows (manifest : Manifest) (familyReports : Loaded F) : Except PyError (List (Row F)) :=
  checkEach (fun _ pair => buildRow py familyReports pair) 0
    (manifest.scope.workloadLabels.product expectedEndpointRoles)

end DsaStdexec.Profile.Summary

import DsaStdexec.Profile.Contract

/-!
# `run_s02_evidence.py` and `run_s03_idxd_evidence.py`

Each runner loads a manifest of its own, runs a server and a client for every workload (and, in S02, for
both instrumentations), and validates the reports that these have written. The validators of the two
manifests share most of their checks. Of the run itself, only the reports are modelled: which one is
written where, and in which order.
-/

namespace DsaStdexec.Profile.Evidence

open DsaStdexec.Lib Contract

variable {F : Type} (py : Python F) (files : Files F)

/-! ## Fields -/

def requiredPositiveInt (obj : Dict F) (key scope : String) : Except PyError Int :=
  match asInt (get obj key) with
  | some n =>
      if n ≤ 0 then .error (.manifest s!"{scope} field {key} must be a positive integer") else .ok n
  | none => .error (.manifest s!"{scope} field {key} must be a positive integer")

def requiredBool (obj : Dict F) (key scope : String) : Except PyError Bool :=
  match get obj key with
  | .bool b => .ok b
  | _ => .error (.manifest s!"{scope} field {key} must be a boolean")

/-- `manifest.get("defaults") or {}` -/
def defaultsOf (manifest : Dict F) : Value F :=
  if py.truthy (get manifest "defaults") then get manifest "defaults" else .object []

/-! ## Checks of both manifests

`phase` is what the S03 runner puts in front of most of its messages. -/

section Shared

variable (phase scope : String)

def checkWarmup (merged : Dict F) : Except PyError Int :=
  match asInt (get merged "warmup_ms") with
  | some n =>
      if n < 0 then .error (.manifest s!"{phase}{scope} field warmup_ms must be a non-negative integer")
      else .ok n
  | none => .error (.manifest s!"{phase}{scope} field warmup_ms must be a non-negative integer")

/-- The fields that a workload can have from the defaults. -/
def checkFields (merged : Dict F) (texts : List String) : Except PyError Unit := do
  let _ ← checkWarmup phase scope merged
  let _ ← checkEach (fun _ field => requiredPositiveInt merged field scope) 0
    ["measure_ms", "requests", "concurrency"]
  let _ ← checkEach (fun _ field => requiredStr merged field scope) 0 texts
  return ()

def checkRpc (merged : Dict F) (label rpc : String) : Except PyError Unit :=
  let labelRepr := py.reprStr label
  let rpcRepr := py.reprStr rpc
  if rpc = "unary-bytes" then do
    let _ ← requiredPositiveInt merged "payload_size" scope
    let _ ← requiredStr merged "payload_kind" scope
    return ()
  else if rpc = "unary-proto-shape" then do
    let _ ← requiredStr merged "proto_shape" scope
    let _ ← requiredStr merged "response_shape" scope
    return ()
  else .error (.manifest s!"{phase}{scope} label={labelRepr} has unsupported rpc mode {rpcRepr}")

def validateRole (seenPaths : List String) (pair : Dict F) (role : EndpointRole) : Except PyError String := do
  let name := role.text
  let artifact ← requiredStr pair name scope
  let artifactRepr := py.reprStr artifact
  ensure (artifact ∉ seenPaths)
    (.manifest s!"{phase}{scope}.{name} duplicates artifact path {artifactRepr}")
  return artifact

def validatePair (seenPaths : List String) (pair : Dict F) : Except PyError Pair := do
  let client ← validateRole py phase scope seenPaths pair .client
  let server ← validateRole py phase scope (client :: seenPaths) pair .server
  return ⟨client, server⟩

/-- The fields that a workload has to have itself. -/
structure Named (F : Type) where
  label : String
  rpc : String
  endpointArtifacts : Dict F

def checkNamed (seenLabels : List String) (entry : Dict F) : Except PyError (Named F) := do
  let label ← requiredStr entry "label" scope
  let labelRepr := py.reprStr label
  ensure (label ∉ seenLabels) (.manifest s!"{phase}{scope} label={labelRepr} is duplicated")
  let rpc ← requiredStr entry "rpc" scope
  let endpointArtifacts ← asObject (get entry "endpoint_artifacts")
    s!"{phase}{scope} missing endpoint_artifacts object"
  return ⟨label, rpc, endpointArtifacts⟩

end Shared

/-- A validated workload with its artifacts; `fields` are the defaults, overridden by the entry. -/
structure Workload (F A : Type) where
  label : String
  rpc : String
  endpointArtifacts : A
  fields : Dict F

/-- The labels that a manifest has to have and does not. -/
def missingLabels {A : Type} (workloads : List (Workload F A)) : List String :=
  requiredLabels.filter fun label => label ∉ workloads.map Workload.label

/-! ## The S02 manifest -/

namespace S02

def expectedBenchmarks : List String :=
  ["tokio_spawn_join", "tokio_oneshot_completion", "tokio_mpsc_round_trip", "tokio_same_thread_wake",
    "tokio_cross_thread_wake"]

def readManifest (path : PurePath) : Except PyError (Dict F) :=
  let text := path.str
  match files.read path with
  | .osError err => .error (.manifest s!"manifest read failed ({text}): {err}")
  | .decodeError err => .error (.manifest s!"manifest parse failed ({text}): {err}")
  | .gaveUp err => .error (.other err)
  | .value value => asObject value "manifest root must be an object"

def validateEndpointArtifacts (index : Nat) (label : String) (endpointArtifacts : Dict F) :
    Except PyError ModePairs := do
  let labelRepr := py.reprStr label
  let scope := s!"workloads[{index}] label={labelRepr} endpoint_artifacts"
  let off ← asObject (get endpointArtifacts "off") s!"{scope} missing off object"
  let off ← validatePair py "" s!"{scope}.off" [] off
  let on ← asObject (get endpointArtifacts "on") s!"{scope} missing on object"
  let on ← validatePair py "" s!"{scope}.on" [off.client, off.server] on
  return ⟨off, on⟩

def validateWorkload (defaults : Dict F) (validated : List (Workload F ModePairs)) (index : Nat)
    (entry : Value F) : Except PyError (List (Workload F ModePairs)) := do
  let scope := s!"workloads[{index}]"
  let entry ← asObject entry s!"{scope} must be an object"
  let named ← checkNamed py "" scope (validated.map Workload.label) entry
  let merged := defaults ++ entry
  let artifacts ← validateEndpointArtifacts py index named.label named.endpointArtifacts
  checkFields "" scope merged ["runtime", "compression", "buffer_policy"]
  checkRpc py "" scope merged named.label named.rpc
  return validated ++ [⟨named.label, named.rpc, artifacts, merged⟩]

structure Manifest (F : Type) where
  version : Value F
  defaults : Dict F
  expectedBenchmarks : List String
  workloads : List (Workload F ModePairs)

def loadManifest (path : PurePath) : Except PyError (Manifest F) := do
  let manifest ← readManifest files path
  let defaults ← asObject (defaultsOf py manifest) "manifest.defaults must be an object"
  let benchmarks ← nonEmptyArray (get manifest "expected_benchmarks")
    "manifest.expected_benchmarks must be a non-empty array"
  let validatedBenchmarks ← nonEmptyStrings "manifest.expected_benchmarks" benchmarks
  -- the sorted lists are compared
  ensure (validatedBenchmarks.Perm expectedBenchmarks)
    (.manifest ("manifest.expected_benchmarks must match the async control-floor suite: " ++
      ", ".intercalate expectedBenchmarks))
  let workloads ← nonEmptyArray (get manifest "workloads") "manifest.workloads must be a non-empty array"
  let validatedWorkloads ← checkLoop (validateWorkload py defaults) [] 0 workloads
  ensure (missingLabels validatedWorkloads = [])
    (.manifest ("manifest.workloads missing required trust-verification labels: " ++
      ", ".intercalate (missingLabels validatedWorkloads)))
  return ⟨get manifest "version", defaults, validatedBenchmarks, validatedWorkloads⟩

end S02

/-! ## The S03 manifest -/

namespace S03

def phase : String := "phase=manifest-parse "

def expectedMetadataFields : List (String × String) :=
  [("ordinary_path", "software"), ("selected_path", "idxd"), ("seam", "codec_body"),
    ("accelerated_lane", "codec_memmove"), ("accelerated_direction", "bidirectional")]

def readManifest (path : PurePath) : Except PyError (Dict F) :=
  let text := path.str
  match files.read path with
  | .osError err => .error (.manifest s!"phase=manifest-parse manifest={text} read failed: {err}")
  | .decodeError err => .error (.manifest s!"phase=manifest-parse manifest={text} parse failed: {err}")
  | .gaveUp err => .error (.other err)
  | .value value => asObject value "phase=manifest-parse manifest root must be an object"

structure ExpectedMetadata where
  fields : List (String × String)
  requireDevicePath : Bool

def validateMetadataField (expectedMetadata : Dict F) (_index : Nat) (field : String × String) :
    Except PyError (String × String) := do
  let (key, expected) := field
  let actual ← requiredStr expectedMetadata key "manifest.expected_metadata"
  let actualRepr := py.reprStr actual
  let expectedRepr := py.reprStr expected
  ensure (actual = expected)
    (.manifest (s!"manifest.expected_metadata.{key}={actualRepr} expected {expectedRepr}" ++
      " for tracked S03 idxd validation"))
  return (key, actual)

def validateExpectedMetadata (expectedMetadata : Dict F) : Except PyError ExpectedMetadata := do
  let validated ← checkEach (validateMetadataField py expectedMetadata) 0 expectedMetadataFields
  let requireDevicePath ← requiredBool expectedMetadata "require_device_path" "manifest.expected_metadata"
  return ⟨validated, requireDevicePath⟩

def validateEndpointArtifacts (index : Nat) (label : String) (endpointArtifacts : Dict F) :
    Except PyError Pair :=
  let labelRepr := py.reprStr label
  validatePair py phase s!"workloads[{index}] label={labelRepr} endpoint_artifacts" [] endpointArtifacts

def checkPath (scope : String) (merged : Dict F) (field expected : String) : Except PyError Unit := do
  let actual ← requiredStr merged field scope
  let actualRepr := py.reprStr actual
  ensure (actual = expected)
    (.manifest (phase ++ s!"{scope} field {field}={actualRepr} expected '{expected}'"))

def validateWorkload (defaults : Dict F) (validated : List (Workload F Pair)) (index : Nat)
    (entry : Value F) : Except PyError (List (Workload F Pair)) := do
  let scope := s!"workloads[{index}]"
  let entry ← asObject entry (phase ++ s!"{scope} must be an object")
  let named ← checkNamed py phase scope (validated.map Workload.label) entry
  let merged := defaults ++ entry
  let artifacts ← validateEndpointArtifacts py index named.label named.endpointArtifacts
  checkFields phase scope merged
    ["runtime", "compression", "buffer_policy", "instrumentation", "accelerated_path"]
  checkPath py scope merged "instrumentation" "on"
  checkPath py scope merged "accelerated_path" "idxd"
  checkRpc py phase scope merged named.label named.rpc
  return validated ++ [⟨named.label, named.rpc, artifacts, merged⟩]

structure Manifest (F : Type) where
  version : Value F
  defaults : Dict F
  expectedMetadata : ExpectedMetadata
  workloads : List (Workload F Pair)

def loadManifest (path : PurePath) : Except PyError (Manifest F) := do
  let manifest ← readManifest files path
  let defaults ← asObject (defaultsOf py manifest) (phase ++ "manifest.defaults must be an object")
  let expectedMetadata ← asObject (get manifest "expected_metadata")
    (phase ++ "manifest.expected_metadata must be an object")
  let validatedExpectedMetadata ← validateExpectedMetadata py expectedMetadata
  let workloads ← nonEmptyArray (get manifest "workloads")
    (phase ++ "manifest.workloads must be a non-empty array")
  let validatedWorkloads ← checkLoop (validateWorkload py defaults) [] 0 workloads
  ensure (missingLabels validatedWorkloads = [])
    (.manifest (phase ++ "manifest.workloads missing required idxd labels: " ++
      ", ".intercalate (missingLabels validatedWorkloads)))
  return ⟨get manifest "version", defaults, validatedExpectedMetadata, validatedWorkloads⟩

end S03

/-! ## The run -/

/-- One pair of a server and a client. -/
structure Job where
  label : String
  instrumentation : Instrumentation
  artifacts : Pair

def S02.Manifest.jobs (manifest : S02.Manifest F) : List Job :=
  manifest.workloads.flatMap fun workload => [Instrumentation.off, .on].map fun instrumentation =>
    ⟨workload.label, instrumentation, workload.endpointArtifacts.get instrumentation⟩

def S03.Manifest.jobs (manifest : S03.Manifest F) : List Job :=
  manifest.workloads.map fun workload => ⟨workload.label, .on, workload.endpointArtifacts⟩

inductive Runner where
  | s02
  | s03
  deriving DecidableEq, Repr

/-- What a runner does with a manifest that it accepts. -/
def Runner.jobs (runner : Runner) (path : PurePath) : Except PyError (List Job) :=
  match runner with
  | .s02 => (S02.loadManifest py files path).map S02.Manifest.jobs
  | .s03 => (S03.loadManifest py files path).map S03.Manifest.jobs

structure ReportId where
  label : String
  instrumentation : Instrumentation
  endpointRole : EndpointRole
  deriving DecidableEq, Repr

def Job.report (job : Job) (role : EndpointRole) : ReportId := ⟨job.label, job.instrumentation, role⟩

/-- The reports that are in place. -/
abbrev Store := List String → Option ReportId

def write (outputDir : List String) (store : Store) (report : ReportId × String) : Store :=
  Function.update store (locate outputDir report.2) (some report.1)

/-- The server and the client of a job write their reports in either order. -/
def Job.writes (job : Job) (serverFirst : Bool) : List (ReportId × String) :=
  if serverFirst then
    [(job.report .server, job.artifacts.server), (job.report .client, job.artifacts.client)]
  else [(job.report .client, job.artifacts.client), (job.report .server, job.artifacts.server)]

/-- `order` says which process of a job writes first. -/
def runManifest (order : Job → Bool) (outputDir : List String) (jobs : List Job) (store : Store) : Store :=
  (jobs.flatMap fun job => job.writes (order job)).foldl (write outputDir) store

/-- What `validate_artifacts` reads for each report. -/
def readArtifacts (outputDir : List String) (jobs : List Job) (store : Store) :
    List (ReportId × Option ReportId) :=
  jobs.flatMap fun job => expectedEndpointRoles.map fun role =>
    (job.report role, store (locate outputDir (job.artifacts.get role)))

end DsaStdexec.Profile.Evidence

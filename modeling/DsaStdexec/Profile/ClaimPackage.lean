import DsaStdexec.Lib.Shell

/-!
# The claim package

`execute_run` of `run_s04_claim_package.py` runs the IDXD phase with `verify_s03_idxd_path.sh` and may
replace the artifacts of the phase by fixtures if it fails. The script is modelled with everything that
it writes. What the programs write and how they end is part of a `Host`, and so is an end of the script
by the timeout of the phase: everything that was written up to then was captured.

A write is one character, or a byte that is no text. Newlines are not translated, which no marker
depends on.
-/

namespace DsaStdexec.Profile

open DsaStdexec.Lib

abbrev Text := List Char

inductive Fd where
  | stdout
  | stderr
  deriving DecidableEq, Repr

abbrev Write := Fd × Option Char

def say (fd : Fd) (text : Text) : List Write := text.map fun c => (fd, some c)

/-! ## `verify_s03_idxd_path.sh` -/

structure ProgramRun where
  writes : List Write
  status : Nat

structure Paths where
  manifest : Text
  workspace : Text
  binary : Text
  launcher : Text
  outputDir : Text
  preflightTimeout : Text
  runTimeout : Text

def Paths.preflightArtifact (p : Paths) : Text := p.outputDir ++ "/preflight.selftest.json".toList

/-- What the script finds and what the programs do that it starts. -/
structure Host where
  device : Option Text
  manifestCheck : ProgramRun
  devenv : Bool
  build : ProgramRun
  launcher : Bool
  /-- What `getcap` prints about the launcher and what it writes to the standard error, if it is
  installed. -/
  getcap : Option (List (Option Char) × List (Option Char))
  selftest : ProgramRun
  artifactCheck : ProgramRun
  runner : ProgramRun

section Script

variable (p : Paths) (host : Host) (device : Text)

def failPhase (phase message : Text) : Shell Write :=
  ⟨say .stderr ("[verify_s03_idxd_path] phase=".toList ++ phase ++ " output_dir=".toList ++ p.outputDir ++
    " ".toList ++ message ++ "\n".toList), some 1⟩

/-- A program whose failure ends the script. -/
def program (run : ProgramRun) : Shell Write :=
  ⟨run.writes, if run.status = 0 then none else some run.status⟩

/-- A program whose failure is handled. -/
def programOr (run : ProgramRun) (onFailure : Shell Write) : Shell Write :=
  (Shell.print run.writes).andThen (if run.status = 0 then .skip else onFailure)

def require (holds : Bool) (onFailure : Shell Write) : Shell Write :=
  if holds then .skip else onFailure

def manifestLine : Text :=
  "[verify_s03_idxd_path] phase=manifest manifest=".toList ++ p.manifest ++ " output_dir=".toList ++
    p.outputDir ++ " device_path=".toList ++ device ++ "\n".toList

def buildLine : Text :=
  "[verify_s03_idxd_path] phase=build workspace=".toList ++ p.workspace ++ " binary=".toList ++ p.binary ++
    "\n".toList

def preflightLine : Text :=
  "[verify_s03_idxd_path] phase=preflight binary=".toList ++ (p.binary ++ " artifact=".toList ++
    p.preflightArtifact ++ " device_path=".toList ++ device ++ " launcher=launch timeout=".toList ++
    p.preflightTimeout ++ "\n".toList)

def runnerLine : Text :=
  "[verify_s03_idxd_path] phase=runner output_dir=".toList ++ p.outputDir ++ " device_path=".toList ++
    device ++ " timeout=".toList ++ p.runTimeout ++ "\n".toList

def doneLine : Text :=
  "[verify_s03_idxd_path] phase=done verdict=pass output_dir=".toList ++ p.outputDir ++
    " device_path=".toList ++ device ++ " preflight_artifact=".toList ++ p.preflightArtifact ++
    "\n".toList

def capability : Shell Write :=
  match host.getcap with
  | none => .skip
  | some (caps, errors) =>
      (Shell.print (errors.map fun c => (.stderr, c))).andThen
        (require (decide ("cap_sys_rawio".toList.map some <:+: caps))
          (failPhase p "preflight".toList ("device_path=".toList ++ device ++
            " launcher_status=missing_capability launcher_path=".toList ++ p.launcher ++
            " message=launcher lacks cap_sys_rawio+eip".toList)))

/-- The script up to the runner, once it has found a device. -/
def preflight : Shell Write :=
  Shell.seq [
    .print (say .stdout (manifestLine p device)),
    program host.manifestCheck,
    require host.devenv (failPhase p "preflight".toList ("device_path=".toList ++ device ++
      " launcher_status=missing_devenv message=devenv command not found".toList)),
    .print (say .stdout (buildLine p)),
    program host.build,
    require host.launcher (failPhase p "preflight".toList ("device_path=".toList ++ device ++
      " launcher_status=missing_launcher launcher_path=".toList ++ p.launcher ++
      " message=build the launcher with launch in a privileged shell before running this verifier".toList)),
    capability p host device,
    .print (say .stdout (preflightLine p device)),
    programOr host.selftest (failPhase p "preflight".toList ("device_path=".toList ++ device ++
      " launcher_status=failed artifact=".toList ++ p.preflightArtifact ++
      " message=launch-wrapped selftest failed".toList)),
    programOr host.artifactCheck (failPhase p "preflight".toList ("device_path=".toList ++ device ++
      " launcher_status=malformed artifact=".toList ++ p.preflightArtifact ++
      " message=preflight artifact validation failed".toList))]

/-- The script from the runner on. -/
def runnerStage : Shell Write :=
  Shell.seq [
    .print (say .stdout (runnerLine p device)),
    programOr host.runner (failPhase p "runner".toList ("device_path=".toList ++ device ++
      " artifact=".toList ++ p.outputDir ++ " message=split-process idxd runner failed".toList)),
    .print (say .stdout (doneLine p device))]

def verifyIdxdPath : Shell Write :=
  match host.device with
  | none =>
      failPhase p "preflight".toList ("device_path=<none> launcher_status=missing_work_queue ".toList ++
        "message=no /dev/dsa/wq* device found; set S03_ACCELERATOR_DEVICE explicitly".toList)
  | some device => (preflight p host device).andThen (runnerStage p host device)

end Script

/-! ## `run_s04_claim_package.py` -/

/-- A run of the workflow up to the IDXD phase and the fallback. -/
structure Execution where
  paths : Paths
  host : Host
  /-- The software phase before it passes. -/
  software : Bool
  /-- How much the script has written when the timeout of the phase ends it, if it does. -/
  killedAfter : Option Nat
  runRoot : Text
  summaryOutput : Text
  devicePath : Text
  timeoutS : Nat
  /-- The files in `fixture/idxd`, if the directory exists. -/
  fixture : Option (List Text)
  /-- The artifacts of the family `idxd_attribution` in the order of the manifest. -/
  artifacts : List Text

/-- The part of the writes that goes to `fd`. -/
def captured (fd : Fd) (writes : List Write) : List (Option Char) :=
  writes.filterMap fun w => if w.1 = fd then some w.2 else none

/-- `errors="replace"`. -/
def decodeReplace (bytes : List (Option Char)) : Text := bytes.map fun c => c.getD '\uFFFD'

/-- `text=True` raises an exception for bytes that are no text. -/
def decodeStrict (bytes : List (Option Char)) : Option Text :=
  if none ∈ bytes then none else some (decodeReplace bytes)

inductive PhaseResult where
  | passed
  | runError (rendered : Text)
  | unicodeDecodeError
  deriving DecidableEq

namespace Execution

variable (e : Execution)

/-- What the script writes in the phase. -/
def written : List Write :=
  let writes := (verifyIdxdPath e.paths e.host).writes
  match e.killedAfter with
  | none => writes
  | some k => writes.take k

/-- The error of the phase `idxd`; `last` is the last item of its first line. -/
def render (outcome last out err : Text) : Text :=
  "phase=idxd outcome=".toList ++ outcome ++ " output_root=".toList ++ e.runRoot ++
    " summary_path=".toList ++ e.summaryOutput ++ " device_path=".toList ++ e.devicePath ++ last ++
    "\nstdout:\n".toList ++ out ++ "\nstderr:\n".toList ++ err

/-- `run_phase_command` for the phase `idxd`. -/
def runIdxdPhase : PhaseResult :=
  let out := captured .stdout e.written
  let err := captured .stderr e.written
  match e.killedAfter with
  | some _ =>
      .runError (e.render "timeout".toList (" timeout_s=".toList ++ (toString e.timeoutS).toList)
        (decodeReplace out) (decodeReplace err))
  | none =>
      match decodeStrict out, decodeStrict err with
      | some out, some err =>
          match (verifyIdxdPath e.paths e.host).exit with
          | none => .passed
          | some 0 => .passed
          | some (code + 1) =>
              .runError (e.render "error".toList (" exit_code=".toList ++ (toString (code + 1)).toList)
                out err)
      | _, _ => .unicodeDecodeError

def fallbackMarkers : List Text :=
  ["launcher_status=missing_capability".toList, "launcher_status=missing_work_queue".toList,
    "launcher_status=missing_launcher".toList, "launcher_status=missing_devenv".toList,
    "phase=preflight".toList]

def idxdFailureAllowsFallback (rendered : Text) : Bool :=
  fallbackMarkers.any fun marker => decide (marker <:+: rendered)

/-- The artifacts that `seed_idxd_fallback` copies: it stops at the first one without a fixture. -/
def seedIdxdFallback : List Text :=
  match e.fixture with
  | none => []
  | some files => e.artifacts.takeWhile (· ∈ files)

/-- The artifacts that `execute_run` replaces by fixtures. -/
def replaced : List Text :=
  if e.software then
    match e.runIdxdPhase with
    | .passed | .unicodeDecodeError => []
    | .runError rendered => if idxdFailureAllowsFallback rendered then e.seedIdxdFallback else []
  else []

end Execution

end DsaStdexec.Profile

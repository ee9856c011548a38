import DsaStdexec.Ffi.Session

/-!
# `ProfileEncoder`

The encoder of `tonic-profile` copies a frame through the device or writes it directly. Staging buffer,
scratch buffer and session are kept from call to call. A call that still polls for a descriptor has no
outcome.
-/

namespace DsaStdexec.Profile

open DsaStdexec.Ffi

/-- A message type as `prost` encodes it: `encode` appends exactly `encoded_len` bytes. -/
structure Prost (T : Type*) where
  encode : T → List UInt8
  encodedLen : T → Nat
  length_encode : ∀ t, (encode t).length = encodedLen t

/-- The codes of the statuses that `tonic-profile` builds. -/
inductive Code where
  | internal
  | invalidArgument
  deriving DecidableEq, Repr

/-- `tonic::Status`. -/
structure Status where
  code : Code
  message : String
  deriving DecidableEq, Repr

def Status.internal (message : String) : Status := ⟨.internal, message⟩

def Status.invalidArgument (message : String) : Status := ⟨.invalidArgument, message⟩

inductive AcceleratedCopyPath where
  | software
  | idxd
  deriving DecidableEq, Repr

structure EffectiveAccelerationSettings where
  selectedPath : AcceleratedCopyPath
  devicePath : Option String

def EffectiveAccelerationSettings.software : EffectiveAccelerationSettings := ⟨.software, none⟩

/-- What an encode call meets: whether the work queue can be opened, where the buffers are, and what the
device does with the descriptors. -/
structure EncodeEnv where
  portal : Except String Unit
  place : Placement
  replies : List Reply

structure ProfileEncoder where
  acceleration : EffectiveAccelerationSettings
  staging : List UInt8
  scratch : List UInt8
  session : Option DsaSession

def idxdPhase : MemmoveError → String
  | .invalidDevicePath .. => "invalid_device_path"
  | .invalidLength .. | .destinationTooSmall .. => "copy_validation"
  | .queueOpen _ phase _ | .completionTimeout _ phase _ | .malformedCompletion _ phase ..
  | .pageFaultRetryExhausted _ phase .. | .completionStatus _ phase .. | .byteMismatch _ phase .. =>
      phase.label

def idxdStatus (devicePath : String) (err : MemmoveError) : Status :=
  .internal <| s!"idxd codec copy lane failure during {idxdPhase err} ({err.kind}) on " ++
    s!"{devicePath}: {err.display}"

/-- `Vec::resize` with zeros. -/
def resize (l : List UInt8) (n : Nat) : List UInt8 := l.take n ++ List.replicate (n - l.length) 0

namespace ProfileEncoder

def new (acceleration : EffectiveAccelerationSettings) : ProfileEncoder := ⟨acceleration, [], [], none⟩

variable {T : Type*} (P : Prost T) (e : ProfileEncoder)

/-- The session of the encoder, which is opened by the first call that needs it. -/
def ensureSession (portal : Except String Unit) : Except Status DsaSession :=
  match e.session with
  | some session => .ok session
  | none =>
      match e.acceleration.devicePath with
      | none => .error (.internal "idxd codec acceleration missing device path")
      | some devicePath =>
          match DsaSession.open devicePath portal with
          | .error err => .error (idxdStatus devicePath err)
          | .ok session => .ok session

/-- The encoder after the call, the buffer and the result. -/
def encode (item : T) (env : EncodeEnv) (dst : List UInt8) :
    Option (ProfileEncoder × List UInt8 × Except Status Unit) :=
  match e.acceleration.selectedPath with
  | .software => some (e, dst ++ P.encode item, .ok ())
  | .idxd =>
      if P.encodedLen item = 0 then
        some (e, dst, .error (.internal "idxd codec copy lane rejected a zero-length encoded frame"))
      else
        let e := { e with staging := P.encode item }
        if e.staging.length ≠ P.encodedLen item then
          some (e, dst, .error (.internal <| s!"idxd codec copy lane encoded {P.encodedLen item} bytes " ++
            s!"but staging held {e.staging.length} bytes"))
        else
          let e := { e with scratch := resize e.scratch (P.encodedLen item) }
          match e.ensureSession env.portal with
          | .error status => some (e, dst, .error status)
          | .ok session =>
              let devicePath := e.acceleration.devicePath.getD "<missing-device>"
              let out := session.memmove env.place e.scratch e.staging env.replies
              let e := { e with session := some session, scratch := out.dst }
              match out.result with
              | none => none
              | some (.error err) => some (e, dst, .error (idxdStatus devicePath err))
              | some (.ok _) => some (e, dst ++ e.scratch, .ok ())

/-- The encoder after the calls of a history, each with a buffer of its own. -/
def replay : ProfileEncoder → List (T × EncodeEnv × List UInt8) → Option ProfileEncoder
  | e, [] => some e
  | e, (item, env, dst) :: calls => (e.encode P item env dst).bind fun x => replay x.1 calls

end ProfileEncoder

end DsaStdexec.Profile

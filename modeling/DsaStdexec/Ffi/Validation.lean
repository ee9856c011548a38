import DsaStdexec.Operation.Descriptor

/-!
# `dsa-ffi`: requests and completions

What the Rust bridge checks of a request and how it reads a completion record. Lengths that the source
keeps in a `usize` are natural numbers; the conversions to `u32` are written out.
-/

namespace DsaStdexec.Ffi

open DsaStdexec.Operation

def defaultDevicePath : String := "/dev/dsa/wq0.0"

/-- What `poll_completion` returns when it gives up. -/
def completionTimeoutStatus : BitVec 8 := 0xff

def defaultMaxPageFaultRetries : BitVec 32 := 1

def maxMemmoveBytes : Nat := 2 ^ 32 - 1

def compNone : BitVec 8 := 0

def compStatusMask : BitVec 8 := 0x7f

inductive MemmovePhase where
  | queueOpen
  | completionPoll
  | pageFaultRetry
  | postCopyVerify
  deriving DecidableEq, Repr

/-- The source of a `queueOpen` is the text of an `io::Error`. -/
inductive MemmoveError where
  | invalidDevicePath (devicePath : String)
  | invalidLength (requestedLen maxLen : Nat)
  | destinationTooSmall (srcLen dstLen : Nat)
  | queueOpen (devicePath : String) (phase : MemmovePhase) (source : String)
  | completionTimeout (devicePath : String) (phase : MemmovePhase) (pageFaultRetries : BitVec 32)
  | malformedCompletion (devicePath : String) (phase : MemmovePhase) (status result : BitVec 8)
      (bytesCompleted : BitVec 32) (faultAddr : BitVec 64) (pageFaultRetries : BitVec 32)
      (detail : String)
  | pageFaultRetryExhausted (devicePath : String) (phase : MemmovePhase) (retries : BitVec 32)
      (bytesCompleted : BitVec 32) (faultAddr : BitVec 64)
  | completionStatus (devicePath : String) (phase : MemmovePhase) (status : BitVec 8)
      (bytesCompleted : BitVec 32) (faultAddr : BitVec 64) (pageFaultRetries : BitVec 32)
  | byteMismatch (devicePath : String) (phase : MemmovePhase) (requestedBytes mismatchOffset : Nat)
      (finalStatus : BitVec 8) (pageFaultRetries : BitVec 32)
  deriving DecidableEq, Repr

def normalizeDevicePath (devicePath : String) : Except MemmoveError String :=
  if devicePath = "" then .error (.invalidDevicePath devicePath) else .ok devicePath

/-- A configuration is built by `with_retries`, which checks the path. -/
structure MemmoveValidationConfig where
  devicePath : String
  maxPageFaultRetries : BitVec 32
  devicePath_ne : devicePath ≠ ""

/-! ## Requests -/

structure MemmoveRequest where
  len : BitVec 32
  len_ne : len ≠ 0
  deriving DecidableEq

theorem ofNat_ne_zero {n : Nat} (h : ¬ (n = 0 ∨ n > maxMemmoveBytes)) : BitVec.ofNat 32 n ≠ 0 := by
  intro he
  have := congrArg BitVec.toNat he
  simp only [maxMemmoveBytes, BitVec.toNat_ofNat, BitVec.ofNat_eq_ofNat, Nat.zero_mod] at this h
  omega

def MemmoveRequest.new (requestedLen : Nat) : Except MemmoveError MemmoveRequest :=
  if h : requestedLen = 0 ∨ requestedLen > maxMemmoveBytes then
    .error (.invalidLength requestedLen maxMemmoveBytes)
  else .ok ⟨BitVec.ofNat 32 requestedLen, ofNat_ne_zero h⟩

def MemmoveRequest.forBuffers (dstLen srcLen : Nat) : Except MemmoveError MemmoveRequest :=
  match MemmoveRequest.new srcLen with
  | .error e => .error e
  | .ok request =>
      if dstLen < srcLen then .error (.destinationTooSmall srcLen dstLen) else .ok request

/-! ## Completions -/

structure CompletionSnapshot where
  status : BitVec 8
  result : BitVec 8
  bytesCompleted : BitVec 32
  faultAddr : BitVec 64
  deriving DecidableEq, Repr

def CompletionSnapshot.fromRecord (record : CompletionRecord) (polledStatus : BitVec 8) :
    CompletionSnapshot :=
  ⟨polledStatus, record.result, record.bytesCompleted, record.faultAddr⟩

structure MemmoveRetry where
  nextSrcOffset : Nat
  nextDstOffset : Nat
  remainingBytes : Nat
  deriving DecidableEq, Repr

inductive CompletionAction where
  | success
  | retry (r : MemmoveRetry)
  deriving DecidableEq, Repr

def classifyMemmoveCompletion (config : MemmoveValidationConfig) (remainingLen : Nat)
    (snapshot : CompletionSnapshot) (pageFaultRetries : BitVec 32) :
    Except MemmoveError CompletionAction :=
  if snapshot.status = completionTimeoutStatus then
    .error (.completionTimeout config.devicePath .completionPoll pageFaultRetries)
  else if snapshot.status = compSuccess then .ok .success
  else if snapshot.status = compPageFaultNobof then
    let malformed := fun detail =>
      MemmoveError.malformedCompletion config.devicePath .pageFaultRetry snapshot.status snapshot.result
        snapshot.bytesCompleted snapshot.faultAddr pageFaultRetries detail
    if snapshot.faultAddr = 0 then .error (malformed "page fault reported without a fault address")
    else if 1 < snapshot.result then
      .error (malformed "memmove page-fault direction must be 0 or 1")
    else if remainingLen < snapshot.bytesCompleted.toNat then
      .error (malformed "bytes_completed exceeds the remaining transfer size")
    else if config.maxPageFaultRetries ≤ pageFaultRetries then
      .error (.pageFaultRetryExhausted config.devicePath .pageFaultRetry pageFaultRetries
        snapshot.bytesCompleted snapshot.faultAddr)
    else
      let advanced := snapshot.bytesCompleted.toNat
      let offset := if snapshot.result = 0 then advanced else 0
      .ok (.retry ⟨offset, offset, remainingLen - advanced⟩)
  else
    .error (.completionStatus config.devicePath .completionPoll (snapshot.status &&& compStatusMask)
      snapshot.bytesCompleted snapshot.faultAddr pageFaultRetries)

structure MemmoveValidationReport where
  devicePath : String
  requestedBytes : Nat
  pageFaultRetries : BitVec 32
  finalStatus : BitVec 8
  deriving DecidableEq, Repr

def MemmoveValidationReport.new (devicePath : String) (request : MemmoveRequest)
    (pageFaultRetries : BitVec 32) (finalStatus : BitVec 8) :
    Except MemmoveError MemmoveValidationReport :=
  match normalizeDevicePath devicePath with
  | .error e => .error e
  | .ok path => .ok ⟨path, request.len.toNat, pageFaultRetries, finalStatus⟩

/-! ## Texts -/

def MemmovePhase.label : MemmovePhase → String
  | .queueOpen => "queue_open"
  | .completionPoll => "completion_poll"
  | .pageFaultRetry => "page_fault_retry"
  | .postCopyVerify => "post_copy_verify"

def MemmoveError.kind : MemmoveError → String
  | .invalidDevicePath .. => "invalid_device_path"
  | .invalidLength .. => "invalid_length"
  | .destinationTooSmall .. => "destination_too_small"
  | .queueOpen .. => "queue_open"
  | .completionTimeout .. => "completion_timeout"
  | .malformedCompletion .. => "malformed_completion"
  | .pageFaultRetryExhausted .. => "page_fault_retry_exhausted"
  | .completionStatus .. => "completion_status"
  | .byteMismatch .. => "byte_mismatch"

def hex (n : Nat) : String := String.ofList (Nat.toDigits 16 n)

/-- The format `02x` of a byte. -/
def hexByte (b : BitVec 8) : String := (if b.toNat < 16 then "0" else "") ++ hex b.toNat

def MemmoveError.display : MemmoveError → String
  | .invalidDevicePath path => s!"invalid DSA work-queue path: {path}"
  | .invalidLength requestedLen maxLen =>
      s!"invalid memmove length {requestedLen}; expected 1..={maxLen}"
  | .destinationTooSmall srcLen dstLen =>
      s!"destination buffer too small: src_len={srcLen}, dst_len={dstLen}"
  | .queueOpen path phase source =>
      s!"failed to open DSA work queue {path} during {phase.label}: {source}"
  | .completionTimeout path phase retries =>
      s!"completion polling timed out for {path} during {phase.label} after {retries.toNat} retries"
  | .malformedCompletion path phase status result bytes fault retries detail =>
      s!"malformed completion for {path} during {phase.label} after {retries.toNat} retries: status=0x" ++
        hexByte status ++ s!", result={result.toNat}, bytes_completed={bytes.toNat}, fault_addr=0x" ++
        hex fault.toNat ++ s!" ({detail})"
  | .pageFaultRetryExhausted path phase retries bytes fault =>
      s!"page-fault retry exhausted for {path} during {phase.label}: retries={retries.toNat}, " ++
        s!"bytes_completed={bytes.toNat}, fault_addr=0x" ++ hex fault.toNat
  | .completionStatus path phase status bytes fault retries =>
      s!"memmove completion failed for {path} during {phase.label} after {retries.toNat} retries: " ++
        "status=0x" ++ hexByte status ++ s!", bytes_completed={bytes.toNat}, fault_addr=0x" ++
        hex fault.toNat
  | .byteMismatch path phase requested offset status retries =>
      s!"post-copy verification failed for {path} during {phase.label}: mismatch_offset={offset}, " ++
        s!"requested_bytes={requested}, final_status=0x" ++ hexByte status ++
        s!", retries={retries.toNat}"

end DsaStdexec.Ffi

import DsaStdexec.Ffi.Validation

/-!
# `DsaSession`

`memmove` submits one descriptor at a time and waits for it. A `Reply` is what the device does with one
descriptor until `poll_completion` returns for it: what the reads of the status byte see, the record as
it stands then, and the bytes that were written into the destination. A descriptor without a reply is
still being polled for.
-/

namespace DsaStdexec.Ffi

open DsaStdexec.Operation

structure Reply where
  reads : Nat → BitVec 8
  record : CompletionRecord
  /-- By the offset in the destination buffer. -/
  data : Nat → Option UInt8

def maxSpins : Nat := 2000000000

/-- The loop of `poll_completion` with `left` reads to go; `spins` counts those before. -/
def pollLoop (reads : Nat → BitVec 8) : Nat → Nat → BitVec 8
  | 0, _ => completionTimeoutStatus
  | left + 1, spins =>
      if reads spins ≠ compNone then reads spins &&& compStatusMask else pollLoop reads left (spins + 1)

def pollCompletion (reads : Nat → BitVec 8) : BitVec 8 := pollLoop reads maxSpins 0

def Reply.snapshot (r : Reply) : CompletionSnapshot :=
  .fromRecord r.record (pollCompletion r.reads)

/-- The portal itself is not modelled: `submit` returns once the descriptor is accepted. -/
structure DsaSession where
  config : MemmoveValidationConfig

structure PendingMemmove where
  src : BitVec 64
  dst : BitVec 64
  remaining : BitVec 32
  deriving DecidableEq, Repr

namespace PendingMemmove

def new (src dst : BitVec 64) (request : MemmoveRequest) : PendingMemmove := ⟨src, dst, request.len⟩

/-- `fill_memmove` and `set_completion`; `comp` is the address of the record on the stack. -/
def fillDescriptor (s : PendingMemmove) (comp : BitVec 64) : HwDesc :=
  { HwDesc.zero with
    opcode := .memmove
    flags := opFlagRcr ||| opFlagCrav ||| opFlagCc
    srcAddr := s.src
    dstAddr := s.dst
    xferSize := s.remaining
    completionAddr := comp }

def applyRetry (s : PendingMemmove) (retry : MemmoveRetry) : PendingMemmove where
  src := s.src + BitVec.ofNat 64 retry.nextSrcOffset
  dst := s.dst + BitVec.ofNat 64 retry.nextDstOffset
  remaining := BitVec.ofNat 32 retry.remainingBytes

end PendingMemmove

/-- How the loop of `memmove_inner` goes on after a poll. -/
inductive Progress where
  | returned (result : Except MemmoveError MemmoveValidationReport)
  | resubmit (state : PendingMemmove) (retries : BitVec 32)

/-- The body of the loop after `poll_completion`. The faulting page is touched before the descriptor is
submitted again, which leaves memory as it is. -/
def resume (config : MemmoveValidationConfig) (request : MemmoveRequest) (state : PendingMemmove)
    (retries : BitVec 32) (snapshot : CompletionSnapshot) : Progress :=
  match classifyMemmoveCompletion config state.remaining.toNat snapshot retries with
  | .error e => .returned (.error e)
  | .ok .success =>
      .returned (MemmoveValidationReport.new config.devicePath request retries snapshot.status)
  | .ok (.retry retry) => .resubmit (state.applyRetry retry) (retries + 1)

/-- Byte `i` of a buffer at `base` lies in the destination of the descriptor. -/
def InDestination (base : BitVec 64) (d : HwDesc) (i : Nat) : Prop :=
  (base + BitVec.ofNat 64 i - d.dstAddr).toNat < d.xferSize.toNat

instance (base : BitVec 64) (d : HwDesc) (i : Nat) : Decidable (InDestination base d i) :=
  inferInstanceAs (Decidable (_ < _))

/-- The device may write anything into the destination of a descriptor. -/
def deliver (base : BitVec 64) (d : HwDesc) (data : Nat → Option UInt8) (dst : List UInt8) :
    List UInt8 :=
  dst.mapIdx fun i b => if InDestination base d i then (data i).getD b else b

/-- What a call has done: the descriptors that it has submitted, the destination buffer, and its result
once it has returned. -/
structure Outcome where
  submitted : List HwDesc
  dst : List UInt8
  result : Option (Except MemmoveError MemmoveValidationReport)

/-- Where the buffers and the completion record are. -/
structure Placement where
  src : BitVec 64
  dst : BitVec 64
  comp : BitVec 64

def memmoveLoop (config : MemmoveValidationConfig) (request : MemmoveRequest) (place : Placement) :
    PendingMemmove → BitVec 32 → List UInt8 → List Reply → Outcome
  | state, _, dst, [] => ⟨[state.fillDescriptor place.comp], dst, none⟩
  | state, retries, dst, r :: rs =>
      let d := state.fillDescriptor place.comp
      let dst := deliver place.dst d r.data dst
      match resume config request state retries r.snapshot with
      | .returned result => ⟨[d], dst, some result⟩
      | .resubmit state retries =>
          let out := memmoveLoop config request place state retries dst rs
          { out with submitted := d :: out.submitted }

namespace DsaSession

/-- `portal` is what `WqPortal::open` returns; its error is the text of an `io::Error`. -/
def openWithRetries (devicePath : String) (maxPageFaultRetries : BitVec 32)
    (portal : Except String Unit) : Except MemmoveError DsaSession :=
  if h : devicePath = "" then .error (.invalidDevicePath devicePath)
  else
    match portal with
    | .error source => .error (.queueOpen devicePath .queueOpen source)
    | .ok () => .ok ⟨⟨devicePath, maxPageFaultRetries, h⟩⟩

def «open» (devicePath : String) (portal : Except String Unit) : Except MemmoveError DsaSession :=
  openWithRetries devicePath defaultMaxPageFaultRetries portal

variable (s : DsaSession)

def memmoveInner (request : MemmoveRequest) (place : Placement) (dst : List UInt8)
    (replies : List Reply) : Outcome :=
  memmoveLoop s.config request place (PendingMemmove.new place.src place.dst request) 0 dst replies

/-- The position of the first byte that differs. -/
def mismatch (dst src : List UInt8) : Option Nat := (dst.zip src).findIdx? fun x => x.1 != x.2

/-- The verification after the copy. -/
def verify (request : MemmoveRequest) (dst src : List UInt8) (report : MemmoveValidationReport) :
    Except MemmoveError MemmoveValidationReport :=
  match mismatch dst src with
  | some offset =>
      .error (.byteMismatch s.config.devicePath .postCopyVerify request.len.toNat offset
        report.finalStatus report.pageFaultRetries)
  | none => .ok report

def memmove (place : Placement) (dst src : List UInt8) (replies : List Reply) : Outcome :=
  match MemmoveRequest.forBuffers dst.length src.length with
  | .error e => ⟨[], dst, some (.error e)⟩
  | .ok request =>
      let out := s.memmoveInner request place dst replies
      match out.result with
      | none => out
      | some (.error e) => { out with result := some (.error e) }
      | some (.ok report) => { out with result := some (s.verify request out.dst src report) }

end DsaSession

end DsaStdexec.Ffi

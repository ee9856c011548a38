import DsaStdexec.Operation.Resume
import DsaStdexec.Submitter.Direct

/-!
# `DsaEngine::data_move` and `DataMoveOperation`

The blocking call submits its descriptor itself and waits for the record; the operation goes through
`submit`, `poll` and `notify`. Both are functions of what the device answers.
-/

namespace DsaStdexec.Operation

open DsaStdexec.Submitter

/-- What the hardware does with a descriptor: it finds the shared queue full `busy` times, accepts the
descriptor, and writes the record at last. -/
structure Answer where
  busy : Nat
  record : CompletionRecord

/-! ## The blocking call -/

def kEnqueueSpinLimit : Nat := 2 ^ 20

/-- `EBUSY` -/
def eBusy : Nat := 16

def uint32Max : Nat := 2 ^ 32 - 1

/-- The descriptor that `data_move` builds. -/
def dataMoveDesc (src dst : BitVec 64) (size : Nat) (comp : BitVec 64) : HwDesc :=
  { HwDesc.zero with
    opcode := .memmove
    flags := ((opFlagRcr ||| opFlagCrav) ||| opFlagCc)
    xferSize := BitVec.ofNat 32 size
    srcAddr := src
    dstAddr := dst
    completionAddr := comp }

/-- The part behind the label `retry`. A dedicated queue takes every descriptor; `ENQCMD` is tried a
limited number of times. `none` stands for a call that still waits. -/
def dataMoveRetry (mode : WqMode) : HwDesc → List Answer → Option (Except DsaError Unit)
  | _, [] => none
  | d, a :: as =>
      if mode = .shared ∧ kEnqueueSpinLimit ≤ a.busy then
        some (.error (dsaSubmitErrno "DSA portal busy - enqueue spin limit exceeded" eBusy))
      else if a.record.code ≠ compSuccess then
        if a.record.code = compPageFaultNobof then
          dataMoveRetry mode
            { d with
              srcAddr := d.srcAddr + a.record.bytesCompleted.setWidth 64
              dstAddr := d.dstAddr + a.record.bytesCompleted.setWidth 64
              xferSize := d.xferSize - a.record.bytesCompleted } as
        else some (.error (.completion a.record.code a.record .memmove "data_move"))
      else some (.ok ())

def dataMove (mapped : Bool) (mode : WqMode) (src dst : BitVec 64) (size : Nat) (comp : BitVec 64)
    (answers : List Answer) : Option (Except DsaError Unit) :=
  if size = 0 then some (.ok ())
  else if mapped = false then some (.error (dsaError "DSA work queue portal is not mapped"))
  else if src = 0 ∨ dst = 0 then some (.error (dsaError "DSA data_move received a null pointer"))
  else if uint32Max < size then
    some (.error (dsaError "DSA data_move size exceeds the maximum transfer length"))
  else dataMoveRetry mode (dataMoveDesc src dst size comp) answers

/-! ## The operation -/

/-- What the receiver gets. -/
inductive Signal (ρ : Type) where
  | value (r : ρ)
  | error (e : DsaError)

namespace DsaOperation

variable {ρ : Type} (o : DsaOperation ρ)

/-- `submit` and what follows; a `submit` without a portal throws, and a full queue is waited for. -/
def await (mapped : Bool) : HwDesc → List Answer → Option (Signal ρ)
  | d, as =>
      if mapped = false then
        some (.error (dsaSubmitError "DSA work queue portal is not mapped"))
      else match as with
        | [] => none
        | a :: as =>
            match o.notify d a.record with
            | .value r => some (.value r)
            | .error e => some (.error e)
            | .resubmit d' => await mapped d' as

def signal (mapped : Bool) (comp : BitVec 64) (answers : List Answer) : Option (Signal ρ) :=
  match o.preStartValidate with
  | some e => some (.error e)
  | none => o.await mapped (o.fillDescriptor comp) answers

/-- The number of bytes that the device has worked on for the operation. -/
def transferred (d : HwDesc) (records : List CompletionRecord) : Nat :=
  ((o.submissions d records).map fun x => processed x.1 x.2).sum

end DsaOperation

/-! ## Conditions -/

/-- The first record that is not a page fault is a success. -/
def EndsInSuccess : List Answer → Prop
  | [] => False
  | a :: as => a.record.code = compSuccess ∨ a.record.code = compPageFaultNobof ∧ EndsInSuccess as

/-- The shared queue accepts each descriptor before the blocking call gives up. -/
def Accepted : List Answer → Prop
  | [] => True
  | a :: as => a.busy < kEnqueueSpinLimit ∧ (a.record.code = compPageFaultNobof → Accepted as)

/-- No page fault reports more bytes than its descriptor had. -/
def Conforming : HwDesc → List Answer → Prop
  | _, [] => True
  | d, a :: as => a.record.code = compPageFaultNobof →
      a.record.bytesCompleted ≤ d.xferSize ∧ Conforming (adjustForPageFault d a.record) as

end DsaStdexec.Operation

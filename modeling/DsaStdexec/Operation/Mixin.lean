import DsaStdexec.Operation.Descriptor

/-!
# The operations

`DsaOperationMixin` and the operations over it. An operation differs from the others in how it fills
its descriptor, in what it checks before it starts, and in whether and how it reads a result from the
completion record.
-/

namespace DsaStdexec.Operation

abbrev Memory := BitVec 64 → UInt8

/-! ## Errors -/

/-- `DsaError`: built from a completion record, or from a message. -/
inductive DsaError where
  | completion (status : BitVec 8) (record : CompletionRecord) (opcode : Opcode) (context : String)
  | message (text : String)
  deriving DecidableEq, Repr

def dsaError (message : String) : DsaError := .message ("DSA error: " ++ message)

def dsaSubmitError (reason : String) : DsaError :=
  dsaError ("Failed to submit DSA descriptor: " ++ reason)

/-- `DsaSubmitError` with an error number. -/
def dsaSubmitErrno (reason : String) (errorCode : Nat) : DsaError :=
  dsaError ("Failed to submit DSA descriptor: " ++ reason ++ " (errno=" ++ toString errorCode ++ ")")

/-! ## Descriptors

Each function fills a zeroed descriptor; `start` sets the completion address. -/

def fillMemFill (dst : BitVec 64) (size : Nat) (pattern comp : BitVec 64) : HwDesc :=
  { HwDesc.zero with
    opcode := .memfill
    flags := opFlagRcr ||| opFlagCrav ||| opFlagCc
    xferSize := BitVec.ofNat 32 size
    dstAddr := dst
    srcAddr := pattern
    completionAddr := comp }

def fillCompare (src1 src2 : BitVec 64) (size : Nat) (comp : BitVec 64) : HwDesc :=
  { HwDesc.zero with
    opcode := .compare
    flags := opFlagRcr ||| opFlagCrav
    xferSize := BitVec.ofNat 32 size
    srcAddr := src1
    dstAddr := src2
    completionAddr := comp }

def fillCompareValue (src : BitVec 64) (size : Nat) (pattern comp : BitVec 64) : HwDesc :=
  { HwDesc.zero with
    opcode := .compval
    flags := opFlagRcr ||| opFlagCrav
    xferSize := BitVec.ofNat 32 size
    srcAddr := src
    dstAddr := pattern
    completionAddr := comp }

def fillDualcast (src dst1 dst2 : BitVec 64) (size : Nat) (comp : BitVec 64) : HwDesc :=
  { HwDesc.zero with
    opcode := .dualcast
    flags := opFlagRcr ||| opFlagCrav ||| opFlagCc
    xferSize := BitVec.ofNat 32 size
    srcAddr := src
    dstAddr := dst1
    dest2 := dst2
    completionAddr := comp }

def fillCrcGen (src : BitVec 64) (size : Nat) (seed : BitVec 32) (comp : BitVec 64) : HwDesc :=
  { HwDesc.zero with
    opcode := .crcgen
    flags := opFlagRcr ||| opFlagCrav
    xferSize := BitVec.ofNat 32 size
    srcAddr := src
    crcSeed := seed
    completionAddr := comp }

def fillCopyCrc (src dst : BitVec 64) (size : Nat) (seed : BitVec 32) (comp : BitVec 64) : HwDesc :=
  { HwDesc.zero with
    opcode := .copyCrc
    flags := opFlagRcr ||| opFlagCrav
    xferSize := BitVec.ofNat 32 size
    srcAddr := src
    dstAddr := dst
    crcSeed := seed
    completionAddr := comp }

def fillCacheFlush (dst : BitVec 64) (size : Nat) (comp : BitVec 64) : HwDesc :=
  { HwDesc.zero with
    opcode := .cflush
    flags := opFlagRcr ||| opFlagCrav
    xferSize := BitVec.ofNat 32 size
    dstAddr := dst
    completionAddr := comp }

/-! ## Operations -/

/-- An operation with its parameters. `hasResult` says that `result_type` is not void;
`fillDescriptor` takes the address of the completion record; `preStartValidate` is the error that the
receiver gets instead of a submission. -/
structure DsaOperation (ρ : Type) where
  opName : String
  hasResult : Bool
  extractResult : CompletionRecord → ρ
  fillDescriptor : BitVec 64 → HwDesc
  preStartValidate : Option DsaError

/-- An operation whose `result_type` is void. -/
def voidOperation (opName : String) (fillDescriptor : BitVec 64 → HwDesc) : DsaOperation Unit where
  opName := opName
  hasResult := false
  extractResult := fun _ => ()
  fillDescriptor := fillDescriptor
  preStartValidate := none

def resultOperation {ρ : Type} (opName : String) (extractResult : CompletionRecord → ρ)
    (fillDescriptor : BitVec 64 → HwDesc) : DsaOperation ρ where
  opName := opName
  hasResult := true
  extractResult := extractResult
  fillDescriptor := fillDescriptor
  preStartValidate := none

def dataMoveOperation (src dst : BitVec 64) (size : Nat) : DsaOperation Unit :=
  voidOperation "data_move" (fillDataMove src dst size)

def memFillOperation (dst : BitVec 64) (size : Nat) (pattern : BitVec 64) : DsaOperation Unit :=
  voidOperation "mem_fill" (fillMemFill dst size pattern)

def cacheFlushOperation (dst : BitVec 64) (size : Nat) : DsaOperation Unit :=
  voidOperation "cache_flush" (fillCacheFlush dst size)

def compareOperation (src1 src2 : BitVec 64) (size : Nat) : DsaOperation Bool :=
  resultOperation "compare" (fun c => c.result = 0) (fillCompare src1 src2 size)

def compareValueOperation (src : BitVec 64) (size : Nat) (pattern : BitVec 64) : DsaOperation Bool :=
  resultOperation "compare_value" (fun c => c.result = 0) (fillCompareValue src size pattern)

def crcGenOperation (src : BitVec 64) (size : Nat) (seed : BitVec 32) : DsaOperation (BitVec 32) :=
  resultOperation "crc_gen" (fun c => c.crcVal.setWidth 32) (fillCrcGen src size seed)

def copyCrcOperation (src dst : BitVec 64) (size : Nat) (seed : BitVec 32) :
    DsaOperation (BitVec 32) :=
  resultOperation "copy_crc" (fun c => c.crcVal.setWidth 32) (fillCopyCrc src dst size seed)

/-- The one operation that checks its arguments. -/
def dualcastOperation (src dst1 dst2 : BitVec 64) (size : Nat) : DsaOperation Unit :=
  { voidOperation "dualcast" (fillDualcast src dst1 dst2 size) with
    preStartValidate :=
      if dst1 &&& 0xfff ≠ dst2 &&& 0xfff then
        some (dsaError "dualcast: destination addresses must have same bits 11:0")
      else none }

/-! ## `notify` -/

def compSuccessPred : BitVec 8 := 2

/-- How `notify` ends. -/
inductive Reply (ρ : Type) where
  | value (r : ρ)
  | error (e : DsaError)
  | resubmit (d : HwDesc)

namespace DsaOperation

variable {ρ : Type} (o : DsaOperation ρ)

/-- The status with which the receiver gets a value. -/
def succeeds (c : CompletionRecord) : Bool :=
  c.code = compSuccess || (o.hasResult && c.code = compSuccessPred)

def notify (d : HwDesc) (c : CompletionRecord) : Reply ρ :=
  if o.succeeds c then .value (o.extractResult c)
  else if c.code = compPageFaultNobof then .resubmit (adjustForPageFault d c)
  else .error (.completion c.code c d.opcode o.opName)

/-- Submit `d`, wait for the next record and go on as `notify` says, until the receiver gets its
value. `perform` is what the device does with a descriptor before it writes a record. `none` stands
for an error, or for records that do not suffice. -/
def run (perform : Memory → HwDesc → CompletionRecord → Memory) :
    Memory → HwDesc → List CompletionRecord → Option (ρ × Memory)
  | _, _, [] => none
  | m, d, c :: cs =>
      match o.notify d c with
      | .value r => some (r, perform m d c)
      | .resubmit d' => run perform (perform m d c) d' cs
      | .error _ => none

/-- The descriptors that are submitted, each with the record that answers it. -/
def submissions : HwDesc → List CompletionRecord → List (HwDesc × CompletionRecord)
  | _, [] => []
  | d, c :: cs =>
      (d, c) :: match o.notify d c with
        | .resubmit d' => submissions d' cs
        | _ => []

end DsaOperation

end DsaStdexec.Operation

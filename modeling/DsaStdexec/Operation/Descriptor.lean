import Mathlib.Data.BitVec

/-!
# Descriptors and page faults

The hardware descriptor, the completion record, and the descriptor for what is left after a page
fault (`adjust_for_page_fault`).
-/

namespace DsaStdexec.Operation

/-- The opcodes that the repository uses. -/
inductive Opcode where
  | noop
  | batch
  | memmove
  | memfill
  | compare
  | compval
  | dualcast
  | crcgen
  | copyCrc
  | cflush
  deriving DecidableEq, Repr

/-- `dsa_hw_desc`. The source names several fields of one place: `srcAddr` is also `pattern` and
`desc_list_addr`, `dstAddr` is also `src2_addr` and `comp_pattern`, `xferSize` is also `desc_count`.
`crc_seed` shares the place of `dest2`, but no opcode has both. -/
structure HwDesc where
  opcode : Opcode
  flags : BitVec 24
  completionAddr : BitVec 64
  srcAddr : BitVec 64
  dstAddr : BitVec 64
  xferSize : BitVec 32
  dest2 : BitVec 64
  crcSeed : BitVec 32
  deriving DecidableEq, Repr

/-- A descriptor after `memset(desc, 0, sizeof(*desc))`. -/
def HwDesc.zero : HwDesc := ⟨.noop, 0, 0, 0, 0, 0, 0, 0⟩

instance : Inhabited HwDesc := ⟨HwDesc.zero⟩

def opFlagCrav : BitVec 24 := 0x4
def opFlagRcr : BitVec 24 := 0x8
def opFlagCc : BitVec 24 := 0x100

/-- `dsa_completion_record` -/
structure CompletionRecord where
  status : BitVec 8
  result : BitVec 8
  bytesCompleted : BitVec 32
  faultAddr : BitVec 64
  crcVal : BitVec 64
  deriving DecidableEq, Repr

/-- The status without the bit that tells a write fault from a read fault. -/
def CompletionRecord.code (c : CompletionRecord) : BitVec 8 := c.status &&& 0x7f

def compSuccess : BitVec 8 := 1
def compPageFaultNobof : BitVec 8 := 3

/-- `fill_data_move` into a zeroed descriptor; `start` sets the completion address. -/
def fillDataMove (src dst : BitVec 64) (size : Nat) (comp : BitVec 64) : HwDesc :=
  { HwDesc.zero with
    opcode := .memmove
    flags := opFlagRcr ||| opFlagCrav ||| opFlagCc
    xferSize := BitVec.ofNat 32 size
    srcAddr := src
    dstAddr := dst
    completionAddr := comp }

/-- The part of the descriptor that the device has not worked on. The faulting page is touched first,
which leaves memory as it is. -/
def adjustForPageFault (d : HwDesc) (c : CompletionRecord) : HwDesc :=
  let n := c.bytesCompleted.setWidth 64
  match d.opcode with
  | .memmove =>
      { d with
        srcAddr := d.srcAddr + n, dstAddr := d.dstAddr + n, xferSize := d.xferSize - c.bytesCompleted }
  | .copyCrc =>
      { d with
        crcSeed := c.crcVal.setWidth 32
        srcAddr := d.srcAddr + n, dstAddr := d.dstAddr + n, xferSize := d.xferSize - c.bytesCompleted }
  | .memfill | .cflush =>
      { d with dstAddr := d.dstAddr + n, xferSize := d.xferSize - c.bytesCompleted }
  | .compare =>
      { d with
        srcAddr := d.srcAddr + n, dstAddr := d.dstAddr + n, xferSize := d.xferSize - c.bytesCompleted }
  | .compval => { d with srcAddr := d.srcAddr + n, xferSize := d.xferSize - c.bytesCompleted }
  | .dualcast =>
      { d with
        srcAddr := d.srcAddr + n, dstAddr := d.dstAddr + n, dest2 := d.dest2 + n
        xferSize := d.xferSize - c.bytesCompleted }
  | .crcgen =>
      { d with
        crcSeed := c.crcVal.setWidth 32
        srcAddr := d.srcAddr + n, xferSize := d.xferSize - c.bytesCompleted }
  | .noop | .batch => d

end DsaStdexec.Operation

import DsaStdexec.Lib.Memory
import DsaStdexec.Operation.Mixin

/-!
# A Memory Move that is interrupted by page faults

What the device does with a Memory Move descriptor (specification, 8.3.4), and the faults after
which the operation may submit what is left of it.
-/

namespace DsaStdexec.Operation

open DsaStdexec.Lib

def moveAll (m : Memory) (d : HwDesc) : Memory := move m d.srcAddr d.dstAddr d.xferSize.toNat

/-- A fault stops the move. The device has moved the first `bytes_completed` bytes, or the last ones
where it worked backwards. -/
def movePart (m : Memory) (d : HwDesc) (c : CompletionRecord) : Memory :=
  let rest := (d.xferSize - c.bytesCompleted).setWidth 64
  if c.result = 0 then move m d.srcAddr d.dstAddr c.bytesCompleted.toNat
  else move m (d.srcAddr + rest) (d.dstAddr + rest) c.bytesCompleted.toNat

/-- What the device does with `d` before it writes the record `c`. -/
def perform (m : Memory) (d : HwDesc) (c : CompletionRecord) : Memory :=
  if c.code = compSuccess then moveAll m d else movePart m d c

/-- The records of partial completions that the device may write, in order, from `d` on. -/
def Faults : HwDesc → List CompletionRecord → Prop
  | _, [] => True
  | d, c :: cs => c.code = compPageFaultNobof ∧ c.bytesCompleted ≤ d.xferSize ∧
      (c.result = 0 ∨ c.result = 1) ∧ Faults (adjustForPageFault d c) cs

/-- A fault is harmless if nothing or everything was done, or if the device worked forwards and the
destination does not begin inside the part of the source that is left. -/
def Harmless (d : HwDesc) (c : CompletionRecord) : Prop :=
  c.bytesCompleted = 0 ∨ c.bytesCompleted = d.xferSize ∨
    c.result = 0 ∧ d.xferSize.toNat ≤ (d.dstAddr - d.srcAddr).toNat

def AllHarmless : HwDesc → List CompletionRecord → Prop
  | _, [] => True
  | d, c :: cs => Harmless d c ∧ AllHarmless (adjustForPageFault d c) cs

/-- The destination holds what the source held before the first submission. -/
def Moved (m m' : Memory) (src dst : BitVec 64) (size : Nat) : Prop :=
  ∀ k : BitVec 64, k.toNat < size → m' (dst + k) = m (src + k)

end DsaStdexec.Operation

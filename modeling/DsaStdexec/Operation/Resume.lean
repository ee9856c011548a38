import DsaStdexec.Operation.DataMove

/-!
# Operations that are interrupted by page faults

What the device does with the descriptors other than Memory Move (specification, 8.3.5 to 8.3.13), the
records it may write, and what an operation makes of them over a whole sequence of faults. On these
descriptors the device works from the beginning of the buffers, so a fault leaves the first
`bytes_completed` bytes done.
-/

namespace DsaStdexec.Operation

open DsaStdexec.Lib

/-! ## The device -/

/-- Byte `i mod 8` of a pattern, the lowest byte first. -/
def patternByte (pattern : BitVec 64) (i : Nat) : UInt8 :=
  ⟨pattern.extractLsb' (8 * (i % 8)) 8⟩

def bytes (m : Memory) (a : BitVec 64) (n : Nat) : List UInt8 :=
  (List.range n).map fun k => m (a + BitVec.ofNat 64 k)

/-- Memory after the device has worked on the first `n` bytes of `d`, forwards. -/
def work (m : Memory) (d : HwDesc) (n : Nat) : Memory :=
  match d.opcode with
  | .memfill => write m d.dstAddr n (patternByte d.srcAddr)
  | .memmove | .copyCrc => move m d.srcAddr d.dstAddr n
  | .dualcast => move (move m d.srcAddr d.dstAddr n) d.srcAddr d.dest2 n
  | .noop | .batch | .compare | .compval | .crcgen | .cflush => m

/-- The number of bytes that were done when the record was written. -/
def processed (d : HwDesc) (c : CompletionRecord) : Nat :=
  if c.code = compPageFaultNobof then c.bytesCompleted.toNat else d.xferSize.toNat

def performForwards (m : Memory) (d : HwDesc) (c : CompletionRecord) : Memory :=
  work m d (processed d c)

/-- The bytes at offset `k` that a comparison looks at are the same. -/
def Matches (m : Memory) (d : HwDesc) (k : Nat) : Prop :=
  match d.opcode with
  | .compare => m (d.srcAddr + BitVec.ofNat 64 k) = m (d.dstAddr + BitVec.ofNat 64 k)
  | .compval => m (d.srcAddr + BitVec.ofNat 64 k) = patternByte d.dstAddr k
  | _ => True

/-- What a record says about the bytes that were done. A partial CRC is written unless nothing was
done; a comparison is interrupted only while no difference has been found. -/
def Reports (crc : BitVec 32 → List UInt8 → BitVec 32) (m : Memory) (d : HwDesc)
    (c : CompletionRecord) : Prop :=
  match d.opcode with
  | .crcgen | .copyCrc =>
      c.code = compPageFaultNobof ∧ c.bytesCompleted = 0 ∨
        c.crcVal.setWidth 32 = crc d.crcSeed (bytes m d.srcAddr (processed d c))
  | .compare | .compval =>
      if c.code = compPageFaultNobof then c.result = 0 ∧ ∀ k < processed d c, Matches m d k
      else (c.result = 0 ↔ ∀ k < processed d c, Matches m d k)
  | _ => True

/-- The device may answer `d` and the descriptors that follow with the partial completions `cs`, and
the last one with the success `ok`. -/
def DsaOperation.Answered {ρ : Type} (o : DsaOperation ρ) (crc : BitVec 32 → List UInt8 → BitVec 32)
    (ok : CompletionRecord) : Memory → HwDesc → List CompletionRecord → Prop
  | m, d, [] => o.succeeds ok = true ∧ Reports crc m d ok
  | m, d, c :: cs => c.code = compPageFaultNobof ∧ c.bytesCompleted ≤ d.xferSize ∧
      Reports crc m d c ∧ Answered o crc ok (performForwards m d c) (adjustForPageFault d c) cs

/-- The records of partial completions, from `d` on, as far as they do not depend on memory. -/
def Interrupts : HwDesc → List CompletionRecord → Prop
  | _, [] => True
  | d, c :: cs => c.code = compPageFaultNobof ∧ c.bytesCompleted ≤ d.xferSize ∧ c.result = 0 ∧
      Interrupts (adjustForPageFault d c) cs

instance decidableInterrupts : ∀ d cs, Decidable (Interrupts d cs)
  | _, [] => inferInstanceAs (Decidable True)
  | d, c :: cs =>
      let _ := decidableInterrupts (adjustForPageFault d c) cs
      inferInstanceAs (Decidable (_ ∧ _ ∧ _ ∧ _))

/-! ## Ranges -/

/-- The range of the whole buffer that a submission has worked on, by the offset of its source. -/
def sourceRange (src : BitVec 64) (x : HwDesc × CompletionRecord) : Nat × Nat :=
  ((x.1.srcAddr - src).toNat, processed x.1 x.2)

/-- The submissions work on every byte of a buffer of the given size exactly once, and each one asks for
all that is left. -/
structure Covers (src : BitVec 64) (size : Nat) (subs : List (HwDesc × CompletionRecord)) : Prop where
  left : ∀ x ∈ subs, (x.1.srcAddr - src).toNat + x.1.xferSize.toNat = size ∧
    processed x.1 x.2 ≤ x.1.xferSize.toNat
  once : ∀ k < size, ∃! j : Nat, ∃ x, subs[j]? = some x ∧
    (sourceRange src x).1 ≤ k ∧ k < (sourceRange src x).1 + (sourceRange src x).2

/-! ## CRC seeds -/

/-- The 32-bit CRC of the device (specification, appendix A), bit by bit, lowest bit first. -/
def crcBit (x : BitVec 32) : BitVec 32 :=
  if x.getLsbD 0 then (x >>> 1) ^^^ 0x82f63b78 else x >>> 1

def crcByte (x : BitVec 32) (b : UInt8) : BitVec 32 :=
  (List.range 8).foldl (fun y _ => crcBit y) (x ^^^ b.toBitVec.setWidth 32)

def crc32c (seed : BitVec 32) (l : List UInt8) : BitVec 32 := ~~~(l.foldl crcByte (~~~seed))

/-- `s` is the CRC of what lies before `d`. The last fault that reports no progress is followed by a
descriptor whose seed is taken from the record all the same. -/
def SeedRestored (crc : BitVec 32 → List UInt8 → BitVec 32) (m : Memory) :
    BitVec 32 → HwDesc → List CompletionRecord → Prop
  | _, _, [] => True
  | s, d, c :: cs =>
      (c.bytesCompleted = 0 → (∀ c' ∈ cs, c'.bytesCompleted ≠ 0) → c.crcVal.setWidth 32 = s) ∧
        SeedRestored crc m
          (if c.bytesCompleted = 0 then s else crc s (bytes m d.srcAddr c.bytesCompleted.toNat))
          (adjustForPageFault d c) cs

/-! ## Patterns -/

/-- From offset `o` on, the pattern looks the same for `n` bytes as from its beginning. -/
def PhaseKept (pattern : BitVec 64) (o n : Nat) : Prop :=
  ∀ k < n, patternByte pattern (o + k) = patternByte pattern k

/-- Every descriptor from `d` on, which begins at offset `o`, starts in the phase of the pattern. -/
def InPhase (pattern : BitVec 64) : Nat → HwDesc → List CompletionRecord → Prop
  | o, d, [] => PhaseKept pattern o d.xferSize.toNat
  | o, d, c :: cs => PhaseKept pattern o c.bytesCompleted.toNat ∧
      InPhase pattern (o + c.bytesCompleted.toNat) (adjustForPageFault d c) cs

instance (pattern : BitVec 64) (o n : Nat) : Decidable (PhaseKept pattern o n) :=
  inferInstanceAs (Decidable (∀ k < n, _))

instance decidableInPhase (pattern : BitVec 64) : ∀ o d cs, Decidable (InPhase pattern o d cs)
  | o, d, [] => inferInstanceAs (Decidable (PhaseKept pattern o d.xferSize.toNat))
  | o, d, c :: cs =>
      let _ := decidableInPhase pattern (o + c.bytesCompleted.toNat) (adjustForPageFault d c) cs
      inferInstanceAs (Decidable (_ ∧ _))

end DsaStdexec.Operation

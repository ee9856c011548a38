import DsaStdexec.Operation.Lemmas.Batch
import DsaStdexec.Operation.Lemmas.Blocking
import DsaStdexec.Operation.Lemmas.Crc
import DsaStdexec.Operation.Lemmas.DataMove
import DsaStdexec.Operation.Lemmas.Dualcast
import DsaStdexec.Operation.Lemmas.Pattern

/-!
# Operations over whole runs
-/

namespace DsaStdexec.Operation

open DsaStdexec.Lib DsaStdexec.Submitter

/-! ## Page faults in a Memory Move -/

section

variable {src dst comp : BitVec 64} {size : Nat} {faults : List CompletionRecord}
  {ok : CompletionRecord}

/-- A Memory Move that is resumed after page faults copies every memory correctly exactly when the
two buffers are the same or every fault was harmless. -/
theorem dataMove_resumes_iff (hs : size < 2 ^ 32) (hok : ok.code = compSuccess)
    (hf : Faults (fillDataMove src dst size comp) faults) :
    (∀ m, ∃ m', (dataMoveOperation src dst size).run perform m (fillDataMove src dst size comp)
        (faults ++ [ok]) = some ((), m') ∧ Moved m m' src dst size) ↔
      src = dst ∨ AllHarmless (fillDataMove src dst size comp) faults := by
  have hx : (fillDataMove src dst size comp).xferSize.toNat = size := by
    rw [fillDataMove, BitVec.toNat_ofNat, Nat.mod_eq_of_lt hs]
  constructor
  · intro hall
    by_contra hno
    obtain ⟨hne, hh⟩ := not_or.mp hno
    obtain ⟨p, hp, m', he, hm'⟩ := exists_lost hok rfl hf hne hh
    obtain ⟨m'', he', hmoved⟩ := hall (single (src + p))
    have heq : m'' = m' := (Prod.mk.inj (Option.some.inj (he'.symm.trans he))).2
    have := hmoved p (hx ▸ hp)
    rw [heq, show m' (dst + p) = 0 from hm', single, if_pos rfl] at this
    cases this
  · rintro (rfl | hh) m
    · exact ⟨m, run_same hok rfl hf rfl, fun _ _ => rfl⟩
    · obtain ⟨m', he, hmoved⟩ := run_moved (m := m) hok rfl hf hh
      exact ⟨m', he, by rw [← hx]; exact hmoved⟩

/-- The device moved one byte backwards and met a fault. -/
def backwardFault : CompletionRecord := ⟨3, 1, 1, 0x1000, 0⟩

def success : CompletionRecord := ⟨1, 0, 0, 0, 0⟩

theorem faults_backward : Faults (fillDataMove 0x1000 0x2000 2 0) [backwardFault] := by
  refine ⟨by decide, by decide, Or.inr (by decide), trivial⟩

theorem dataMove_resumes_iff_backward :
    (∀ m, ∃ m', (dataMoveOperation 0x1000 0x2000 2).run perform m (fillDataMove 0x1000 0x2000 2 0)
        ([backwardFault] ++ [success]) = some ((), m') ∧ Moved m m' 0x1000 0x2000 2) ↔
      (0x1000 : BitVec 64) = 0x2000 ∨ AllHarmless (fillDataMove 0x1000 0x2000 2 0) [backwardFault] :=
  dataMove_resumes_iff (by decide) (by decide) faults_backward

/-- After a backward fault the first byte of the destination is never written. -/
theorem dataMove_skips_byte : ∃ m', Faults (fillDataMove 0x1000 0x2000 2 0) [backwardFault] ∧
    (dataMoveOperation 0x1000 0x2000 2).run perform (single 0x1000)
        (fillDataMove 0x1000 0x2000 2 0) [backwardFault, success] = some ((), m') ∧
      m' 0x2000 = 0 ∧ single 0x1000 0x1000 = 1 :=
  ⟨_, faults_backward, rfl, by decide, by decide⟩

end

/-! ## Page faults in a CRC -/

section

variable {crc : BitVec 32 → List UInt8 → BitVec 32} {m : Memory} {src dst comp : BitVec 64}
  {size : Nat} {seed : BitVec 32} {faults : List CompletionRecord} {ok : CompletionRecord}

/-- A CRC that is resumed after page faults is that of the whole source if the last fault without
progress reports, by chance, the CRC of what lies before it; and only then where different seeds give
different values. From 2^32 bytes on it is the CRC of the first `size mod 2^32` bytes. -/
theorem crc_resumes_iff (happend : ∀ s a b, crc (crc s a) b = crc s (a ++ b))
    {o : DsaOperation (BitVec 32)}
    (ho : o = crcGenOperation src size seed ∨
      o = copyCrcOperation src dst size seed ∧ Apart src dst (size % 2 ^ 32))
    (ha : o.Answered crc ok m (o.fillDescriptor comp) faults) :
    ∃ v m', o.run performForwards m (o.fillDescriptor comp) (faults ++ [ok]) = some (v, m') ∧
      (size < 2 ^ 32 →
        (SeedRestored crc m seed (o.fillDescriptor comp) faults → v = crc seed (bytes m src size)) ∧
        ((∀ l, Function.Injective fun s => crc s l) → v = crc seed (bytes m src size) →
          SeedRestored crc m seed (o.fillDescriptor comp) faults)) ∧
      (2 ^ 32 ≤ size → SeedRestored crc m seed (o.fillDescriptor comp) faults →
        v = crc seed (bytes m src (size % 2 ^ 32))) := by
  have hx : (o.fillDescriptor comp).xferSize.toNat = size % 2 ^ 32 := by
    rcases ho with rfl | ⟨rfl, _⟩ <;> exact BitVec.toNat_ofNat _ _
  have hsrc : (o.fillDescriptor comp).srcAddr = src := by
    rcases ho with rfl | ⟨rfl, _⟩ <;> rfl
  have hseed : (o.fillDescriptor comp).crcSeed = seed := by
    rcases ho with rfl | ⟨rfl, _⟩ <;> rfl
  have hresult : o.extractResult ok = ok.crcVal.setWidth 32 := by
    rcases ho with rfl | ⟨rfl, _⟩ <;> rfl
  have hd : CrcDesc (o.fillDescriptor comp) := by
    rcases ho with rfl | ⟨rfl, hap⟩
    · exact Or.inl rfl
    · exact Or.inr ⟨rfl, by rw [hx]; exact hap⟩
  obtain ⟨m', hrun⟩ := hd.run ha
  obtain ⟨hright, honly⟩ := CrcDesc.value happend hd ha seed
  rw [hsrc, hx] at hright honly
  have hst : SeedStands seed (o.fillDescriptor comp) faults := fun _ => hseed
  refine ⟨_, m', hrun, fun hs => ?_, fun _ hres => ?_⟩
  · rw [Nat.mod_eq_of_lt hs] at hright honly
    rw [hresult]
    exact ⟨hright hst, fun hinj hv => (honly hinj hv).2⟩
  · rw [hresult]
    exact hright hst hres

/-- The device met a fault after one byte. -/
def crcFault : CompletionRecord := ⟨3, 0, 1, 0x1001, 0x527d5351⟩

def crcDone : CompletionRecord := ⟨1, 0, 0, 0, 0xf16177d2⟩

/-- The device met a fault before the first byte; `crc_val` is undefined then. -/
def idleFault : CompletionRecord := ⟨3, 0, 0, 0x1000, 0xdeadbeef⟩

def strayDone : CompletionRecord := ⟨1, 0, 0, 0, 0xef806ad1⟩

theorem crc_resumes_iff_two :
    ∃ v m', (crcGenOperation 0x1000 2 0).run performForwards (fun _ => 0)
        ((crcGenOperation 0x1000 2 0).fillDescriptor 0) ([crcFault] ++ [crcDone]) = some (v, m') ∧
      v = crc32c 0 (bytes (fun _ => 0) 0x1000 2) := by
  have ha : (crcGenOperation 0x1000 2 0).Answered crc32c crcDone (fun _ => 0)
      ((crcGenOperation 0x1000 2 0).fillDescriptor 0) [crcFault] := by
    refine ⟨by decide, by decide, Or.inr (by decide), by decide, Or.inr (by decide)⟩
  have ho : crcGenOperation 0x1000 2 0 = crcGenOperation 0x1000 2 0 ∨
      crcGenOperation 0x1000 2 0 = copyCrcOperation 0x1000 0 2 0 ∧
        Apart (0x1000 : BitVec 64) 0 (2 % 2 ^ 32) := Or.inl rfl
  obtain ⟨v, m', hrun, hv, _⟩ := crc_resumes_iff crc32c_append ho ha
  exact ⟨v, m', hrun, (hv (by decide)).1 ⟨fun h => absurd h (by decide), trivial⟩⟩

/-- After a fault without progress the undefined value becomes the seed. -/
theorem crc_takes_stray_seed :
    (crcGenOperation 0x1000 1 0).Answered crc32c strayDone (fun _ => 0)
        ((crcGenOperation 0x1000 1 0).fillDescriptor 0) [idleFault] ∧
      ∃ v m', (crcGenOperation 0x1000 1 0).run performForwards (fun _ => 0)
          ((crcGenOperation 0x1000 1 0).fillDescriptor 0) [idleFault, strayDone] = some (v, m') ∧
        v ≠ crc32c 0 (bytes (fun _ => 0) 0x1000 1) :=
  ⟨⟨by decide, by decide, Or.inl (by decide), by decide, Or.inr (by decide)⟩, _, _, rfl, by decide⟩

end

/-! ## Page faults and patterns -/

section

variable {crc : BitVec 32 → List UInt8 → BitVec 32} {src dst comp pattern : BitVec 64} {size : Nat}
  {faults : List CompletionRecord}

/-- A resumed Fill leaves the pattern in the whole region, and a resumed Compare Pattern tells whether
it is there, exactly when the size fits into 32 bits and every descriptor starts in the phase of the
pattern. -/
theorem pattern_resumes_iff (hs : size < 2 ^ 64)
    (hfill : Interrupts (fillMemFill dst size pattern comp) faults)
    (hcomp : Interrupts (fillCompareValue src size pattern comp) faults) :
    ((∀ m ok, (memFillOperation dst size pattern).Answered crc ok m
        (fillMemFill dst size pattern comp) faults →
      ∃ m', (memFillOperation dst size pattern).run performForwards m
          (fillMemFill dst size pattern comp) (faults ++ [ok]) = some ((), m') ∧
        ∀ i < size, m' (dst + BitVec.ofNat 64 i) = patternByte pattern i) ↔
      size < 2 ^ 32 ∧ InPhase pattern 0 (fillMemFill dst size pattern comp) faults) ∧
    ((∀ m ok, (compareValueOperation src size pattern).Answered crc ok m
        (fillCompareValue src size pattern comp) faults →
      ∃ v m', (compareValueOperation src size pattern).run performForwards m
          (fillCompareValue src size pattern comp) (faults ++ [ok]) = some (v, m') ∧
        (v = true ↔ ∀ i < size, m (src + BitVec.ofNat 64 i) = patternByte pattern i)) ↔
      size < 2 ^ 32 ∧ InPhase pattern 0 (fillCompareValue src size pattern comp) faults) := by
  have hx : (BitVec.ofNat 32 size).toNat = size % 2 ^ 32 := BitVec.toNat_ofNat _ _
  have hxf : (fillMemFill dst size pattern comp).xferSize.toNat = size % 2 ^ 32 := hx
  have hxc : (fillCompareValue src size pattern comp).xferSize.toNat = size % 2 ^ 32 := hx
  rw [inPhase_iff rfl hfill, inPhase_iff rfl hcomp, hxf, hxc]
  simp only [Nat.zero_add]
  constructor
  · rw [← write_applied_iff (a := dst) hs]
    constructor
    · intro hall m i hi
      have ha : (memFillOperation dst size pattern).Answered crc success m
          (fillMemFill dst size pattern comp) faults := memFill_answered rfl hfill (by rfl)
      obtain ⟨m', hrun, hm'⟩ := hall m success ha
      rw [memFill_run rfl ha, hxf, Option.some.injEq, Prod.mk.injEq] at hrun
      obtain ⟨_, rfl⟩ := hrun
      exact hm' i hi
    · intro hall m ok ha
      exact ⟨_, memFill_run rfl ha, fun i hi => by rw [hxf]; exact hall m i hi⟩
  · constructor
    · intro hall
      rw [← write_applied_iff (a := src) hs]
      intro m i hi
      -- a memory that holds what the descriptors look for
      have ha : (compareValueOperation src size pattern).Answered crc success
          (write m src (size % 2 ^ 32) (applied pattern faults))
          (fillCompareValue src size pattern comp) faults := by
        refine compval_answered rfl hcomp (by rfl) (by rfl) fun k hk => ?_
        rw [hxc] at hk
        have hle : size % 2 ^ 32 ≤ size := Nat.mod_le _ _
        exact (write_at (by omega)).trans (if_pos hk)
      obtain ⟨v, m', hrun, hv⟩ := hall _ success ha
      rw [compare_run (Or.inr rfl) ha, Option.some.injEq, Prod.mk.injEq] at hrun
      obtain ⟨rfl, _⟩ := hrun
      exact hv.mp (by rfl) i hi
    · rintro ⟨hlt, happ⟩ m ok ha
      refine ⟨_, m, compare_run (Or.inr rfl) ha, ?_⟩
      have hres := compval_result rfl ha
      rw [hxc, Nat.mod_eq_of_lt hlt] at hres
      rw [Nat.mod_eq_of_lt hlt] at happ
      have hv : (compareValueOperation src size pattern).extractResult ok = true ↔ ok.result = 0 := by
        simp [compareValueOperation, resultOperation]
      rw [hv, hres]
      exact forall₂_congr fun k hk => Eq.congr rfl (happ k hk)

/-- The device met a fault after `n` bytes. -/
def faultAfter (n : BitVec 32) : CompletionRecord := ⟨3, 0, n, 0x2000, 0⟩

def countingPattern : BitVec 64 := 0x0706050403020100

theorem pattern_resumes_iff_aligned :
    ∃ m', (memFillOperation 0x2000 16 countingPattern).run performForwards (fun _ => 0)
        (fillMemFill 0x2000 16 countingPattern 0) ([faultAfter 8] ++ [success]) = some ((), m') ∧
      ∀ i < 16, m' (0x2000 + BitVec.ofNat 64 i) = patternByte countingPattern i := by
  have hcomp : Interrupts (fillCompareValue 0x2000 16 countingPattern 0) [faultAfter 8] := by decide
  have hfill : (memFillOperation 0x2000 16 countingPattern).Answered crc32c success (fun _ => 0)
      (fillMemFill 0x2000 16 countingPattern 0) [faultAfter 8] :=
    memFill_answered rfl (by decide) (by decide)
  exact (pattern_resumes_iff (by decide) (by decide) hcomp).1.mpr ⟨by decide, by decide⟩ _ _ hfill

/-- What a Fill with a fault after four bytes writes. -/
def shiftedMemory : Memory :=
  write (fun _ => 0) 0x2000 16 (applied countingPattern [faultAfter 4])

/-- After a fault at an offset that is not a multiple of 8, the second descriptor writes the pattern from
its beginning again, and the comparison looks for it there. -/
theorem pattern_loses_phase :
    ((memFillOperation 0x2000 16 countingPattern).Answered crc32c success (fun _ => 0)
        (fillMemFill 0x2000 16 countingPattern 0) [faultAfter 4] ∧
      (memFillOperation 0x2000 16 countingPattern).run performForwards (fun _ => 0)
        (fillMemFill 0x2000 16 countingPattern 0) [faultAfter 4, success] =
          some ((), shiftedMemory)) ∧
    ((compareValueOperation 0x2000 16 countingPattern).Answered crc32c success shiftedMemory
        (fillCompareValue 0x2000 16 countingPattern 0) [faultAfter 4] ∧
      (compareValueOperation 0x2000 16 countingPattern).run performForwards shiftedMemory
        (fillCompareValue 0x2000 16 countingPattern 0) [faultAfter 4, success] =
          some (true, shiftedMemory)) ∧
    shiftedMemory (0x2000 + BitVec.ofNat 64 4) ≠ patternByte countingPattern 4 := by
  have hfill : (memFillOperation 0x2000 16 countingPattern).Answered crc32c success (fun _ => 0)
      (fillMemFill 0x2000 16 countingPattern 0) [faultAfter 4] :=
    memFill_answered rfl (by decide) (by decide)
  have hcomp : (compareValueOperation 0x2000 16 countingPattern).Answered crc32c success shiftedMemory
      (fillCompareValue 0x2000 16 countingPattern 0) [faultAfter 4] := by
    refine compval_answered rfl (by decide) (by decide) (by decide) fun k hk => ?_
    have hlt : k < 16 := hk
    exact (write_at (by omega)).trans (if_pos hlt)
  exact ⟨⟨hfill, memFill_run rfl hfill⟩, ⟨hcomp, compare_run (Or.inr rfl) hcomp⟩, by decide⟩

end

/-! ## Page faults in a Dualcast and a Compare -/

section

variable {crc : BitVec 32 → List UInt8 → BitVec 32} {m : Memory}
  {src src1 src2 dst1 dst2 comp : BitVec 64} {size : Nat} {faults faults' : List CompletionRecord}
  {ok ok' : CompletionRecord}

/-- A Dualcast that passes its check covers its buffers exactly, keeps the low bits of its destinations
equal at every submission and copies the source to both; a Compare covers its buffers exactly and tells
whether they are equal: both exactly when the size fits into 32 bits. -/
theorem ranges_resume_iff
    (hval : (dualcastOperation src dst1 dst2 size).preStartValidate = none)
    (h1 : Apart src dst1 size) (h2 : Apart src dst2 size) (h12 : Apart dst1 dst2 size)
    (hdual : (dualcastOperation src dst1 dst2 size).Answered crc ok m
      (fillDualcast src dst1 dst2 size comp) faults)
    (hcomp : (compareOperation src1 src2 size).Answered crc ok' m
      (fillCompare src1 src2 size comp) faults') :
    ((∃ m', (dualcastOperation src dst1 dst2 size).run performForwards m
          (fillDualcast src dst1 dst2 size comp) (faults ++ [ok]) = some ((), m') ∧
        Covers src size ((dualcastOperation src dst1 dst2 size).submissions
          (fillDualcast src dst1 dst2 size comp) (faults ++ [ok])) ∧
        (∀ x ∈ (dualcastOperation src dst1 dst2 size).submissions
            (fillDualcast src dst1 dst2 size comp) (faults ++ [ok]),
          x.1.dstAddr - dst1 = x.1.srcAddr - src ∧ x.1.dest2 - dst2 = x.1.srcAddr - src ∧
            x.1.dstAddr &&& 0xfff = x.1.dest2 &&& 0xfff) ∧
        Moved m m' src dst1 size ∧ Moved m m' src dst2 size) ↔ size < 2 ^ 32) ∧
    ((∃ v, (compareOperation src1 src2 size).run performForwards m
          (fillCompare src1 src2 size comp) (faults' ++ [ok']) = some (v, m) ∧
        Covers src1 size ((compareOperation src1 src2 size).submissions
          (fillCompare src1 src2 size comp) (faults' ++ [ok'])) ∧
        (∀ x ∈ (compareOperation src1 src2 size).submissions
            (fillCompare src1 src2 size comp) (faults' ++ [ok']),
          x.1.dstAddr - src2 = x.1.srcAddr - src1) ∧
        (v = true ↔ ∀ k < size, m (src1 + BitVec.ofNat 64 k) = m (src2 + BitVec.ofNat 64 k))) ↔
      size < 2 ^ 32) := by
  have hx : (BitVec.ofNat 32 size).toNat = size % 2 ^ 32 := BitVec.toNat_ofNat _ _
  have hxd : (fillDualcast src dst1 dst2 size comp).xferSize.toNat = size % 2 ^ 32 := hx
  have hxc : (fillCompare src1 src2 size comp).xferSize.toNat = size % 2 ^ 32 := hx
  have hcd := hdual.covers rfl
  have hcc := hcomp.covers rfl
  rw [hxd] at hcd
  rw [hxc] at hcc
  constructor
  · constructor
    · rintro ⟨_, _, hcov, _⟩
      exact hcov.size_lt hcd
    · intro hlt
      rw [Nat.mod_eq_of_lt hlt] at hxd hcd
      have hsep : Separate (fillDualcast src dst1 dst2 size comp) :=
        ⟨by rw [hxd]; exact h1, by rw [hxd]; exact h2, by rw [hxd]; exact h12⟩
      obtain ⟨m', hrun, hcop⟩ := dualcast_run rfl hsep hdual
      rw [hxd] at hcop
      refine ⟨m', hrun, hcd, fun x hx => ?_, hcop.first, hcop.second⟩
      have hfirst : Advanced src dst1 dst2 size (fillDualcast src dst1 dst2 size comp) :=
        ⟨rfl, 0, by simp [fillDualcast], by simp [fillDualcast], by simp [fillDualcast], by simp [hxd]⟩
      have hadv := hdual.submissions_forall (fun e c he hn => he.adjust (by omega) hn) hfirst x hx
      have hlow : dst1 &&& 0xfff = dst2 &&& 0xfff := by simpa [dualcastOperation] using hval
      refine ⟨?_, ?_, hadv.low_bits hlow⟩
      · obtain ⟨n, hn1, hn2, _, _⟩ := hadv.offset
        rw [hn1, hn2, add_sub_cancel_left, add_sub_cancel_left]
      · obtain ⟨n, hn1, _, hn3, _⟩ := hadv.offset
        rw [hn1, hn3, add_sub_cancel_left, add_sub_cancel_left]
  · constructor
    · rintro ⟨_, _, hcov, _⟩
      exact hcov.size_lt hcc
    · intro hlt
      rw [Nat.mod_eq_of_lt hlt] at hxc hcc
      refine ⟨_, compare_run (Or.inl rfl) hcomp, hcc, ?_, ?_⟩
      · refine fun x hx => (hcomp.submissions_forall (P := Aligned src1 src2)
          (fun e c he _ => he.adjust) ⟨rfl, ?_⟩ x hx).offset
        simp [fillCompare]
      · have hres := compare_result rfl hcomp
        rw [hxc] at hres
        have hv : (compareOperation src1 src2 size).extractResult ok' = true ↔ ok'.result = 0 := by
          simp [compareOperation, resultOperation]
        rw [hv, hres]
        exact forall₂_congr fun k _ => Iff.rfl

theorem ranges_resume_iff_byte :
    ∃ m', (dualcastOperation 0x1000 0x2000 0x3000 2).run performForwards (fun _ => 7)
        (fillDualcast 0x1000 0x2000 0x3000 2 0) ([faultAfter 1] ++ [success]) = some ((), m') ∧
      Moved (fun _ => 7) m' 0x1000 0x2000 2 ∧ Moved (fun _ => 7) m' 0x1000 0x3000 2 := by
  have hdual : (dualcastOperation 0x1000 0x2000 0x3000 2).Answered crc32c success (fun _ => 7)
      (fillDualcast 0x1000 0x2000 0x3000 2 0) [faultAfter 1] :=
    ⟨by decide, by decide, trivial, by decide, trivial⟩
  have hcomp : (compareOperation 0x1000 0x2000 2).Answered crc32c success (fun _ => 7)
      (fillCompare 0x1000 0x2000 2 0) [] :=
    ⟨by decide, iff_of_true rfl fun _ _ => rfl⟩
  obtain ⟨m', hrun, _, _, hmoved⟩ := (ranges_resume_iff (by decide)
    (apart_of_le (by decide) (by decide)) (apart_of_le (by decide) (by decide))
    (apart_of_le (by decide) (by decide)) hdual hcomp).1.mpr (by decide)
  exact ⟨m', hrun, hmoved⟩

/-- Only the byte behind the first 4 GiB is not zero. -/
def farByte : Memory := single 0x100000000

/-- From 2^32 bytes on the transfer size loses its upper bits: one byte is copied or compared, and the
operation succeeds. -/
theorem ranges_cut_short :
    ((dualcastOperation 0 0x1000000000 0x2000000000 (2 ^ 32 + 1)).preStartValidate = none ∧
      Apart (0 : BitVec 64) 0x1000000000 (2 ^ 32 + 1) ∧ Apart (0 : BitVec 64) 0x2000000000 (2 ^ 32 + 1) ∧
      Apart (0x1000000000 : BitVec 64) 0x2000000000 (2 ^ 32 + 1) ∧
      (dualcastOperation 0 0x1000000000 0x2000000000 (2 ^ 32 + 1)).Answered crc32c success farByte
        (fillDualcast 0 0x1000000000 0x2000000000 (2 ^ 32 + 1) 0) [] ∧
      ∃ m', (dualcastOperation 0 0x1000000000 0x2000000000 (2 ^ 32 + 1)).run performForwards farByte
          (fillDualcast 0 0x1000000000 0x2000000000 (2 ^ 32 + 1) 0) [success] = some ((), m') ∧
        ¬ Moved farByte m' 0 0x1000000000 (2 ^ 32 + 1)) ∧
    ((compareOperation 0 0x1000000000 (2 ^ 32 + 1)).Answered crc32c success farByte
        (fillCompare 0 0x1000000000 (2 ^ 32 + 1) 0) [] ∧
      (compareOperation 0 0x1000000000 (2 ^ 32 + 1)).run performForwards farByte
        (fillCompare 0 0x1000000000 (2 ^ 32 + 1) 0) [success] = some (true, farByte) ∧
      farByte (0 + BitVec.ofNat 64 (2 ^ 32)) ≠ farByte (0x1000000000 + BitVec.ofNat 64 (2 ^ 32))) := by
  refine ⟨⟨by decide, apart_of_le (by decide) (by decide), apart_of_le (by decide) (by decide),
    apart_of_le (by decide) (by decide), ⟨by decide, trivial⟩, _, rfl, fun hmoved => ?_⟩,
    ⟨by decide, iff_of_true rfl fun k hk => ?_⟩, rfl, by decide⟩
  · have := hmoved 0x100000000 (by decide)
    revert this
    decide
  · have hlt : k < 1 := hk
    obtain rfl : k = 0 := by omega
    exact (by decide : farByte (0 + 0) = farByte (0x1000000000 + 0))

end

/-! ## The two ways to move data -/

section

variable {mapped : Bool} {mode : WqMode} {src dst comp comp' : BitVec 64} {size : Nat}
  {answers : List Answer}

/-- Where the receiver gets its value, the blocking call returns and all bytes have been moved, and both
do the same with no bytes at all: exactly when the size fits into 32 bits and the blocking call gets
its descriptors accepted, and no bytes at all are answered with a success. -/
theorem dataMove_agrees_iff (hsrc : src ≠ 0) (hdst : dst ≠ 0)
    (hc : Conforming (fillDataMove src dst size comp) answers) :
    (((dataMoveOperation src dst size).signal mapped comp answers = some (.value ()) →
        dataMove mapped mode src dst size comp' answers = some (.ok ()) ∧
        (dataMoveOperation src dst size).transferred (fillDataMove src dst size comp)
          (answers.map Answer.record) = size) ∧
      (size = 0 → ((dataMoveOperation src dst size).signal mapped comp answers = some (.value ()) ↔
        dataMove mapped mode src dst size comp' answers = some (.ok ())))) ↔
    (mapped = true ∧ EndsInSuccess answers →
        size < 2 ^ 32 ∧ (size = 0 ∨ mode = .dedicated ∨ Accepted answers)) ∧
      (size = 0 → mapped = true ∧ EndsInSuccess answers) := by
  have hmoved : EndsInSuccess answers →
      ((dataMoveOperation src dst size).transferred (fillDataMove src dst size comp)
        (answers.map Answer.record) = size ↔ size < 2 ^ 32) := by
    intro he
    rw [transferred_eq rfl hc he]
    exact Nat.mod_eq_iff_lt (by decide)
  rw [signal_value_iff]
  by_cases h0 : size = 0
  · subst h0
    simp only [dataMove_zero, true_and, iff_true, forall_const, true_or, and_true]
    constructor
    · rintro ⟨hm, he⟩
      exact ⟨fun _ => by decide, he⟩
    · rintro ⟨_, he⟩
      exact ⟨fun hs => (hmoved hs.2).mpr (by decide), he⟩
  · simp only [h0, false_or, IsEmpty.forall_iff, and_true]
    refine forall_congr' fun hs => ?_
    obtain ⟨rfl, he⟩ := hs
    rw [dataMove_ok_iff hsrc hdst h0, hmoved he]
    constructor
    · rintro ⟨⟨hlt, _, hacc⟩, _⟩
      exact ⟨hlt, hacc⟩
    · rintro ⟨hlt, hacc⟩
      exact ⟨⟨hlt, he, hacc⟩, hlt⟩

def sizeError : CompletionRecord := ⟨0x13, 0, 0, 0, 0⟩

theorem dataMove_agrees_iff_two :
    ((dataMoveOperation 0x1000 0x2000 2).signal true 0 [⟨0, faultAfter 1⟩, ⟨0, success⟩] =
        some (.value ()) →
      dataMove true .dedicated 0x1000 0x2000 2 0 [⟨0, faultAfter 1⟩, ⟨0, success⟩] = some (.ok ()) ∧
      (dataMoveOperation 0x1000 0x2000 2).transferred (fillDataMove 0x1000 0x2000 2 0)
        [faultAfter 1, success] = 2) ∧
    (dataMoveOperation 0x1000 0x2000 2).signal true 0 [⟨0, faultAfter 1⟩, ⟨0, success⟩] =
      some (.value ()) := by
  have hc : Conforming (fillDataMove 0x1000 0x2000 2 0) [⟨0, faultAfter 1⟩, ⟨0, success⟩] :=
    fun _ => ⟨by decide, fun h => absurd h (by decide)⟩
  refine ⟨And.left ((dataMove_agrees_iff (by decide) (by decide) hc).mpr ?_), rfl⟩
  exact ⟨fun _ => ⟨by decide, Or.inr (Or.inl rfl)⟩, fun h => absurd h (by decide)⟩

/-- The operation moves one byte of 2^32 + 1 and reports success where the blocking call throws, and it
fails on no bytes at all, where the blocking call returns. -/
theorem dataMove_disagrees :
    ((dataMoveOperation 0x1000 0x2000 (2 ^ 32 + 1)).signal true 0 [⟨0, success⟩] = some (.value ()) ∧
      dataMove true .dedicated 0x1000 0x2000 (2 ^ 32 + 1) 0 [⟨0, success⟩] =
        some (.error (dsaError "DSA data_move size exceeds the maximum transfer length")) ∧
      (dataMoveOperation 0x1000 0x2000 (2 ^ 32 + 1)).transferred
        (fillDataMove 0x1000 0x2000 (2 ^ 32 + 1) 0) [success] = 1) ∧
    ((dataMoveOperation 0x1000 0x2000 0).signal true 0 [⟨0, sizeError⟩] =
        some (.error (.completion 0x13 sizeError .memmove "data_move")) ∧
      dataMove true .dedicated 0x1000 0x2000 0 0 [⟨0, sizeError⟩] = some (.ok ())) :=
  ⟨⟨rfl, rfl, by decide⟩, rfl, rfl⟩

end

/-! ## BATCH descriptors at the portal -/

/-- With every batching submitter, what reaches the portal is well formed as long as each BATCH
descriptor is accepted and has its batch for itself. -/
theorem doorbells_wellFormed (args : InitArgs) :
    (∀ as s, (StagingSystem.machine args).Meets (StagingSystem.BatchAlone (batchRule args.wq))
        (StagingSystem.init args) as → (StagingSystem.machine args).run as = some s →
      ∀ b ∈ s.sub.direct.portal, WellFormed args.wq b) ∧
    (∀ as s, (FixedSystem.machine args).Meets (FixedSystem.BatchAlone (batchRule args.wq))
        (FixedSystem.init args) as → (FixedSystem.machine args).run as = some s →
      ∀ b ∈ s.ring.direct.portal, WellFormed args.wq b) ∧
    (∀ as s, (RingSystem.machine .ring args).Meets (fun s a =>
        RingSystem.Clean (Geometry.ofArgs .ring args) s a ∧
          RingSystem.BatchAlone (batchRule args.wq) (Geometry.ofArgs .ring args) s a)
        (RingSystem.init args) as → (RingSystem.machine .ring args).run as = some s →
      ∀ b ∈ s.ring.direct.portal, WellFormed args.wq b) ∧
    (∀ as s, (RingSystem.machine .mirrored args).Meets
        (RingSystem.BatchAlone (batchRule args.wq) (Geometry.ofArgs .mirrored args))
        (RingSystem.init args) as → (RingSystem.machine .mirrored args).run as = some s →
      ∀ b ∈ s.ring.direct.portal, WellFormed args.wq b) := by
  have hR := not_isBatch_default args.wq
  refine ⟨fun as s ha h b hb => ?_, fun as s ha h b hb => ?_, fun as s ha h b hb => ?_,
    fun as s ha h b hb => ?_⟩
  · exact wellFormed_of_proper ((StagingSystem.proper_of_run ha h).portal b hb)
  · exact wellFormed_of_proper ((FixedSystem.proper_of_run ha h).portal b hb)
  · exact wellFormed_of_proper ((RingSystem.proper_of_run hR ha h).portal b hb)
  · exact wellFormed_of_proper ((RingSystem.proper_of_mirrored_run hR ha h).portal b hb)

def sixteenArgs : InitArgs where
  batchSize := 0
  mode := .dedicated
  wq := ⟨16, 64, by decide, by decide⟩
  accepted := Or.inl (by decide)

def copy : Submitted := ⟨fillDataMove 0x1000 0x2000 64 0x3000, []⟩

def copies {count : Nat} (descs : Vector HwDesc count) : Vector HwDesc count :=
  descs.map fun d => { fillDataMove 0x1000 0x2000 64 0 with completionAddr := d.completionAddr }

/-- The descriptor of `dsa_batch(dsa, count, copies)`. -/
def batchOf (count : Nat) : Option Submitted :=
  (BatchOperation.mk 0x5000 0x6000 0x7000).start fun descs : Vector HwDesc count => copies descs

def separateRun (d : Submitted) : List (StagingAction Submitted) :=
  [.submit copy, .prePoll, .advance, .submit d, .prePoll, .advance]

def togetherRun (d : Submitted) : List (StagingAction Submitted) :=
  [.submit copy, .submit d, .prePoll, .advance]

theorem separateRun_portal (d : Submitted) : ∃ s,
    (StagingSystem.machine sixteenArgs).run (separateRun d) = some s ∧
      s.sub.direct.portal = [.single copy, .single d] := ⟨_, rfl, rfl⟩

theorem togetherRun_portal (d : Submitted) : ∃ s,
    (StagingSystem.machine sixteenArgs).run (togetherRun d) = some s ∧
      s.sub.direct.portal = [.batch 2 [copy, d]] := ⟨_, rfl, rfl⟩

theorem accepted_pair {d : Submitted} (hd : batchOf 2 = some d) :
    (batchRule sixteenArgs.wq).Accepted d := by
  refine (accepted_start_iff hd).mpr ⟨⟨by decide, fun _ => by decide⟩, fun x hx => ?_⟩
  simp only [copies, Vector.toList_map, List.mem_map] at hx
  obtain ⟨_, _, rfl⟩ := hx
  exact fun h => by cases h

theorem batchAlone_separateRun {d : Submitted} (hd : batchOf 2 = some d) :
    (StagingSystem.machine sixteenArgs).Meets (StagingSystem.BatchAlone (batchRule sixteenArgs.wq))
      (StagingSystem.init sixteenArgs) (separateRun d) := by
  have hcopy : ¬ (batchRule sixteenArgs.wq).IsBatch copy := fun h => by cases h
  refine ⟨?_, fun s₁ h₁ => ⟨?_, fun s₂ h₂ => ⟨?_, fun s₃ h₃ => ⟨?_, fun s₄ _ => ⟨?_, fun s₅ _ =>
    ⟨?_, fun _ _ => True.intro⟩⟩⟩⟩⟩⟩
  · intro d ha
    cases ha
    exact ⟨fun x hx => (by cases hx), fun hb => absurd hb hcopy⟩
  · intro d ha; cases ha
  · intro d ha; cases ha
  · intro d ha
    cases ha
    cases h₁; cases h₂; cases h₃
    exact ⟨fun x hx => (by cases hx), fun _ => ⟨rfl, accepted_pair hd⟩⟩
  · intro d ha; cases ha
  · intro d ha; cases ha

theorem doorbells_wellFormed_separate : ∃ d s, batchOf 2 = some d ∧
    (StagingSystem.machine sixteenArgs).run (separateRun d) = some s ∧
      s.sub.direct.portal = [.single copy, .single d] ∧
      ∀ b ∈ s.sub.direct.portal, WellFormed sixteenArgs.wq b := by
  obtain ⟨d, hd⟩ : ∃ d, batchOf 2 = some d := ⟨_, rfl⟩
  obtain ⟨s, hs, hp⟩ := separateRun_portal d
  exact ⟨d, s, hd, hs, hp, (doorbells_wellFormed sixteenArgs).1 _ s (batchAlone_separateRun hd) hs⟩

/-- A batch of two that is staged behind a copy is nested, and a batch of one is rung as it is. -/
theorem doorbells_malformed :
    (∃ d s, batchOf 2 = some d ∧ (StagingSystem.machine sixteenArgs).run (togetherRun d) = some s ∧
      ∃ b ∈ s.sub.direct.portal, ¬ WellFormed sixteenArgs.wq b) ∧
    ∃ d s, batchOf 1 = some d ∧ (StagingSystem.machine sixteenArgs).run (separateRun d) = some s ∧
      ∃ b ∈ s.sub.direct.portal, ¬ WellFormed sixteenArgs.wq b := by
  constructor
  · obtain ⟨d, hd⟩ : ∃ d, batchOf 2 = some d := ⟨_, rfl⟩
    obtain ⟨s, hs, hp⟩ := togetherRun_portal d
    refine ⟨d, s, hd, hs, .batch 2 [copy, d], by simp [hp], ?_⟩
    rintro ⟨_, h⟩
    refine h d (by simp) ?_
    cases hd; rfl
  · obtain ⟨d, hd⟩ : ∃ d, batchOf 1 = some d := ⟨_, rfl⟩
    obtain ⟨s, hs, hp⟩ := separateRun_portal d
    refine ⟨d, s, hd, hs, .single d, by simp [hp], fun h => ?_⟩
    cases hd
    obtain ⟨⟨h2, _⟩, _⟩ := h rfl
    exact absurd h2 (by decide)

end DsaStdexec.Operation

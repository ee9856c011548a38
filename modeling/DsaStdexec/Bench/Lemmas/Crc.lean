import DsaStdexec.Bench.Crc

/-!
# The CRC as a polynomial

The `u16` loops are the register of `Lib.Crc` with 16 bits, bytes for words and `0x8BB7` for the
generator.
-/

namespace DsaStdexec.Bench.Crc

open Polynomial DsaStdexec.Lib DsaStdexec.Lib.Crc

theorem generator_eq : generator 0x8BB7#16 = t10dif := by
  have hpoly : toPoly 0x8BB7#16 =
      X ^ 15 + X ^ 11 + X ^ 9 + X ^ 8 + X ^ 7 + X ^ 5 + X ^ 4 + X ^ 2 + X + 1 := by
    simp [toPoly, Finset.sum_range_succ]
    ring
  rw [generator, hpoly, t10dif]
  ring

theorem crcBit_toBitVec (crc : UInt16) : (crcBit crc).toBitVec = shift 0x8BB7#16 crc.toBitVec := by
  have hbit : crc &&& 0x8000 ≠ 0 ↔ crc.toBitVec.msb = true := by
    rw [ne_eq, ← UInt16.toBitVec_inj, UInt16.toBitVec_and,
      show (0x8000 : UInt16).toBitVec = BitVec.twoPow 16 15 by decide, BitVec.and_twoPow,
      BitVec.msb_eq_getLsbD_last]
    split <;> simp_all
  simp only [crcBit, shift, hbit]
  split <;> simp

theorem crcBits_toBitVec (n : Nat) (crc : UInt16) :
    (crcBit^[n] crc).toBitVec = (shift 0x8BB7#16)^[n] crc.toBitVec := by
  induction n with
  | zero => rfl
  | succ n ih => rw [Function.iterate_succ_apply', Function.iterate_succ_apply', crcBit_toBitVec, ih]

theorem crcByte_toBitVec (crc : UInt16) (byte : UInt8) :
    (crcByte crc byte).toBitVec = feed 0x8BB7#16 crc.toBitVec byte.toBitVec := by
  rw [crcByte, crcBits_toBitVec, feed, UInt16.toBitVec_xor]
  rfl

theorem crc16T10dif_toBitVec (data : List UInt8) :
    (crc16T10dif data).toBitVec = (data.map UInt8.toBitVec).foldl (feed 0x8BB7#16) 0#16 := by
  induction data using List.reverseRecOn with
  | nil => rfl
  | append_singleton data byte ih =>
      rw [crc16T10dif, List.foldl_concat, crcByte_toBitVec, List.map_append, List.foldl_append, ← ih]
      rfl

theorem messageBits_eq (data : List UInt8) :
    messageBits data = (data.map UInt8.toBitVec).flatMap msbFirst := by
  simp [messageBits, List.flatMap_map]

theorem toPoly_crc16T10dif (data : List UInt8) : toPoly (crc16T10dif data).toBitVec =
    (ofBits (messageBits data) * X ^ 16) %ₘ t10dif := by
  rw [crc16T10dif_toBitVec, messageBits_eq, ← generator_eq]
  exact toPoly_foldl_feed (by decide) (by decide) _

theorem ofBits_crcBytes (crc : UInt16) :
    ofBits (messageBits (crcBytes crc)) = toPoly crc.toBitVec := by
  have hsplit : crc.toBitVec = (crc >>> 8).toUInt8.toBitVec ++ crc.toUInt8.toBitVec := by
    apply BitVec.eq_of_getLsbD_eq
    intro i hi
    rw [BitVec.getLsbD_append]
    by_cases h8 : i < 8
    · simp [h8]
    · simp [h8, show i - 8 < 8 by omega, show 8 + (i - 8) = i by omega]
  rw [hsplit, toPoly_append]
  simp only [messageBits, crcBytes, List.flatMap_cons, List.flatMap_nil, List.append_nil,
    ofBits_append, length_msbFirst, ofBits_msbFirst]

theorem crc16T10dif_append_crcBytes (data : List UInt8) :
    crc16T10dif (data ++ crcBytes (crc16T10dif data)) = 0 := by
  apply UInt16.toBitVec_inj.mp
  rw [crc16T10dif_toBitVec, List.map_append]
  refine foldl_feed_append_self (by decide) (by decide) _ _ (by simp [crcBytes]) ?_
  rw [← messageBits_eq, ofBits_crcBytes, crc16T10dif_toBitVec]

end DsaStdexec.Bench.Crc

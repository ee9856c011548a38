import DsaStdexec.Lib.Crc

/-!
# The software CRC of the IAX benchmark

`crc16_t10dif` is what the benchmark compares the device's CRC with. It runs over the bytes of the
slice and, for each byte, over its eight bits.
-/

namespace DsaStdexec.Bench.Crc

open Polynomial DsaStdexec.Lib DsaStdexec.Lib.Crc

/-- The body of the inner loop. -/
def crcBit (crc : UInt16) : UInt16 :=
  if crc &&& 0x8000 ≠ 0 then (crc <<< 1) ^^^ 0x8BB7 else crc <<< 1

/-- The body of the outer loop. -/
def crcByte (crc : UInt16) (byte : UInt8) : UInt16 :=
  crcBit^[8] (crc ^^^ (byte.toUInt16 <<< 8))

def crc16T10dif (data : List UInt8) : UInt16 := data.foldl crcByte 0

/-- The generator of the T10 data integrity field. -/
noncomputable def t10dif : (ZMod 2)[X] :=
  X ^ 16 + X ^ 15 + X ^ 11 + X ^ 9 + X ^ 8 + X ^ 7 + X ^ 5 + X ^ 4 + X ^ 2 + X + 1

/-- The bits of a message, the most significant bit of each byte first. -/
def messageBits (data : List UInt8) : List Bool := data.flatMap fun byte => msbFirst byte.toBitVec

/-- The two bytes of a CRC, the more significant one first. -/
def crcBytes (crc : UInt16) : List UInt8 := [(crc >>> 8).toUInt8, crc.toUInt8]

end DsaStdexec.Bench.Crc

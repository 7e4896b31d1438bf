import TomAgent.Core.BigEndian

/-!
# CRC-32 with the IEEE polynomial

The reflected form: the register starts at all ones, every byte is folded in
bit by bit from the low end, and the final register is complemented.
-/

namespace TomAgent.Crc32

def polynomial : UInt32 := 0xEDB88320

def shift (crc : UInt32) : UInt32 :=
  if crc &&& 1 = 1 then (crc >>> 1) ^^^ polynomial else crc >>> 1

def update (crc : UInt32) (byte : UInt8) : UInt32 :=
  Nat.repeat shift 8 (crc ^^^ byte.toUInt32)

def checksumIEEE (data : Bytes) : UInt32 :=
  data.foldl update 0xFFFFFFFF ^^^ 0xFFFFFFFF

/-- The check value of the standard: the nine digits `123456789`. -/
example : checksumIEEE [49, 50, 51, 52, 53, 54, 55, 56, 57] = 0xCBF43926 := by decide +kernel

end TomAgent.Crc32

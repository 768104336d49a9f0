import PlatformMessaging.Wire.LittleEndian

/-!
# Thirty-two-bit checksums

The checksum with the polynomial `0x04c11db7`, low bits first (so that the constant reads
backwards), starting from all ones and inverted at the end.
-/

namespace PlatformMessaging.Crc32

/-- Moves a remainder on by one bit. -/
def shift (c : UInt32) : UInt32 :=
  if c &&& 1 = 0 then c >>> 1 else (c >>> 1) ^^^ 0xedb88320

def step (c : UInt32) (b : UInt8) : UInt32 :=
  Nat.repeat shift 8 (c ^^^ b.toUInt32)

def update (c : UInt32) (bytes : Bytes) : UInt32 :=
  bytes.foldl step c

def checksum (bytes : Bytes) : UInt32 :=
  update 0xffffffff bytes ^^^ 0xffffffff

-- The digits 1 to 9, by which checksums of this kind are told apart.
example : checksum [0x31, 0x32, 0x33, 0x34, 0x35, 0x36, 0x37, 0x38, 0x39] = 0xcbf43926 := by
  decide +kernel

end PlatformMessaging.Crc32

import PlatformMessaging.Wire.LittleEndian

/-!
# Eight-bit checksums

The checksum with polynomial `x^8 + x^2 + x + 1`, starting from zero, high bits first. It is taken
byte by byte, so that the checksum of a record can be taken part by part (`update_append`).
-/

namespace PlatformMessaging.Crc8

/-- Multiplies a remainder by `x`. -/
def shift (c : UInt8) : UInt8 :=
  if c &&& 0x80 = 0 then c <<< 1 else (c <<< 1) ^^^ 0x07

def step (c b : UInt8) : UInt8 :=
  Nat.repeat shift 8 (c ^^^ b)

def update (c : UInt8) (bytes : Bytes) : UInt8 :=
  bytes.foldl step c

def checksum (bytes : Bytes) : UInt8 :=
  update 0 bytes

-- The digits 1 to 9, by which checksums of this kind are told apart.
example : checksum [0x31, 0x32, 0x33, 0x34, 0x35, 0x36, 0x37, 0x38, 0x39] = 0xf4 := by
  decide +kernel

theorem update_append (c : UInt8) (a b : Bytes) : update c (a ++ b) = update (update c a) b :=
  List.foldl_append

end PlatformMessaging.Crc8

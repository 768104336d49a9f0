/-!
# Hexadecimal text

Codes are shown in messages as two lower-case digits.
-/

namespace PlatformMessaging

/-- A byte as two lower-case hexadecimal digits. -/
def hexByte (b : UInt8) : String :=
  String.ofList [Nat.digitChar (b.toNat / 16), Nat.digitChar (b.toNat % 16)]

end PlatformMessaging

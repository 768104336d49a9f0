import PlatformMessaging.Transfer.Assembly

/-!
# Probing retrievals

The plainest source of parts: a request's data is the handle and the operation; a response's data is
the flag, the next handle and the part. It notes every part that was asked for, and can be told to
refuse one.
-/

namespace PlatformMessaging

/-- What was asked for so far, the latest first. -/
structure Probe where
  asked : List (UInt32 × TransferOperation) := []

namespace Probe

/-- The handles and operations that were asked for, in order. -/
def calls (p : Probe) : List (UInt32 × TransferOperation) :=
  p.asked.reverse

/-- Reads a part: the flag, the next handle, and the data. -/
def part : Bytes → Except MessageError Part
  | flag :: a :: b :: c :: d :: data =>
    match TransferFlag.ofByte flag with
    | .error e => .error e
    | .ok flag => .ok ⟨flag, LittleEndian.readU32 [a, b, c, d], data⟩
  | _ => .error (.protocol (.described "Short part" none))

/-- Asks with a type and a command, and refuses the part of the given number for want of space. -/
def source (typ cmd : UInt8) (refused : Option Nat) : PartSource Probe where
  request handle operation p :=
    if refused = some p.asked.length then (.error .noSpace, p)
    else
      (.ok ⟨typ, cmd, LittleEndian.wordU32 handle ++ [operation.code]⟩,
        ⟨(handle, operation) :: p.asked⟩)
  decode r p := (part r.data, p)

end Probe

end PlatformMessaging

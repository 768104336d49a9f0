import PlatformMessaging.Wire.Hex

/-!
# Completion codes

The first byte after a response's header. `0` is success; the other generic codes have names, and
codes from `0x80` on belong to each message type.
-/

namespace PlatformMessaging

inductive CompletionCode where
  | success
  | error
  | invalidData
  | invalidLength
  | notReady
  | unsupportedCommand
  | invalidType
  deriving DecidableEq, Repr

namespace CompletionCode

def code : CompletionCode → UInt8
  | success => 0
  | error => 1
  | invalidData => 2
  | invalidLength => 3
  | notReady => 4
  | unsupportedCommand => 5
  | invalidType => 32

def name : CompletionCode → String
  | success => "SUCCESS"
  | error => "ERROR"
  | invalidData => "ERROR_INVALID_DATA"
  | invalidLength => "ERROR_INVALID_LENGTH"
  | notReady => "ERROR_NOT_READY"
  | unsupportedCommand => "ERROR_UNSUPPORTED_PLDM_CMD"
  | invalidType => "ERROR_INVALID_PLDM_TYPE"

def all : List CompletionCode :=
  [success, error, invalidData, invalidLength, notReady, unsupportedCommand, invalidType]

def ofByte? (b : UInt8) : Option CompletionCode :=
  all.find? fun c => c.code = b

/-- A code as messages show it: by name if it has one, else in hexadecimal. -/
def describe (b : UInt8) : String :=
  match ofByte? b with
  | some c => c.name
  | none => "0x" ++ hexByte b

@[simp] theorem ofByte?_code (c : CompletionCode) : ofByte? c.code = some c := by
  cases c <;> decide

end CompletionCode

end PlatformMessaging

import PlatformMessaging.Message.Error

/-!
# Commands of message type 0

Messaging control and discovery: which types, versions and commands a terminus knows.
-/

namespace PlatformMessaging.Control

/-- The message type of these commands. -/
def messageType : UInt8 := 0

inductive Command where
  | setTid
  | getTid
  | getVersion
  | getTypes
  | getCommands
  | selectVersion
  | negotiateTransferParameters
  | multipartSend
  | multipartReceive
  deriving DecidableEq, Repr

namespace Command

def code : Command → UInt8
  | setTid => 1
  | getTid => 2
  | getVersion => 3
  | getTypes => 4
  | getCommands => 5
  | selectVersion => 6
  | negotiateTransferParameters => 7
  | multipartSend => 8
  | multipartReceive => 9

def name : Command → String
  | setTid => "SetTID"
  | getTid => "GetTID"
  | getVersion => "GetPLDMVersion"
  | getTypes => "GetPLDMTypes"
  | getCommands => "GetPLDMCommands"
  | selectVersion => "SelectPLDMVersion"
  | negotiateTransferParameters => "NegotiateTransferParameters"
  | multipartSend => "MultipartSend"
  | multipartReceive => "MultipartReceive"

def all : List Command :=
  [setTid, getTid, getVersion, getTypes, getCommands, selectVersion,
    negotiateTransferParameters, multipartSend, multipartReceive]

def ofByte (b : UInt8) : Except MessageError Command :=
  match all.find? fun c => c.code = b with
  | some c => .ok c
  | none => .error (.protocol (.unknownControlCommand b))

@[simp] theorem ofByte_code (c : Command) : ofByte c.code = .ok c := by
  cases c <;> rfl

end Command

end PlatformMessaging.Control

import PlatformMessaging.Link.Basic
import PlatformMessaging.Message.CompletionCode

/-!
# Message errors

What can be wrong with a message: a `ProtocolFault` in its bytes, a refusal of the link, no space,
or an argument outside its field. `MessageError.message` gives the wording.
-/

namespace PlatformMessaging

/-- What a structure's reader finds wrong besides missing bytes. -/
inductive LayoutFault where
  | parse (text : String)
  | invalidParameter (text : String)
  | assertion (text : String)
  deriving DecidableEq, Repr

/-- A structure that ended before the message did. -/
def LayoutFault.surplus : LayoutFault := .parse "Too much data"

def LayoutFault.message : LayoutFault → String
  | .parse text => "Parse error: " ++ text
  | .invalidParameter text => "Invalid param error: " ++ text
  | .assertion text => "Assertion error: " ++ text

/-- A violation of the message format. -/
inductive ProtocolFault where
  /-- Fewer bytes than a header takes. -/
  | shortHeader (length : Nat)
  /-- A header version other than zero. -/
  | unsupportedVersion (version : UInt8)
  /-- A response that ends with its header. -/
  | missingCompletionCode
  /-- A request where a response was due. -/
  | notResponse
  /-- A structure that is cut short. -/
  | truncated
  /-- A structure that is malformed otherwise. -/
  | malformed (fault : LayoutFault)
  /-- A completion code other than success. -/
  | failure (code : UInt8)
  | unknownTransferFlag (value : UInt8)
  | unknownControlCommand (value : UInt8)
  /-- A last part without its checksum. -/
  | missingTransferChecksum
  /-- A last part whose checksum does not match the record. -/
  | transferChecksumMismatch
  /-- A fault of a caller's own, described in words, with details if there are any. -/
  | described (summary : String) (details : Option String)
  deriving DecidableEq, Repr

def ProtocolFault.message : ProtocolFault → String
  | shortHeader n => "Short message: " ++ toString n ++ " bytes"
  | unsupportedVersion v => "Unsupported header version: " ++ toString v.toNat
  | missingCompletionCode => "Short response, no completion code"
  | notResponse => "Expected a response, got a request"
  | truncated => "Short message"
  | malformed fault => "Bad message: " ++ fault.message
  | failure c => "Error response: " ++ CompletionCode.describe c
  | unknownTransferFlag v => "Unknown transfer flag: " ++ hexByte v
  | unknownControlCommand v => "Unknown PLDM control command: " ++ hexByte v
  | missingTransferChecksum => "Missing GetPDR transferCRC"
  | transferChecksumMismatch => "PDR transferCRC mismatch"
  | described summary none => summary
  | described summary (some details) => summary ++ ": " ++ details

/-- Why a message could not be made or read. -/
inductive MessageError where
  | protocol (fault : ProtocolFault)
  | link (error : LinkError)
  | noSpace
  | invalidArgument
  deriving DecidableEq, Repr

def MessageError.message : MessageError → String
  | protocol fault => "PLDM protocol error: " ++ fault.message
  | link e => "MCTP error: " ++ e.message
  | noSpace => "No buffer space available"
  | invalidArgument => "Invalid argument"

end PlatformMessaging

import PlatformMessaging.Message.Transfer
import PlatformMessaging.Transaction.Error

/-!
# Transfer errors

Why a record that comes in parts could not be retrieved.
-/

namespace PlatformMessaging

/-- What is wrong with the parts of a record, or with the record that they make. -/
inductive TransferFault where
  /-- A flag out of order. -/
  | flagOrder (flag : TransferFlag) (part : Nat)
  /-- A part without data that is not the last. -/
  | emptyPart (part : Nat) (flag : TransferFlag)
  /-- A part that is not the last and does not say how to go on. -/
  | noNextHandle (flag : TransferFlag)
  /-- Version data that is too short or not made of whole versions. -/
  | versionLength (length : Nat)
  /-- Version data that does not match its checksum. -/
  | versionChecksum
  /-- A record whose header tells another length. -/
  | recordLength (handle : UInt32) (told received : Nat)
  /-- A next record that was seen before. -/
  | repeatedHandle (handle : UInt32)
  deriving DecidableEq, Repr

def TransferFault.message : TransferFault → String
  | flagOrder flag part => "Transfer flag " ++ flag.name ++ " for part " ++ toString part
  | emptyPart part flag => "Empty part " ++ toString part ++ " with flag " ++ flag.name
  | noNextHandle flag => "No next handle with flag " ++ flag.name
  | versionLength n => "Bad version data length " ++ toString n
  | versionChecksum => "Version data CRC mismatch"
  | recordLength handle told received =>
    "PDR " ++ toString handle.toNat ++ " data length " ++ toString told ++ ", received " ++
      toString received
  | repeatedHandle handle => "PDR next record handle " ++ toString handle.toNat ++ " repeats"

/-- Why a record was not retrieved. -/
inductive TransferError where
  /-- The request for a part failed. -/
  | request (error : RequestError)
  /-- A part was refused with a completion code. -/
  | completion (code : UInt8)
  /-- The record is too large, or comes in too many parts. -/
  | overflow
  | violation (fault : TransferFault)
  /-- The request for a part could not be made, or the part could not be read. -/
  | messaging (error : MessageError)
  deriving DecidableEq, Repr

def TransferError.message : TransferError → String
  | request e => e.message
  | completion code => "Command failed with completion code 0x" ++ hexByte code
  | overflow => "Record too large"
  | violation fault => "Protocol violation: " ++ fault.message
  | messaging e => "PLDM error: " ++ e.message

end PlatformMessaging

import PlatformMessaging.Repository.Command
import PlatformMessaging.Repository.Structure
import PlatformMessaging.Checksum.Crc8
import PlatformMessaging.Message.Structure
import PlatformMessaging.Transfer.Assembly

/-!
# Retrieving records

A record is retrieved in parts. From its first part on, a record that comes in more than one part is
asked for under the change number of its header, and the last part brings a checksum of the whole
record. `getRecord` checks the length that the header tells.
-/

namespace PlatformMessaging.Repository

/-- How many bytes of a record are asked for at once. -/
def requestCount : UInt16 := 255

/-- A record, with the handle of the one that follows it in the repository, zero for the last. -/
structure Record where
  header : RecordHeader
  data : Bytes
  nextRecordHandle : UInt32
  deriving DecidableEq

/-- What a record describes, if that is known. -/
def Record.typ? (r : Record) : Option RecordType :=
  RecordType.ofByte? r.header.typ

/-- What the parts of a record tell besides its data. -/
structure RecordProgress where
  /-- The change number in the header, once a first part told it. -/
  changeNumber : UInt16 := 0
  nextRecordHandle : UInt32 := 0
  /-- The checksum so far, from a first part to a last. -/
  checksum : Option UInt8 := none
  deriving DecidableEq

namespace RecordProgress

/-- Takes note of the header in a first part that is not the last. -/
def begin (p : RecordProgress) (flag : TransferFlag) (data : Bytes) :
    Except MessageError RecordProgress :=
  match flag with
  | .start =>
    match RecordHeader.layout.decode data with
    | .error e => .error e
    | .ok (h, _) => .ok { p with changeNumber := h.changeNumber, checksum := some 0 }
  | _ => .ok p

/-- Takes data into the checksum, if one is being taken. -/
def take (p : RecordProgress) (data : Bytes) : RecordProgress :=
  { p with checksum := p.checksum.map fun c => Crc8.update c data }

/-- Compares the checksum with the byte after a last part. -/
def verify (p : RecordProgress) (flag : TransferFlag) (rest : Bytes) :
    Except MessageError RecordProgress :=
  match flag, rest with
  | .finish, [] => .error (.protocol .missingTransferChecksum)
  | .finish, expected :: _ =>
    if p.checksum = some expected then .ok { p with checksum := none }
    else .error (.protocol .transferChecksumMismatch)
  | _, _ => .ok p

def note (p : RecordProgress) (flag : TransferFlag) (r : RecordResponse) (rest : Bytes) :
    Except MessageError RecordProgress :=
  match p.begin flag r.data with
  | .error e => .error e
  | .ok p =>
    match (p.take r.data).verify flag rest with
    | .error e => .error e
    | .ok p => .ok { p with nextRecordHandle := r.nextRecordHandle }

end RecordProgress

def recordSource (handle : UInt32) : PartSource RecordProgress where
  request transferHandle operation p :=
    let changeNumber :=
      match operation with
      | .firstPart => 0
      | .nextPart => p.changeNumber
    (.ok ⟨messageType, Command.getRecord.code, RecordRequest.layout.write
      ⟨handle, transferHandle, operation.code, requestCount, changeNumber⟩⟩, p)
  decode r p :=
    match RecordResponse.layout.decode r.data with
    | .error e => (.error e, p)
    | .ok (v, rest) =>
      match TransferFlag.ofByte v.flag with
      | .error e => (.error e, p)
      | .ok flag =>
        match p.note flag v rest with
        | .error e => (.error e, p)
        | .ok p => (.ok ⟨flag, v.nextTransferHandle, v.data⟩, p)

/-- The record that was retrieved: a header, and as much data as it tells. -/
def Record.ofBytes (bytes : Bytes) (nextRecordHandle : UInt32) : Except TransferError Record :=
  match RecordHeader.layout.decode bytes with
  | .error e => .error (.messaging e)
  | .ok (header, data) =>
    if data.length ≠ header.dataLength.toNat then
      .error (.violation
        (.recordLength header.recordHandle header.dataLength.toNat data.length))
    else .ok ⟨header, data, nextRecordHandle⟩

/-- Retrieves the record of a handle. Handle zero means the first record. -/
def getRecord (policy : Policy) (eid : EndpointId) (handle : UInt32) :
    Dialogue (Except TransferError Record) :=
  ((recordSource handle).retrieve policy eid {}).bind fun p =>
    match p.1 with
    | .error e => .done (.error e)
    | .ok bytes => .done (Record.ofBytes bytes p.2.nextRecordHandle)

end PlatformMessaging.Repository

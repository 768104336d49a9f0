import PlatformMessaging.Control.Command
import PlatformMessaging.Control.Structure
import PlatformMessaging.Checksum.Crc32
import PlatformMessaging.Requester.Query
import PlatformMessaging.Transfer.Assembly

/-!
# Discovering what a terminus knows

Dialogues that ask a terminus for its ID, the types it knows, the commands of a type and the
versions of a type. Types and commands come as bitmasks; versions come in parts, followed by a
checksum.
-/

namespace PlatformMessaging.Control

def request (c : Command) (data : Bytes) : Request :=
  ⟨messageType, c.code, data⟩

/-- A bit of a mask whose first byte has the lowest bits. -/
def testBit (mask : Bytes) (n : Nat) : Bool :=
  (mask[n / 8]?.getD 0).toNat.testBit (n % 8)

/-- The positions of the bits that are set in a mask, in ascending order. -/
def bits (mask : Bytes) : List UInt8 :=
  ((List.range (8 * mask.length)).filter (testBit mask)).map UInt8.ofNat

def getTid (eid : EndpointId) : Dialogue (Except RequestError UInt8) :=
  (Dialogue.query eid (request .getTid []) TidResponse.layout).andThen fun r => .done (.ok r.tid)

/-- The types that a terminus knows, in ascending order. -/
def getTypes (eid : EndpointId) : Dialogue (Except RequestError (List UInt8)) :=
  (Dialogue.query eid (request .getTypes []) TypesResponse.layout).andThen fun r =>
    .done (.ok (bits r.types.bytes))

/-- The commands that a terminus knows of a type at a version, in ascending order. -/
def getCommands (eid : EndpointId) (typ : UInt8) (version : UInt32) :
    Dialogue (Except RequestError (List UInt8)) :=
  (Dialogue.query eid (request .getCommands (CommandsRequest.layout.write ⟨typ, version⟩))
    CommandsResponse.layout).andThen fun r => .done (.ok (bits r.commands.bytes))

/-! ## Versions -/

/-- The parts of the version data of a type. -/
def versionSource (typ : UInt8) : PartSource Unit where
  request handle operation _ :=
    (.ok (request .getVersion (VersionRequest.layout.write ⟨handle, operation.code, typ⟩)), ())
  decode r _ :=
    match VersionResponse.layout.decode r.data with
    | .error e => (.error e, ())
    | .ok (v, data) =>
      match TransferFlag.ofByte v.flag with
      | .error e => (.error e, ())
      | .ok flag => (.ok ⟨flag, v.nextHandle, data⟩, ())

/-- The 32-bit words of a byte string, as far as they are whole. -/
def words : Bytes → List UInt32
  | a :: b :: c :: d :: rest => LittleEndian.readU32 [a, b, c, d] :: words rest
  | _ => []

/-- The versions in version data: whole words, at least one, before the checksum of them all. -/
def versions (data : Bytes) : Except TransferError (List UInt32) :=
  if data.length < 8 ∨ data.length % 4 ≠ 0 then .error (.violation (.versionLength data.length))
  else
    let body := data.take (data.length - 4)
    let check := data.drop (data.length - 4)
    if LittleEndian.readU32 check = Crc32.checksum body then .ok (words body)
    else .error (.violation .versionChecksum)

def getVersions (policy : Policy) (eid : EndpointId) (typ : UInt8) :
    Dialogue (Except TransferError (List UInt32)) :=
  ((versionSource typ).retrieve policy eid ()).bind fun p =>
    match p.1 with
    | .error e => .done (.error e)
    | .ok data => .done (versions data)

end PlatformMessaging.Control

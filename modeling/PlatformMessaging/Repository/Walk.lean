import PlatformMessaging.Repository.Record
import PlatformMessaging.Requester.Query

/-!
# Walking a repository

Records are retrieved one after another, each telling the handle of the next, until one says that it
is the last. A walk ends with an error when it is led back to a record that it has, and after 4096
records.
-/

namespace PlatformMessaging.Repository

def maxRecords : Nat := 4096

/-- Retrieves the records from a handle on, as many as are left, given those before them in reverse
and the handles of their headers. -/
def walkFrom (policy : Policy) (eid : EndpointId) :
    Nat → List Record → List UInt32 → UInt32 → Dialogue (Except TransferError (List Record))
  | 0, _, _, _ => .done (.error .overflow)
  | left + 1, records, seen, handle =>
    (getRecord policy eid handle).andThen fun record =>
      let seen := record.header.recordHandle :: seen
      let records := record :: records
      if record.nextRecordHandle = 0 then .done (.ok records.reverse)
      else if record.nextRecordHandle ∈ seen then
        .done (.error (.violation (.repeatedHandle record.nextRecordHandle)))
      else walkFrom policy eid left records seen record.nextRecordHandle

/-- Retrieves every record of a repository, in its order. -/
def getRepository (policy : Policy) (eid : EndpointId) :
    Dialogue (Except TransferError (List Record)) :=
  walkFrom policy eid maxRecords [] [] 0

def getInfo (eid : EndpointId) : Dialogue (Except RequestError InfoResponse) :=
  Dialogue.query eid ⟨messageType, Command.getRepositoryInfo.code, []⟩ InfoResponse.layout

end PlatformMessaging.Repository

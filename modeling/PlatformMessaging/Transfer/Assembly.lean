import PlatformMessaging.Transfer.Error
import PlatformMessaging.Transaction.Policy
import PlatformMessaging.Requester.Dialogue

/-!
# Retrieving records in parts

A record is asked for part by part, each part telling the handle of the next, until a part that ends
it. `Assembly.add` says what a part makes of the data received so far: it is refused if its flag is
out of order, if it brings nothing although it is not the last, if it makes the record too large, or
if it does not tell how to go on. `retrieve` asks for the parts, at most `maxParts` of them.

How parts are asked for and read is up to a `PartSource`, which may keep a state from part to part.
-/

namespace PlatformMessaging

structure Part where
  flag : TransferFlag
  nextHandle : UInt32
  data : Bytes
  deriving DecidableEq

/-- How the parts of a record are asked for and read, with a state that goes from part to part. -/
structure PartSource (s : Type) where
  request : UInt32 → TransferOperation → s → Except MessageError Request × s
  decode : Response → s → Except MessageError Part × s

/-- What a part makes of the data received so far. -/
inductive Assembly where
  | complete (record : Bytes)
  /-- More is to come, under a handle. -/
  | more (received : Bytes) (handle : UInt32)
  deriving DecidableEq

namespace Assembly

/-- Adds the part of a given number, counted from zero, to the data received before it. -/
def add (maxSize number : Nat) (received : Bytes) (p : Part) : Except TransferError Assembly :=
  if p.flag.isStart ≠ (number == 0) then .error (.violation (.flagOrder p.flag number))
  else if p.flag.isEnd = false ∧ p.data = [] then .error (.violation (.emptyPart number p.flag))
  else if maxSize < received.length + p.data.length then .error .overflow
  else if p.flag.isEnd then .ok (.complete (received ++ p.data))
  else if p.nextHandle = 0 then .error (.violation (.noNextHandle p.flag))
  else .ok (.more (received ++ p.data) p.nextHandle)

end Assembly

namespace PartSource

variable {s : Type}

/-- What the answer to the request for a part makes of the data received so far. -/
def receive (source : PartSource s) (maxSize number : Nat) (received : Bytes) (state : s) :
    Except RequestError Response → Except TransferError Assembly × s
  | .error e => (.error (.request e), state)
  | .ok r =>
    if r.code ≠ CompletionCode.success.code then (.error (.completion r.code), state)
    else
      match source.decode r state with
      | (.error e, state) => (.error (.messaging e), state)
      | (.ok part, state) => (Assembly.add maxSize number received part, state)

/-- Asks for the parts from the given number on, as many as are left. -/
def retrieveFrom (source : PartSource s) (maxSize : Nat) (eid : EndpointId) :
    Nat → Nat → Bytes → UInt32 → TransferOperation → s → Dialogue (Except TransferError Bytes × s)
  | 0, _, _, _, _, state => .done (.error .overflow, state)
  | left + 1, number, received, handle, operation, state =>
    match source.request handle operation state with
    | (.error e, state) => .done (.error (.messaging e), state)
    | (.ok request, state) =>
      .ask eid request fun answer =>
        match source.receive maxSize number received state answer with
        | (.error e, state) => .done (.error e, state)
        | (.ok (.complete record), state) => .done (.ok record, state)
        | (.ok (.more received handle), state) =>
          retrieveFrom source maxSize eid left (number + 1) received handle .nextPart state

/-- Retrieves a record within the limits of a policy, with the state that its parts leave. -/
def retrieve (source : PartSource s) (policy : Policy) (eid : EndpointId) (state : s) :
    Dialogue (Except TransferError Bytes × s) :=
  source.retrieveFrom policy.maxRecordSize eid policy.maxParts 0 [] 0 .firstPart state

end PartSource

end PlatformMessaging

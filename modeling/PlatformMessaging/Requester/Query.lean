import PlatformMessaging.Message.Structure
import PlatformMessaging.Requester.Dialogue

/-!
# Queries

The simplest dialogue asks for a structure: the response must be successful, and its data must start
with the structure. More data may follow it.
-/

namespace PlatformMessaging

/-- The structure at the start of a successful response. -/
def Response.body {α : Type} (r : Response) (L : Layout α) : Except MessageError α :=
  match r.succeeded with
  | .error e => .error e
  | .ok () =>
    match L.decode r.data with
    | .error e => .error e
    | .ok (v, _) => .ok v

def Dialogue.query {α : Type} (eid : EndpointId) (request : Request) (L : Layout α) :
    Dialogue (Except RequestError α) :=
  (Dialogue.send eid request).andThen fun r =>
    match r.body L with
    | .error e => .done (.error (.messaging e))
    | .ok v => .done (.ok v)

end PlatformMessaging

import PlatformMessaging.Link.Basic

/-!
# Outboxes

An `Outbox` is a link within the program: accepted messages wait in a queue, oldest first, until
they are taken. It can be told to refuse everything with a given error.
-/

namespace PlatformMessaging

/-- A queue of accepted messages, with the refusal in force and the count of messages accepted. -/
structure Outbox where
  queue : List (EndpointId × Bytes) := []
  refusal : Option LinkError := none
  accepted : Nat := 0

namespace Outbox

/-- Accepts a message at the end of the queue, unless a refusal is in force. -/
def send (o : Outbox) (eid : EndpointId) (msg : Bytes) : Except LinkError Unit × Outbox :=
  match o.refusal with
  | some e => (.error e, o)
  | none => (.ok (), { o with queue := o.queue ++ [(eid, msg)], accepted := o.accepted + 1 })

def pop (o : Outbox) : Option (EndpointId × Bytes) × Outbox :=
  match o.queue with
  | [] => (none, o)
  | m :: rest => (some m, { o with queue := rest })

/-- Takes every message, oldest first. -/
def drain (o : Outbox) : List (EndpointId × Bytes) × Outbox :=
  (o.queue, { o with queue := [] })

/-- Refuses every further message with an error, or accepts again. -/
def refuse (o : Outbox) (e : Option LinkError) : Outbox :=
  { o with refusal := e }

end Outbox

instance : Link Outbox where
  send eid msg o := o.send eid msg

@[simp] theorem Outbox.link_send (eid : EndpointId) (msg : Bytes) (o : Outbox) :
    Link.send eid msg o = o.send eid msg := rfl

end PlatformMessaging

import PlatformMessaging.Requester.Session

/-!
# Scripted termini

A `Script` is a requester facing a terminus with a list of replies: each message that the requester
sends, repeated attempts included, uses up the next reply. `Script.turn` is one turn of a host that
waits for a conversation to end: it polls the conversation, and then lets the terminus reply to what
was sent, or, if nothing was sent, sets the clock to the next timer.
-/

namespace PlatformMessaging

/-- A message that the terminus sends back. -/
inductive Delivery where
  /-- A response to the request, in which some fields of the header may be chosen freely. -/
  | response (sender : Option EndpointId) (iid : Option InstanceId) (typ cmd : Option UInt8)
      (code : UInt8) (data : Bytes)
  /-- Any bytes. -/
  | raw (sender : Option EndpointId) (msg : Bytes)

/-- The sender and the bytes of a reply to a message. -/
def Delivery.message (eid : EndpointId) (msg : Bytes) : Delivery → Option (EndpointId × Bytes)
  | .raw sender bytes => some (sender.getD eid, bytes)
  | .response sender iid typ cmd code data =>
    match Header.decode msg with
    | .error _ => none
    | .ok (h, _) =>
      some (sender.getD eid,
        Response.encode ⟨iid.getD h.iid, typ.getD h.typ, cmd.getD h.cmd, code, data⟩)

/-- What the terminus does about a message: change what the link refuses, then send messages. -/
structure Reply where
  refusal : Option (Option LinkError) := none
  deliveries : List Delivery := []

/-- A requester and the replies that its terminus has left. Histories have the latest first. -/
structure Script (ι : Type) where
  requester : Requester Outbox ι
  replies : List Reply
  /-- The messages that reached the terminus. -/
  requests : List (EndpointId × Bytes) := []
  /-- What the requester said of each message it was given. -/
  received : List (Except MessageError Bool) := []
  warnings : List Warning := []

namespace Script

variable {ι α : Type}

/-- Performs an action of the host. -/
def act (s : Script ι) (action : Action Outbox) : Outcome × Script ι :=
  let p := s.requester.perform (.act action)
  (p.outcome, { s with
    requester := p.requester, warnings := (Event.warnings p.events).reverse ++ s.warnings })

def deliver (s : Script ι) (eid : EndpointId) (msg : Bytes) : Script ι :=
  match s.act (.inbound eid msg) with
  | (.received result, s) => { s with received := result :: s.received }
  | (_, s) => s

def serve (s : Script ι) (m : EndpointId × Bytes) : Script ι :=
  let s := { s with requests := m :: s.requests }
  match s.replies with
  | [] => s
  | reply :: rest =>
    let s := { s with replies := rest }
    let s :=
      match reply.refusal with
      | none => s
      | some refusal => (s.act (.adjust fun o => o.refuse refusal)).2
    (reply.deliveries.filterMap (Delivery.message m.1 m.2)).foldl
      (fun s d => s.deliver d.1 d.2) s

inductive Turn (α : Type) where
  | ended (result : α)
  | going (conversation : Conversation α)
  /-- The conversation waits, but nothing will ever happen. -/
  | stuck

/-- Polls a conversation; then lets the terminus reply, or waits for the next timer. -/
def turn (s : Script ι) (c : Conversation α) : Turn α × Script ι :=
  match s.requester.poll c with
  | (.inr a, q) => (.ended a, { s with requester := q })
  | (.inl c, q) =>
    match q.registry.link.drain with
    | ([], _) =>
      let s := { s with requester := q }
      let wait := q.registry.nextTimeout
      if wait = Clock.top then (.stuck, { s with requester := q.abandon c })
      else (.going c, (s.act (.update (q.registry.clock + wait))).2)
    | (sent, link) =>
      let q := { q with registry := { q.registry with link := link } }
      (.going c, sent.foldl serve { s with requester := q })

end Script

end PlatformMessaging

import PlatformMessaging.Link.Outbox
import PlatformMessaging.Requester.Basic

/-!
# Sessions

A requester with named conversations. Conversations are polled in the order in which they were
started; one that ends is removed.
-/

namespace PlatformMessaging

/-- A requester with the conversations that it holds. -/
structure Session (σ ι ν α : Type) where
  requester : Requester σ ι
  conversations : List (ν × Conversation α) := []

namespace Session

variable {σ ι ν α : Type}

/-- Starts a conversation. Nothing is sent before it is polled. -/
def start (s : Session σ ι ν α) (name : ν) (dialogue : Dialogue α) : Session σ ι ν α :=
  { s with conversations := s.conversations ++ [(name, .ready dialogue)] }

/-- Polls the chosen conversations of a list. Tells of each whether it ended, and how. -/
def pollEach [Link σ] (chosen : ν → Bool) :
    List (ν × Conversation α) → Requester σ ι → List (ν × Option α) × Session σ ι ν α
  | [], q => ([], ⟨q, []⟩)
  | (name, c) :: rest, q =>
    if chosen name then
      match q.poll c with
      | (.inl c, q) =>
        let (told, s) := pollEach chosen rest q
        ((name, none) :: told, { s with conversations := (name, c) :: s.conversations })
      | (.inr a, q) =>
        let (told, s) := pollEach chosen rest q
        ((name, some a) :: told, s)
    else
      let (told, s) := pollEach chosen rest q
      (told, { s with conversations := (name, c) :: s.conversations })

def poll [Link σ] (s : Session σ ι ν α) (chosen : ν → Bool) :
    List (ν × Option α) × Session σ ι ν α :=
  pollEach chosen s.conversations s.requester

/-- Abandons the conversations whose names are chosen, and counts them. -/
def drop (s : Session σ ι ν α) (chosen : ν → Bool) : Nat × Session σ ι ν α :=
  let (dropped, kept) := s.conversations.partition fun c => chosen c.1
  (dropped.length, ⟨dropped.foldl (fun q c => q.abandon c.2) s.requester, kept⟩)

structure Report (σ ι ν α : Type) where
  outcome : Outcome
  events : List (Event (Purpose ι))
  session : Session σ ι ν α

def perform [Link σ] (s : Session σ ι ν α) (op : Operation σ (Purpose ι)) : Report σ ι ν α :=
  let p := s.requester.perform op
  ⟨p.outcome, p.events, { s with requester := p.requester }⟩

/-- Takes the messages that the requester sent, oldest first. -/
def takeSent (s : Session Outbox ι ν α) : List (EndpointId × Bytes) × Session Outbox ι ν α :=
  let (sent, link) := s.requester.registry.link.drain
  let registry := { s.requester.registry with link := link }
  (sent, { s with requester := { s.requester with registry := registry } })

end Session

end PlatformMessaging

import PlatformMessaging.Registry.Machine
import PlatformMessaging.Requester.Dialogue

/-!
# Requesters

A `Requester` holds conversations over a registry: a `Conversation` is a dialogue under way. Polling
one sends its next request, or goes on with the answer if it has arrived. Each request that a
conversation waits for has a `Ticket`, under which its result is kept until the next poll.

A request sent for a conversation allocates its instance ID and gives it back at its end. An
abandoned conversation only loses its ticket: its request stays outstanding until it completes by
itself.
-/

namespace PlatformMessaging

/-- The number of a request that a conversation waits for. -/
abbrev Ticket := Nat

/-- What a registered request is for: the ticket of a conversation, or a host's own label. -/
inductive Purpose (ι : Type) where
  | ticket (ticket : Ticket)
  | own (label : ι)
  deriving DecidableEq

/-- The tickets in use, with the results that have arrived. -/
abbrev Awaited := List (Ticket × Option (Except RequestError Response))

/-- A registry with the results that conversations wait for. -/
structure Requester (σ ι : Type) where
  registry : Registry σ (Purpose ι)
  awaited : Awaited := []
  nextTicket : Ticket := 0

/-- A dialogue under way. -/
inductive Conversation (α : Type) where
  /-- It was not polled yet. -/
  | ready (dialogue : Dialogue α)
  /-- It waits for the answer to a request. -/
  | waiting (ticket : Ticket) (request : Request)
      (next : Except RequestError Response → Dialogue α)

namespace Awaited

/-- A new ticket. -/
def add (a : Awaited) (ticket : Ticket) : Awaited :=
  a ++ [(ticket, none)]

/-- Keeps the result of a ticket, if it is in use. -/
def deliver (a : Awaited) (ticket : Ticket) (result : Except RequestError Response) : Awaited :=
  a.map fun p => if p.1 = ticket then (ticket, some result) else p

def result? (a : Awaited) (ticket : Ticket) : Option (Except RequestError Response) :=
  (a.find? fun p => p.1 = ticket).bind fun p => p.2

def forget (a : Awaited) (ticket : Ticket) : Awaited :=
  a.filter fun p => p.1 ≠ ticket

/-- Keeps the results that events tell for tickets. -/
def collect {ι : Type} : Awaited → List (Event (Purpose ι)) → Awaited
  | a, [] => a
  | a, .completed (.ticket t) _ result _ _ :: rest => (a.deliver t result).collect rest
  | a, _ :: rest => a.collect rest

end Awaited

namespace Requester

variable {σ ι α : Type}

/-- A requester without requests, and the warnings due for its policy. -/
def create (link : σ) (policy : Policy) : Except RequestError (Requester σ ι × List Warning) :=
  match Registry.create link policy with
  | .error e => .error e
  | .ok (registry, warnings) => .ok (⟨registry, [], 0⟩, warnings)

/-! ## Operations of the host -/

structure Report (σ ι : Type) where
  outcome : Outcome
  events : List (Event (Purpose ι))
  requester : Requester σ ι

/-- Performs an operation of the host, and keeps the results that conversations wait for. -/
def perform [Link σ] (q : Requester σ ι) (op : Operation σ (Purpose ι)) : Report σ ι :=
  let p := q.registry.perform op
  ⟨p.outcome, p.events, { q with registry := p.registry, awaited := q.awaited.collect p.events }⟩

/-! ## Conversations -/

/-- Sends a request for a conversation under a new ticket. -/
def begin [Link σ] (q : Requester σ ι) (eid : EndpointId) (request : Request) :
    Except RequestError Ticket × Requester σ ι :=
  let g := q.registry.register ⟨eid, .lent, request, .ticket q.nextTicket⟩ .done
  match g.result with
  | .error e => (.error e, { q with registry := g.registry })
  | .ok _ => (.ok q.nextTicket, ⟨g.registry, q.awaited.add q.nextTicket, q.nextTicket + 1⟩)

def forget (q : Requester σ ι) (ticket : Ticket) : Requester σ ι :=
  { q with awaited := q.awaited.forget ticket }

/-- A result as the answer to a request: its type and command must be those of the request. -/
def checkAnswer (request : Request) : Except RequestError Response → Except RequestError Response
  | .error e => .error e
  | .ok r =>
    if r.typ ≠ request.typ ∨ r.cmd ≠ request.cmd then
      .error (.violation (.mismatch r.typ r.cmd request.typ request.cmd))
    else .ok r

/-- How a poll leaves a conversation: under way, or ended with its result. -/
abbrev Polled (α : Type) := Conversation α ⊕ α

/-- Goes on with a dialogue until it waits for an answer or ends. -/
def advance [Link σ] : Dialogue α → Requester σ ι → Polled α × Requester σ ι
  | .done a, q => (.inr a, q)
  | .ask eid request next, q =>
    match q.begin eid request with
    | (.error e, q) => advance (next (.error e)) q
    | (.ok ticket, q) => (.inl (.waiting ticket request next), q)

/-- Polls a conversation: it still waits, waits for a further answer, or ends with its result. -/
def poll [Link σ] (q : Requester σ ι) : Conversation α → Polled α × Requester σ ι
  | .ready d => advance d q
  | .waiting ticket request next =>
    match q.awaited.result? ticket with
    | none => (.inl (.waiting ticket request next), q)
    | some result => advance (next (checkAnswer request result)) (q.forget ticket)

def abandon (q : Requester σ ι) : Conversation α → Requester σ ι
  | .ready _ => q
  | .waiting ticket _ _ => q.forget ticket

end Requester

end PlatformMessaging

import PlatformMessaging.Transaction.Policy
import PlatformMessaging.Transaction.Basic

/-!
# Programs

What a host, or a callback at the end of a request, does with a registry: a `Program` is a finite
sequence of actions, in which a registered request carries the program that runs when it completes.
`Program.weight` counts its steps, those of the programs it registers included.
-/

namespace PlatformMessaging

/-- What can be done with a registry besides registering a request, on a link with states `σ`. -/
inductive Action (σ : Type) where
  /-- Takes an instance ID. -/
  | allocate (eid : EndpointId)
  /-- Gives an instance ID back. -/
  | release (eid : EndpointId) (iid : InstanceId)
  /-- Delivers a response, of which `rest` follows the header. -/
  | respond (key : Key) (rest : Bytes)
  /-- Delivers a message. -/
  | inbound (eid : EndpointId) (msg : Bytes)
  /-- Gives a request up. -/
  | cancel (key : Key)
  /-- Sets the clock and runs the timers. -/
  | update (now : Nat)
  /-- Asks for the state of a request. -/
  | state (key : Key)
  /-- Asks for the time until the next timer. -/
  | nextTimeout
  /-- Asks for the number of outstanding requests. -/
  | outstanding
  /-- Asks for the policy in force. -/
  | policy
  /-- Asks whether an instance ID is taken. -/
  | isTaken (eid : EndpointId) (iid : InstanceId)
  /-- Asks how many instance IDs are taken. -/
  | count (eid : EndpointId)
  /-- Sends a message past the registry. -/
  | transmit (eid : EndpointId) (msg : Bytes)
  /-- Changes the link from outside. -/
  | adjust (change : σ → σ)

/-- Where the instance ID of a request comes from. -/
inductive IdSource where
  /-- The caller names it. -/
  | given (iid : InstanceId)
  /-- It is allocated, and stays the caller's if the registration fails. -/
  | drawn
  /-- It is allocated, and given back if the registration fails, unless another request has it. -/
  | lent
  deriving DecidableEq

/-- A request to be registered. The label tells its completion from those of others. -/
structure Submission (ι : Type) where
  eid : EndpointId
  source : IdSource
  request : Request
  label : ι

/-- A finite sequence of actions and registrations. -/
inductive Program (σ ι : Type) where
  | done
  | act (action : Action σ) (next : Program σ ι)
  | register (submission : Submission ι) (onComplete next : Program σ ι)

/-- A single action or registration. -/
inductive Operation (σ ι : Type) where
  | act (action : Action σ)
  | register (submission : Submission ι) (onComplete : Program σ ι)

/-- The answer to a single action or registration. -/
inductive Outcome where
  | done
  | allocated (result : Except RequestError InstanceId)
  | registered (result : Except RequestError Key)
  | matched (found : Bool)
  | received (result : Except MessageError Bool)
  | interval (time : Nat)
  | state (state : Option Transaction.State)
  | count (n : Nat)
  | policy (policy : Policy)
  | taken (isTaken : Bool)
  | transmitted (result : Except LinkError Unit)

/-- Who asked: the host, or the step of a callback. -/
inductive Caller (ι : Type) where
  | host
  | callback (label : ι) (index : Nat)

/-- What happens while an operation runs. -/
inductive Event (ι : Type) where
  /-- A request was offered to the link, at a clock reading. -/
  | attempt (label : ι) (key : Key) (msg : Bytes) (answer : Except LinkError Unit) (clock : Nat)
  /-- A request was registered, at a clock reading. -/
  | opened (label : ι) (key : Key) (clock : Nat)
  | warning (warning : Warning)
  /-- A request ended at a clock reading, with so many others still outstanding. Its program runs
  next. -/
  | completed (label : ι) (key : Key) (result : Except RequestError Response) (outstanding : Nat)
      (clock : Nat)
  /-- An action or registration was answered. -/
  | returned (caller : Caller ι) (outcome : Outcome)

variable {σ ι : Type}

/-- The warnings among events, in order. -/
def Event.warnings (events : List (Event ι)) : List Warning :=
  events.filterMap fun
    | .warning w => some w
    | _ => none

namespace Program

/-- The steps of a program and of all programs that it registers, each registration and action
counted twice and each end once. -/
def weight : Program σ ι → Nat
  | done => 1
  | act _ next => next.weight + 2
  | register _ onComplete next => onComplete.weight + next.weight + 2

end Program

end PlatformMessaging

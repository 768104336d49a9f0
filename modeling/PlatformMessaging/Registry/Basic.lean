import PlatformMessaging.Registry.Slots
import PlatformMessaging.Transaction.InstanceIds

/-!
# The registry of outstanding requests

A `Registry` sends requests through its link, knows which are outstanding and runs their timers.
This module has what it does in one go; the completion of requests, which runs programs that may use
the registry again, is in `PlatformMessaging.Registry.Machine`.
-/

namespace PlatformMessaging

/-- The outstanding requests, with the link they are sent through. -/
structure Registry (σ ι : Type) where
  link : σ
  policy : Policy
  ids : InstanceIds
  slots : List (Slot σ ι)
  /-- The clock reading last set. -/
  clock : Nat

namespace Registry

variable {σ ι : Type}

/-- A registry without requests, and the warnings due for its policy. -/
def create (link : σ) (policy : Policy) : Except RequestError (Registry σ ι × List Warning) :=
  match policy.validate with
  | .error e => .error (.messaging e)
  | .ok warnings => .ok (⟨link, policy, {}, [], 0⟩, warnings)

def outstanding (r : Registry σ ι) : Nat :=
  (Slots.live r.slots).length

def state? (r : Registry σ ι) (key : Key) : Option Transaction.State :=
  (Slots.find? r.slots key).map fun e => e.transaction.state

/-- The time until the next timer of an outstanding request runs out, `Clock.top` if there is
none. -/
def nextTimeout (r : Registry σ ι) : Nat :=
  ((Slots.live r.slots).flatMap fun e => e.timeouts r.clock).min?.getD Clock.top

def allocate (r : Registry σ ι) (eid : EndpointId) :
    Except RequestError InstanceId × Registry σ ι :=
  ((r.ids.allocate eid).1, { r with ids := (r.ids.allocate eid).2 })

def release (r : Registry σ ι) (eid : EndpointId) (iid : InstanceId) : Registry σ ι :=
  { r with ids := r.ids.release eid iid }

/-- Gives back the instance ID of a response that no request waits for, unless a request that is
still in its slot holds it. -/
def releaseStray (r : Registry σ ι) (key : Key) : Registry σ ι :=
  if r.slots.any fun s => s.holds key.eid key.iid then r else r.release key.eid key.iid

/-- The result of a registration, with what happened in it. -/
structure Registration (σ ι : Type) where
  result : Except RequestError Key
  registry : Registry σ ι
  events : List (Event ι)

/-- Sends a request under an instance ID and registers it. If its key is outstanding already, if it
does not fit a message or if the link refuses it, nothing is registered. -/
def send [Link σ] (r : Registry σ ι) (eid : EndpointId) (iid : InstanceId) (request : Request)
    (label : ι) (onComplete : Program σ ι) : Registration σ ι :=
  let key : Key := ⟨eid, iid, request.typ, request.cmd⟩
  if (Slots.find? r.slots key).isSome then ⟨.error (.duplicateKey key), r, []⟩
  else
    match request.encode iid with
    | .error e => ⟨.error (.messaging e), r, []⟩
    | .ok msg =>
      let t := Transaction.create key msg r.policy.retries onComplete
      match t.start r.link r.clock r.policy.responseTimeout with
      | (.error e, _, link) =>
        ⟨.error (.link e), { r with link := link }, [.attempt label key msg (.error e) r.clock]⟩
      | (.ok (), t, link) =>
        let entry : Entry σ ι := ⟨label, t, .arm r.clock r.policy.instanceExpiry⟩
        ⟨.ok key, { r with link := link, slots := Slots.insert entry r.slots },
          [.attempt label key msg (.ok ()) r.clock, .opened label key r.clock]⟩

/-- Takes back the instance ID of a failed registration. With a duplicate key the ID belongs to the
request that is outstanding. -/
def reclaim (r : Registry σ ι) (eid : EndpointId) (iid : InstanceId) :
    Except RequestError Key → Registry σ ι
  | .ok _ => r
  | .error (.duplicateKey _) => r
  | .error _ => r.release eid iid

/-- Registers a request under the instance ID that its source gives. -/
def register [Link σ] (r : Registry σ ι) (s : Submission ι) (onComplete : Program σ ι) :
    Registration σ ι :=
  match s.source with
  | .given iid => r.send s.eid iid s.request s.label onComplete
  | .drawn =>
    match r.allocate s.eid with
    | (.error e, r) => ⟨.error e, r, []⟩
    | (.ok iid, r) => r.send s.eid iid s.request s.label onComplete
  | .lent =>
    match r.allocate s.eid with
    | (.error e, r) => ⟨.error e, r, []⟩
    | (.ok iid, r) =>
      let g := r.send s.eid iid s.request s.label onComplete
      { g with registry := g.registry.reclaim s.eid iid g.result }

/-- Sets the clock, which never goes back. A reading past `Clock.top` counts as `Clock.top`. -/
def setClock (r : Registry σ ι) (now : Nat) : Registry σ ι × List Warning :=
  if now < r.clock then (r, [.clockBackwards now r.clock])
  else ({ r with clock := min now Clock.top }, [])

/-- Looks at the timers of every request, and sends again or ends what is due. -/
def sweep [Link σ] (r : Registry σ ι) : Registry σ ι × List SlotRef × List (Event ι) :=
  let w := Slots.sweep r.clock r.policy.responseTimeout 0 r.slots r.link
  ({ r with slots := w.slots, link := w.link }, w.expired, w.events)

/-- Ends the outstanding request of a key, and refers to its slot. -/
def terminate? (r : Registry σ ι) (key : Key) (state : Transaction.State) :
    Option (SlotRef × Registry σ ι) :=
  (Slots.terminate? r.slots key state).map fun p => (p.1, { r with slots := p.2 })

/-- Removes the request that a reference means, and gives its instance ID back. -/
def remove? (r : Registry σ ι) (ref : SlotRef) : Option (Entry σ ι × Registry σ ι) :=
  (Slots.remove? r.slots ref).map fun p =>
    (p.1, { r with slots := p.2, ids := r.ids.release p.1.key.eid p.1.key.iid })

end Registry

end PlatformMessaging

import PlatformMessaging.Registry.Basic

/-!
# Running operations

Completing a request runs its program, which may use the registry again: register requests, answer
or cancel others, or set the clock while an earlier `update` still has requests to finish. A
`Machine` keeps what is under way on a stack of `Frame`s, so that each `Machine.step` is a single
action, and `Machine.run` steps until the stack is empty.

`Machine.weight` falls with every step (`PlatformMessaging.Registry.Termination`), so that many
steps are enough. `Registry.perform` runs one operation from start to end and reports what happened.
-/

namespace PlatformMessaging

/-- Something under way. -/
inductive Frame (σ ι : Type) where
  /-- The rest of a program, with the label of its request and the index of its next step. -/
  | running (label : ι) (index : Nat) (program : Program σ ι)
  /-- An answer that waits for the programs above it to end. -/
  | answering (caller : Caller ι) (outcome : Outcome)
  /-- An `update` that has requests left to finish. -/
  | finishing (caller : Caller ι) (expired : List SlotRef)

/-- A registry with what is under way in it, and the events so far, newest first. -/
structure Machine (σ ι : Type) where
  registry : Registry σ ι
  stack : List (Frame σ ι) := []
  events : List (Event ι) := []

variable {σ ι : Type}

namespace Machine

def record (m : Machine σ ι) (events : List (Event ι)) : Machine σ ι :=
  { m with events := events.reverse ++ m.events }

def push (m : Machine σ ι) (f : Frame σ ι) : Machine σ ι :=
  { m with stack := f :: m.stack }

def answer (m : Machine σ ι) (caller : Caller ι) (outcome : Outcome) : Machine σ ι :=
  m.record [.returned caller outcome]

/-- Removes the request that a reference means, tells its result and runs its program. -/
def finish (m : Machine σ ι) (ref : SlotRef) (result : Except RequestError Response) :
    Machine σ ι :=
  match m.registry.remove? ref with
  | none => m
  | some (entry, registry) =>
    let m := { m with registry := registry }
    match entry.transaction.takeCallback.1 with
    | none => m
    | some program =>
      (m.record [.completed entry.label entry.key result registry.outstanding registry.clock]).push
        (.running entry.label 0 program)

/-- Delivers a response, and answers the caller one way if a request waited for it and another way
if not. -/
def respond (m : Machine σ ι) (caller : Caller ι) (key : Key) (rest : Bytes)
    (matched stray : Outcome) : Machine σ ι :=
  match m.registry.terminate? key .completed with
  | none => { m with registry := m.registry.releaseStray key }.answer caller stray
  | some (ref, registry) =>
    let result :=
      match Response.ofParts key.iid key.typ key.cmd rest with
      | .ok response => .ok response
      | .error e => .error (.violation (.unreadable e))
    ({ m with registry := registry }.push (.answering caller matched)).finish ref result

/-- Delivers a message. Requests are left to others. -/
def inbound (m : Machine σ ι) (caller : Caller ι) (eid : EndpointId) (msg : Bytes) : Machine σ ι :=
  match Header.decode msg with
  | .error e => m.answer caller (.received (.error e))
  | .ok (h, rest) =>
    if h.request then m.answer caller (.received (.ok false))
    else
      m.respond caller ⟨eid, h.iid, h.typ, h.cmd⟩ rest (.received (.ok true)) (.received (.ok true))

def cancel (m : Machine σ ι) (caller : Caller ι) (key : Key) : Machine σ ι :=
  match m.registry.terminate? key .cancelled with
  | none => m.answer caller (.matched false)
  | some (ref, registry) =>
    ({ m with registry := registry }.push (.answering caller (.matched true))).finish ref
      (.error .cancelled)

/-- Sets the clock and looks at all timers. What ran out of time is finished afterwards. -/
def update [Link σ] (m : Machine σ ι) (caller : Caller ι) (now : Nat) : Machine σ ι :=
  let (registry, warnings) := m.registry.setClock now
  let (registry, expired, events) := registry.sweep
  ({ m with registry := registry }.record (warnings.map Event.warning ++ events)).push
    (.finishing caller expired)

def act [Link σ] (m : Machine σ ι) (caller : Caller ι) : Action σ → Machine σ ι
  | .allocate eid =>
    let (result, registry) := m.registry.allocate eid
    { m with registry := registry }.answer caller (.allocated result)
  | .release eid iid =>
    { m with registry := m.registry.release eid iid }.answer caller .done
  | .respond key rest => m.respond caller key rest (.matched true) (.matched false)
  | .inbound eid msg => m.inbound caller eid msg
  | .cancel key => m.cancel caller key
  | .update now => m.update caller now
  | .state key => m.answer caller (.state (m.registry.state? key))
  | .nextTimeout => m.answer caller (.interval m.registry.nextTimeout)
  | .outstanding => m.answer caller (.count m.registry.outstanding)
  | .policy => m.answer caller (.policy m.registry.policy)
  | .isTaken eid iid => m.answer caller (.taken (m.registry.ids.isTaken eid iid))
  | .count eid => m.answer caller (.count (m.registry.ids.count eid))
  | .transmit eid msg =>
    let (result, link) := Link.send eid msg m.registry.link
    { m with registry := { m.registry with link := link } }.answer caller (.transmitted result)
  | .adjust change =>
    { m with registry := { m.registry with link := change m.registry.link } }.answer caller .done

def register [Link σ] (m : Machine σ ι) (caller : Caller ι) (s : Submission ι)
    (onComplete : Program σ ι) : Machine σ ι :=
  let g := m.registry.register s onComplete
  ({ m with registry := g.registry }.record g.events).answer caller (.registered g.result)

def start [Link σ] (m : Machine σ ι) (caller : Caller ι) : Operation σ ι → Machine σ ι
  | .act action => m.act caller action
  | .register s onComplete => m.register caller s onComplete

/-- Goes on with what is on top of the stack. -/
def step [Link σ] (m : Machine σ ι) : Option (Machine σ ι) :=
  match m.stack with
  | [] => none
  | .running _ _ .done :: rest => some { m with stack := rest }
  | .running label i (.act action next) :: rest =>
    some ({ m with stack := .running label (i + 1) next :: rest }.act (.callback label i) action)
  | .running label i (.register s onComplete next) :: rest =>
    some ({ m with stack := .running label (i + 1) next :: rest }.register (.callback label i) s
      onComplete)
  | .answering caller outcome :: rest => some ({ m with stack := rest }.answer caller outcome)
  | .finishing caller [] :: rest =>
    some ({ m with stack := rest }.answer caller (.interval m.registry.nextTimeout))
  | .finishing caller (ref :: refs) :: rest =>
    some ({ m with stack := .finishing caller refs :: rest }.finish ref (.error .timedOut))

def steps [Link σ] : Nat → Machine σ ι → Machine σ ι
  | 0, m => m
  | n + 1, m =>
    match m.step with
    | none => m
    | some m => steps n m

end Machine

/-! ## Weight -/

/-- The weight of the program that an entry carries, and one more while the request is
outstanding. -/
def Entry.weight (e : Entry σ ι) : Nat :=
  (e.transaction.callback.map Program.weight).getD 0 + if e.isLive then 1 else 0

/-- The weight of the entry in a slot. -/
def Slot.weight (s : Slot σ ι) : Nat :=
  (s.entry.map Entry.weight).getD 0

/-- The weight of all requests. -/
def Slots.weight (slots : List (Slot σ ι)) : Nat :=
  slots.foldr (fun s n => s.weight + n) 0

/-- The steps that a frame takes by itself. -/
def Frame.weight : Frame σ ι → Nat
  | .running _ _ program => program.weight
  | .answering _ _ => 1
  | .finishing _ expired => expired.length + 1

namespace Machine

/-- A bound on the steps that are left. -/
def weight (m : Machine σ ι) : Nat :=
  Slots.weight m.registry.slots + m.stack.foldr (fun f n => f.weight + n) 0

/-- Steps until nothing is under way. -/
def run [Link σ] (m : Machine σ ι) : Machine σ ι :=
  m.steps m.weight

end Machine

namespace Registry

/-- What an operation did: its answer, the events in order, and the registry it left. -/
structure Report (σ ι : Type) where
  outcome : Outcome
  events : List (Event ι)
  registry : Registry σ ι

/-- Performs an operation with all that follows from it. -/
def perform [Link σ] (r : Registry σ ι) (op : Operation σ ι) : Report σ ι :=
  let m := (Machine.start ⟨r, [], []⟩ .host op).run
  let outcome :=
    match m.events with
    | .returned .host outcome :: _ => outcome
    | _ => .done
  ⟨outcome, m.events.reverse, m.registry⟩

end Registry

end PlatformMessaging

import PlatformMessaging.Requester.Session
import PlatformMessaging.Proofs.Message
import PlatformMessaging.Proofs.Registry.Settling

/-!
# A requester on an unreliable network

A `World` is a session whose link notes every message that it is offered (`Recorder`). In any order,
conversations start, are polled and dropped, the clock is set, and responses are delivered: a
`Terminus` may answer every `Letter` any number of times, at any time later, or never.

A letter is *current* as long as its instance ID was not handed out again. As a request's first
attempt is made right after its ID was handed out, this is until another first attempt to the same
endpoint under the same ID. Only responses to current letters are delivered.
-/

namespace PlatformMessaging

/-- What is answered to a request: a completion code and data, which depend on the endpoint and on
the type, the command and the data of the request. -/
abbrev Terminus := EndpointId → UInt8 → UInt8 → Bytes → UInt8 × Bytes

namespace Terminus

/-- The response to a request under an instance ID. -/
def response (f : Terminus) (eid : EndpointId) (iid : InstanceId) (r : Request) : Response :=
  ⟨iid, r.typ, r.cmd, (f eid r.typ r.cmd r.data).1, (f eid r.typ r.cmd r.data).2⟩

def reply? (f : Terminus) (eid : EndpointId) (msg : Bytes) : Option Bytes :=
  match Header.decode msg with
  | .error _ => none
  | .ok (h, data) => some (f.response eid h.iid ⟨h.typ, h.cmd, data⟩).encode

end Terminus

/-- A message that was offered to the link, as the first attempt of a request or as a later one. -/
structure Letter where
  eid : EndpointId
  msg : Bytes
  first : Bool
  deriving DecidableEq

namespace Letter

def address (l : Letter) : EndpointId × InstanceId :=
  (l.eid, l.msg.headD 0 &&& 0x1f)

/-- The letters, the latest first, that no later first attempt has the address of. -/
def current : List Letter → List Letter
  | [] => []
  | l :: rest => l :: if l.first then (current rest).filter (·.address ≠ l.address) else current rest

end Letter

/-- A link that notes every message it is offered, the latest first, and whether it is a first
attempt. -/
structure Recorder (τ : Type) where
  link : τ
  first : Bool := true
  letters : List Letter := []

instance {τ : Type} [Link τ] : Link (Recorder τ) where
  send eid msg r :=
    ((Link.send eid msg r.link).1,
      { r with link := (Link.send eid msg r.link).2, letters := ⟨eid, msg, r.first⟩ :: r.letters })

/-- Changes the link from outside. -/
def Requester.onLink {σ ι : Type} (q : Requester σ ι) (change : σ → σ) : Requester σ ι :=
  { q with registry := { q.registry with link := change q.registry.link } }

theorem Requester.create_eq {σ ι : Type} {link : σ} {policy : Policy} {q : Requester σ ι}
    {warnings : List Warning} (h : Requester.create link policy = .ok (q, warnings)) :
    q = ⟨⟨link, policy, {}, [], 0⟩, [], 0⟩ := by
  unfold Requester.create at h
  split at h
  · cases h
  · rename_i registry _ hcreate
    obtain ⟨rfl, -⟩ := Prod.mk.inj (Except.ok.inj h)
    rw [Registry.create_eq hcreate]

/-- A session on an unreliable network, with the results that its conversations ended with. -/
structure World (τ ι ν α : Type) where
  session : Session (Recorder τ) ι ν α
  told : List (ν × α) := []

inductive Happening (τ ν : Type) where
  /-- A conversation starts. -/
  | start (name : ν)
  /-- Some conversations are polled. -/
  | poll (chosen : ν → Bool)
  /-- Some conversations are dropped. -/
  | drop (chosen : ν → Bool)
  /-- The clock is set, and the timers run. -/
  | update (now : Nat)
  /-- A response to a letter arrives. -/
  | deliver (letter : Letter)
  /-- The link changes. -/
  | adjust (change : τ → τ)

/-- No response comes after its instance ID was handed out again. -/
def Happening.Timely {τ ν : Type} (letters : List Letter) : Happening τ ν → Prop
  | .deliver l => l ∈ Letter.current letters
  | _ => True

instance {τ ν : Type} (letters : List Letter) (happening : Happening τ ν) :
    Decidable (happening.Timely letters) :=
  match happening with
  | .deliver l => inferInstanceAs (Decidable (l ∈ Letter.current letters))
  | .start _ | .poll _ | .drop _ | .update _ | .adjust _ => inferInstanceAs (Decidable True)

namespace World

variable {τ ι ν α : Type}

/-- The letters so far, the latest first. -/
def letters (w : World τ ι ν α) : List Letter :=
  w.session.requester.registry.link.letters

/-- Tells the link whether the messages that follow are first attempts. -/
def mark (w : World τ ι ν α) (first : Bool) : Session (Recorder τ) ι ν α :=
  { w.session with requester := w.session.requester.onLink fun r => { r with first := first } }

/-- What follows when something happens. A conversation holds the dialogue that belongs to its
name. -/
def next [Link τ] (f : Terminus) (dialogue : ν → Dialogue α) (w : World τ ι ν α) :
    Happening τ ν → World τ ι ν α
  | .start name => { w with session := w.session.start name (dialogue name) }
  | .poll chosen =>
    ⟨((w.mark true).poll chosen).2,
      w.told ++ ((w.mark true).poll chosen).1.filterMap fun p => p.2.map fun a => (p.1, a)⟩
  | .drop chosen => { w with session := (w.session.drop chosen).2 }
  | .update now => { w with session := ((w.mark false).perform (.act (.update now))).session }
  | .deliver l =>
    match f.reply? l.eid l.msg with
    | none => w
    | some msg => { w with session := (w.session.perform (.act (.inbound l.eid msg))).session }
  | .adjust change =>
    { w with
      session := { w.session with
        requester := w.session.requester.onLink fun r => { r with link := change r.link } } }

/-- The worlds that come from a requester without conversations. -/
inductive Run [Link τ] (f : Terminus) (dialogue : ν → Dialogue α) (q : Requester (Recorder τ) ι) :
    World τ ι ν α → Prop where
  | start : Run f dialogue q ⟨⟨q, []⟩, []⟩
  | next {w : World τ ι ν α} (h : Run f dialogue q w) (happening : Happening τ ν)
      (htimely : happening.Timely w.letters) : Run f dialogue q (w.next f dialogue happening)

end World

/-! ## Letters -/

theorem Recorder.of_send {τ : Type} [Link τ] {r r' : Recorder τ} {eid : EndpointId} {msg : Bytes}
    {result : Except LinkError Unit} (h : Link.send eid msg r = (result, r')) :
    r'.first = r.first ∧ r'.letters = ⟨eid, msg, r.first⟩ :: r.letters := by
  obtain ⟨-, rfl⟩ := Prod.mk.inj h
  exact ⟨rfl, rfl⟩

namespace Letter

/-- A letter becomes current when it is sent, and a first attempt takes that from earlier letters of
its address. -/
theorem mem_current_cons {l l' : Letter} {letters : List Letter} :
    l' ∈ current (l :: letters) ↔
      l' = l ∨ l' ∈ current letters ∧ (l.first = true → l'.address ≠ l.address) := by
  rw [current, List.mem_cons]
  by_cases hfirst : l.first = true
  · rw [if_pos hfirst, List.mem_filter]
    simp [hfirst]
  · rw [if_neg hfirst]
    simp [hfirst]

theorem current_append {new letters : List Letter} (hnew : ∀ l ∈ new, l.first = false) :
    current (new ++ letters) = new ++ current letters := by
  induction new with
  | nil => rfl
  | cons l new ih =>
    rw [List.cons_append, current, if_neg (by simp [hnew l List.mem_cons_self]),
      ih fun l hl => hnew l (List.mem_cons_of_mem _ hl)]
    rfl

theorem address_of_decode {h : Header} {msg rest : Bytes} (hdecode : Header.decode msg = .ok (h, rest))
    (eid : EndpointId) (first : Bool) : address ⟨eid, msg, first⟩ = (eid, h.iid) := by
  unfold Header.decode at hdecode
  split at hdecode
  · split_ifs at hdecode
    obtain ⟨rfl, -⟩ := Prod.mk.inj (Except.ok.inj hdecode)
    rfl
  · cases hdecode

theorem address_of_encode {r : Request} {iid : InstanceId} {msg : Bytes}
    (h : r.encode iid = .ok msg) (eid : EndpointId) (first : Bool) :
    address ⟨eid, msg, first⟩ = (eid, iid) :=
  address_of_decode (Request.decode_encode h) eid first

end Letter

theorem Terminus.reply?_of_encode (f : Terminus) {r : Request} {iid : InstanceId} {msg : Bytes}
    (h : r.encode iid = .ok msg) (eid : EndpointId) :
    f.reply? eid msg = some (f.response eid iid r).encode := by
  unfold reply?
  rw [Request.decode_encode h]

theorem Terminus.decode_reply? {f : Terminus} {eid : EndpointId} {msg reply : Bytes}
    (h : f.reply? eid msg = some reply) :
    ∃ header data, Header.decode msg = .ok (header, data) ∧
      Header.decode reply = .ok (⟨false, false, header.iid, header.typ, header.cmd⟩,
        (f eid header.typ header.cmd data).1 :: (f eid header.typ header.cmd data).2) := by
  unfold reply? at h
  split at h
  · cases h
  · rename_i header data hdecode
    obtain rfl := Option.some.inj h
    obtain ⟨hiid, htyp⟩ := Header.decode_bounds hdecode
    exact ⟨header, data, hdecode, Response.decode_encode hiid htyp⟩

end PlatformMessaging

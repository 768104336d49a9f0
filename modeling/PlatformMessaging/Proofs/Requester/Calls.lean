import PlatformMessaging.Control.Discovery
import PlatformMessaging.Repository.Walk
import PlatformMessaging.Proofs.Dialogue
import PlatformMessaging.Proofs.Requester.Network

/-!
# The calls of the library

Each `Call` is a dialogue with a `Call.Reply`. A request that fails ends a call with that failure,
plain or as that of a part of a record (`Call.relays`), and no call but the plain request looks at
the instance IDs of responses (`Call.blind`).

`Dialogue.Answered` has the results that a dialogue can end with when a terminus answers everything
that can be sent. For a dialogue that does not look at instance IDs there is one only
(`Answered.unique`). `Dialogue.AnsweredFrom` is the same with the instance ID of the first request
among some: a plain request ends with its response, ID and all (`Call.answeredFrom_send`).
-/

namespace PlatformMessaging

inductive Call where
  | send (eid : EndpointId) (request : Request)
  | getTid (eid : EndpointId)
  | getTypes (eid : EndpointId)
  | getCommands (eid : EndpointId) (typ : UInt8) (version : UInt32)
  | getVersions (eid : EndpointId) (typ : UInt8)
  | getRecord (eid : EndpointId) (handle : UInt32)
  | getRepository (eid : EndpointId)
  | getInfo (eid : EndpointId)
  deriving DecidableEq

inductive Call.Reply where
  | response (result : Except RequestError Response)
  | tid (result : Except RequestError UInt8)
  | codes (result : Except RequestError (List UInt8))
  | versions (result : Except TransferError (List UInt32))
  | record (result : Except TransferError Repository.Record)
  | records (result : Except TransferError (List Repository.Record))
  | info (result : Except RequestError Repository.InfoResponse)
  deriving DecidableEq

def Call.dialogue (policy : Policy) : Call → Dialogue Call.Reply
  | .send eid request => (Dialogue.send eid request).bind fun a => .done (.response a)
  | .getTid eid => (Control.getTid eid).bind fun a => .done (.tid a)
  | .getTypes eid => (Control.getTypes eid).bind fun a => .done (.codes a)
  | .getCommands eid typ version =>
    (Control.getCommands eid typ version).bind fun a => .done (.codes a)
  | .getVersions eid typ => (Control.getVersions policy eid typ).bind fun a => .done (.versions a)
  | .getRecord eid handle =>
    (Repository.getRecord policy eid handle).bind fun a => .done (.record a)
  | .getRepository eid => (Repository.getRepository policy eid).bind fun a => .done (.records a)
  | .getInfo eid => (Repository.getInfo eid).bind fun a => .done (.info a)

/-- The failed request that a result tells of, by itself or as that of a part of a record. -/
def TransferError.request? : TransferError → Option RequestError
  | .request e => some e
  | _ => none

/-- The failed request that a reply tells of. -/
def Call.Reply.failure? : Call.Reply → Option RequestError
  | .response (.error e) => some e
  | .tid (.error e) => some e
  | .codes (.error e) => some e
  | .versions (.error e) => e.request?
  | .record (.error e) => e.request?
  | .records (.error e) => e.request?
  | .info (.error e) => some e
  | _ => none

/-! ## Relaying failures -/

namespace Dialogue

variable {α : Type}

theorem relays_send (eid : EndpointId) (request : Request) :
    (send eid request).Relays fun e a => a = .error e :=
  .ask (fun e => ⟨.error e, rfl, rfl⟩) fun _ => .done _

theorem relays_query (eid : EndpointId) (request : Request) (L : Layout α) :
    (query eid request L).Relays fun e a => a = .error e := by
  refine (relays_send eid request).andThen (fun e a ha => ⟨e, ha, rfl⟩) fun r => ?_
  split
  · exact .done _
  · exact .done _

theorem blind_send_bind {β : Type} (eid : EndpointId) (request : Request)
    (g : Except RequestError Response → Dialogue β)
    (hsame : ∀ r : Response, g (.ok r) = g (.ok { r with iid := 0 })) (hg : ∀ a, (g a).Blind) :
    ((send eid request).bind g).Blind :=
  .ask hsame hg

theorem blind_query (eid : EndpointId) (request : Request) (L : Layout α) :
    (query eid request L).Blind := by
  refine blind_send_bind eid request _ (fun r => rfl) ?_
  rintro (e | r)
  · exact .done _
  · dsimp only
    split
    · exact .done _
    · exact .done _

end Dialogue

namespace PartSource

variable {s : Type}

theorem relays_retrieveFrom (source : PartSource s) (maxSize : Nat) (eid : EndpointId)
    (left number : Nat) (received : Bytes) (handle : UInt32) (operation : TransferOperation)
    (state : s) :
    (source.retrieveFrom maxSize eid left number received handle operation state).Relays
      fun e a => a.1 = .error (.request e) := by
  induction left generalizing number received handle operation state with
  | zero => exact .done _
  | succ left ih =>
    unfold retrieveFrom
    split
    · exact .done _
    · refine .ask (fun e => ⟨_, rfl, rfl⟩) fun r => ?_
      split
      · exact .done _
      · exact .done _
      · exact ih ..

/-- The source does not look at the instance IDs of responses. -/
def Blind (source : PartSource s) : Prop :=
  ∀ (r : Response) (state : s), source.decode r state = source.decode { r with iid := 0 } state

theorem blind_retrieveFrom {source : PartSource s} (hsource : source.Blind) (maxSize : Nat)
    (eid : EndpointId) (left number : Nat) (received : Bytes) (handle : UInt32)
    (operation : TransferOperation) (state : s) :
    (source.retrieveFrom maxSize eid left number received handle operation state).Blind := by
  induction left generalizing number received handle operation state with
  | zero => exact .done _
  | succ left ih =>
    unfold retrieveFrom
    split
    · exact .done _
    · refine .ask (fun r => ?_) fun answer => ?_
      · unfold receive
        dsimp only
        rw [hsource r]
      · split
        · exact .done _
        · exact .done _
        · exact ih ..

end PartSource

theorem relays_retrieve {s α : Type} (source : PartSource s) (policy : Policy) (eid : EndpointId)
    (state : s) (read : Bytes → s → Except TransferError α) :
    ((source.retrieve policy eid state).bind fun p =>
      match p.1 with
      | .error e => .done (.error e)
      | .ok bytes => .done (read bytes p.2)).Relays fun e a => a = .error (.request e) := by
  refine (source.relays_retrieveFrom ..).bind (fun e a ha => ?_) fun p => ?_
  · rw [ha]
    exact ⟨_, rfl, rfl⟩
  · split
    · exact .done _
    · exact .done _

theorem blind_retrieve {s α : Type} (source : PartSource s) (hsource : source.Blind)
    (policy : Policy) (eid : EndpointId) (state : s) (read : Bytes → s → Except TransferError α) :
    ((source.retrieve policy eid state).bind fun p =>
      match p.1 with
      | .error e => .done (.error e)
      | .ok bytes => .done (read bytes p.2)).Blind := by
  refine (PartSource.blind_retrieveFrom hsource ..).bind fun p => ?_
  split
  · exact .done _
  · exact .done _

theorem relays_getRecord (policy : Policy) (eid : EndpointId) (handle : UInt32) :
    (Repository.getRecord policy eid handle).Relays fun e a => a = .error (.request e) :=
  relays_retrieve (Repository.recordSource handle) policy eid {}
    fun bytes p => Repository.Record.ofBytes bytes p.nextRecordHandle

theorem blind_getRecord (policy : Policy) (eid : EndpointId) (handle : UInt32) :
    (Repository.getRecord policy eid handle).Blind :=
  blind_retrieve (Repository.recordSource handle) (fun _ _ => rfl) policy eid {}
    fun bytes p => Repository.Record.ofBytes bytes p.nextRecordHandle

theorem relays_walkFrom (policy : Policy) (eid : EndpointId) (left : Nat)
    (records : List Repository.Record) (seen : List UInt32) (handle : UInt32) :
    (Repository.walkFrom policy eid left records seen handle).Relays
      fun e a => a = .error (.request e) := by
  induction left generalizing records seen handle with
  | zero => exact .done _
  | succ left ih =>
    unfold Repository.walkFrom
    refine (relays_getRecord policy eid handle).andThen (fun e a ha => ⟨_, ha, rfl⟩)
      fun record => ?_
    dsimp only
    split_ifs
    · exact .done _
    · exact .done _
    · exact ih ..

theorem blind_walkFrom (policy : Policy) (eid : EndpointId) (left : Nat)
    (records : List Repository.Record) (seen : List UInt32) (handle : UInt32) :
    (Repository.walkFrom policy eid left records seen handle).Blind := by
  induction left generalizing records seen handle with
  | zero => exact .done _
  | succ left ih =>
    unfold Repository.walkFrom
    refine (blind_getRecord policy eid handle).andThen fun record => ?_
    dsimp only
    split_ifs
    · exact .done _
    · exact .done _
    · exact ih ..

theorem relays_reply {ε α : Type} {wrap : RequestError → ε} {d : Dialogue (Except ε α)}
    (hd : d.Relays fun e a => a = .error (wrap e)) (reply : Except ε α → Call.Reply)
    (hreply : ∀ e, (reply (.error (wrap e))).failure? = some e) :
    (d.bind fun a => .done (reply a)).Relays fun e a => a.failure? = some e := by
  refine hd.bind (fun e a ha => ⟨_, rfl, ?_⟩) fun a => .done _
  rw [ha]
  exact hreply e

/-- A request that fails ends a call, with a reply that tells of the failure. -/
theorem Call.relays (policy : Policy) (c : Call) :
    (c.dialogue policy).Relays fun e a => a.failure? = some e := by
  have hquery : ∀ {α β : Type} (eid : EndpointId) (request : Request) (L : Layout α) (g : α → β),
      ((Dialogue.query eid request L).andThen fun r => .done (.ok (g r))).Relays
        fun e a => a = .error e :=
    fun eid request L g =>
      (Dialogue.relays_query eid request L).andThen (fun e a ha => ⟨e, ha, rfl⟩) fun _ => .done _
  cases c with
  | send eid request =>
    exact relays_reply (Dialogue.relays_send eid request) .response fun _ => rfl
  | getTid eid => exact relays_reply (hquery ..) .tid fun _ => rfl
  | getTypes eid => exact relays_reply (hquery ..) .codes fun _ => rfl
  | getCommands eid typ version => exact relays_reply (hquery ..) .codes fun _ => rfl
  | getVersions eid typ =>
    exact relays_reply (relays_retrieve _ policy eid () fun bytes _ => Control.versions bytes)
      .versions fun _ => rfl
  | getRecord eid handle =>
    exact relays_reply (relays_getRecord policy eid handle) .record fun _ => rfl
  | getRepository eid => exact relays_reply (relays_walkFrom ..) .records fun _ => rfl
  | getInfo eid => exact relays_reply (Dialogue.relays_query ..) .info fun _ => rfl

/-- Only the plain request looks at the instance ID of a response, which it returns. -/
theorem Call.blind (policy : Policy) {c : Call} (hc : ∀ eid request, c ≠ .send eid request) :
    (c.dialogue policy).Blind := by
  have hquery : ∀ {α β : Type} (eid : EndpointId) (request : Request) (L : Layout α) (g : α → β),
      ((Dialogue.query eid request L).andThen fun r => .done (.ok (g r))).Blind :=
    fun eid request L g => (Dialogue.blind_query eid request L).andThen fun _ => .done _
  cases c with
  | send eid request => exact absurd rfl (hc eid request)
  | getTid eid => exact (hquery ..).bind fun _ => .done _
  | getTypes eid => exact (hquery ..).bind fun _ => .done _
  | getCommands eid typ version => exact (hquery ..).bind fun _ => .done _
  | getVersions eid typ =>
    exact (blind_retrieve (Control.versionSource typ) (fun _ _ => rfl) policy eid ()
      fun bytes _ => Control.versions bytes).bind fun _ => .done _
  | getRecord eid handle => exact (blind_getRecord policy eid handle).bind fun _ => .done _
  | getRepository eid => exact (blind_walkFrom ..).bind fun _ => .done _
  | getInfo eid => exact (Dialogue.blind_query ..).bind fun _ => .done _

/-! ## The results of a dialogue whose requests are answered -/

namespace Dialogue

variable {α : Type}

/-- The dialogue ends with a result if a terminus answers each request that can be sent, under any
instance ID. -/
inductive Answered (f : Terminus) : Dialogue α → α → Prop where
  | done (a : α) : Answered f (.done a) a
  | ask {eid : EndpointId} {request : Request} {next : Except RequestError Response → Dialogue α}
      {a : α} (i : Fin 32) (htyp : request.typ ≤ Message.maxType)
      (h : Answered f (next (.ok (f.response eid (UInt8.ofNat i) request))) a) :
      Answered f (.ask eid request next) a
  | unsendable {eid : EndpointId} {request : Request}
      {next : Except RequestError Response → Dialogue α} {a : α}
      (htyp : Message.maxType < request.typ)
      (h : Answered f (next (.error (.messaging .invalidArgument))) a) :
      Answered f (.ask eid request next) a

theorem Answered.unique {f : Terminus} {d : Dialogue α} {a a' : α} (hd : d.Blind)
    (h : d.Answered f a) (h' : d.Answered f a') : a = a' := by
  induction h with
  | done a =>
    cases h'
    rfl
  | @ask eid request next a i htyp h ih =>
    obtain ⟨hsame, hnext⟩ := hd.of_ask
    cases h' with
    | ask j _ h' =>
      refine ih (hnext _) ?_
      rw [hsame] at h' ⊢
      exact h'
    | unsendable hbad _ => exact absurd hbad (UInt8.not_lt.2 htyp)
  | @unsendable eid request next a hbad h ih =>
    obtain ⟨-, hnext⟩ := hd.of_ask
    cases h' with
    | ask _ htyp _ => exact absurd hbad (UInt8.not_lt.2 htyp)
    | unsendable _ h' => exact ih (hnext _) h'

/-- The dialogue ends with a result if a terminus answers each request that can be sent, the first
under one of the instance IDs that are named, and the others under any. -/
inductive AnsweredFrom (f : Terminus) (ids : EndpointId → InstanceId → Prop) :
    Dialogue α → α → Prop where
  | done (a : α) : AnsweredFrom f ids (.done a) a
  | ask {eid : EndpointId} {request : Request} {next : Except RequestError Response → Dialogue α}
      {a : α} (i : Fin 32) (hid : ids eid (UInt8.ofNat i)) (htyp : request.typ ≤ Message.maxType)
      (h : Answered f (next (.ok (f.response eid (UInt8.ofNat i) request))) a) :
      AnsweredFrom f ids (.ask eid request next) a
  | unsendable {eid : EndpointId} {request : Request}
      {next : Except RequestError Response → Dialogue α} {a : α}
      (htyp : Message.maxType < request.typ)
      (h : Answered f (next (.error (.messaging .invalidArgument))) a) :
      AnsweredFrom f ids (.ask eid request next) a

theorem AnsweredFrom.answered {f : Terminus} {ids : EndpointId → InstanceId → Prop}
    {d : Dialogue α} {a : α} (h : d.AnsweredFrom f ids a) : d.Answered f a := by
  cases h with
  | done a => exact .done a
  | ask i _ htyp h => exact .ask i htyp h
  | unsendable htyp h => exact .unsendable htyp h

theorem AnsweredFrom.mono {f : Terminus} {ids ids' : EndpointId → InstanceId → Prop}
    {d : Dialogue α} {a : α} (h : d.AnsweredFrom f ids a)
    (hids : ∀ eid iid, ids eid iid → ids' eid iid) : d.AnsweredFrom f ids' a := by
  cases h with
  | done a => exact .done a
  | ask i hid htyp h => exact .ask i (hids _ _ hid) htyp h
  | unsendable htyp h => exact .unsendable htyp h

theorem Answered.bind {β : Type} {f : Terminus} {d : Dialogue α} {g : α → Dialogue β} {a : α} {b : β}
    (hd : d.Answered f a) (hg : (g a).Answered f b) : (d.bind g).Answered f b := by
  induction hd with
  | done a => exact hg
  | ask i htyp _ ih => exact .ask i htyp (ih hg)
  | unsendable hbad _ ih => exact .unsendable hbad (ih hg)

theorem Answered.andThen {ε β : Type} {f : Terminus} {d : Dialogue (Except ε α)}
    {g : α → Dialogue (Except ε β)} {a : α} {b : Except ε β} (hd : d.Answered f (.ok a))
    (hg : (g a).Answered f b) : (d.andThen g).Answered f b :=
  hd.bind hg

theorem answered_play {f : Terminus} {answers : Nat → Except RequestError Response} {n : Nat}
    {d : Dialogue α}
    (h : ∀ i eid request, (d.play answers n).1[i]? = some (eid, request) →
      request.typ ≤ Message.maxType ∧
        ∃ j : Fin 32, answers (n + i) = .ok (f.response eid (UInt8.ofNat j) request)) :
    d.Answered f (d.play answers n).2 := by
  induction d generalizing n with
  | done a => exact .done a
  | ask eid request next ih =>
    obtain ⟨htyp, j, hanswer⟩ := h 0 eid request rfl
    rw [Nat.add_zero] at hanswer
    rw [play_ask, hanswer]
    refine .ask j htyp (ih _ fun i eid' request' hasked => ?_)
    rw [Nat.add_assoc, Nat.add_comm 1]
    refine h (i + 1) eid' request' ?_
    rw [play_ask, hanswer]
    exact hasked

end Dialogue

/-- The reply up to the instance ID of a response. -/
def Call.Reply.unnumbered : Call.Reply → Call.Reply
  | .response (.ok r) => .response (.ok { r with iid := 0 })
  | reply => reply

/-- The replies to a plain request that is answered. -/
theorem Call.answeredFrom_send {f : Terminus} {ids : EndpointId → InstanceId → Prop}
    {policy : Policy} {eid : EndpointId} {request : Request} {reply : Call.Reply}
    (h : ((Call.send eid request).dialogue policy).AnsweredFrom f ids reply) :
    (request.typ ≤ Message.maxType ∧ ∃ iid, ids eid iid ∧
      reply = .response (.ok (f.response eid iid request))) ∨
    (Message.maxType < request.typ ∧ reply = .response (.error (.messaging .invalidArgument))) := by
  cases h with
  | ask i hid htyp h =>
    cases h
    exact .inl ⟨htyp, _, hid, rfl⟩
  | unsendable htyp h =>
    cases h
    exact .inr ⟨htyp, rfl⟩

/-- Answers under other instance IDs make no other difference. -/
theorem Call.answeredFrom_unnumbered {f : Terminus} {ids ids' : EndpointId → InstanceId → Prop}
    {policy : Policy} {call : Call} {reply reply' : Call.Reply}
    (h : (call.dialogue policy).AnsweredFrom f ids reply)
    (h' : (call.dialogue policy).AnsweredFrom f ids' reply') :
    reply.unnumbered = reply'.unnumbered ∧
      ((∀ eid request, call ≠ .send eid request) → reply = reply') := by
  by_cases hcall : ∀ eid request, call ≠ .send eid request
  · obtain rfl := h.answered.unique (Call.blind policy hcall) h'.answered
    exact ⟨rfl, fun _ => rfl⟩
  · refine ⟨?_, fun hne => absurd hne hcall⟩
    simp only [not_forall, not_not] at hcall
    obtain ⟨eid, request, rfl⟩ := hcall
    rcases Call.answeredFrom_send h with ⟨htyp, iid, -, rfl⟩ | ⟨htyp, rfl⟩
    · rcases Call.answeredFrom_send h' with ⟨-, iid', -, rfl⟩ | ⟨hbad, -⟩
      · rfl
      · exact absurd hbad (UInt8.not_lt.2 htyp)
    · rcases Call.answeredFrom_send h' with ⟨hgood, -⟩ | ⟨-, rfl⟩
      · exact absurd htyp (UInt8.not_lt.2 hgood)
      · rfl

end PlatformMessaging

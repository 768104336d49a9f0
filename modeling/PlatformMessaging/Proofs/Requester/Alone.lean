import PlatformMessaging.Proofs.Requester.Conversations

/-!
# A conversation alone on a lossless network

`Requester.EndsAlone` is what a conversation ends with when nothing else happens: it is polled, all
that was sent is answered, and so on. With a requester at rest (`Requester.Idle`) each request gets an
instance ID, and its answer is there at the next poll (`Idle.ask`), so that every dialogue ends, with
a result that the answers of the terminus lead to, the first of them under the next instance ID of the
requester (`Idle.exists_endsAlone`).
-/

namespace PlatformMessaging

open Slots

variable {ι α : Type}

theorem Registry.Owned.free {σ κ : Type} {r : Registry σ κ} (h : r.Owned)
    (hslots : entries r.slots = []) (eid : EndpointId) (iid : InstanceId) :
    r.ids.isTaken eid iid = false := by
  rw [Bool.eq_false_iff]
  intro htaken
  have hholder := (h.isTaken eid iid).1 htaken
  unfold Registry.holders at hholder
  rw [hslots] at hholder
  cases hholder

namespace Requester

/-- A terminus answers a message, and the answer arrives. -/
def answer (f : Terminus) (q : Requester Outbox ι) (m : EndpointId × Bytes) : Requester Outbox ι :=
  match f.reply? m.1 m.2 with
  | none => q
  | some reply => (q.perform (.act (.inbound m.1 reply))).requester

/-- Every message that was sent is taken and answered, oldest first. -/
def exchange (f : Terminus) (q : Requester Outbox ι) : Requester Outbox ι :=
  q.registry.link.queue.foldl (answer f) (q.onLink fun o => o.drain.2)

/-- The conversation ends with a result when it is polled and what was sent is answered, in turns. -/
inductive EndsAlone (f : Terminus) : Requester Outbox ι → Conversation α → α → Prop where
  | ends {q q' : Requester Outbox ι} {c : Conversation α} {a : α}
      (hpoll : q.poll c = (.inr a, q')) : EndsAlone f q c a
  | goesOn {q q' : Requester Outbox ι} {c c' : Conversation α} {a : α}
      (hpoll : q.poll c = (.inl c', q')) (h : EndsAlone f (q'.exchange f) c' a) : EndsAlone f q c a

theorem EndsAlone.unique {f : Terminus} {q : Requester Outbox ι} {c : Conversation α} {a a' : α}
    (h : q.EndsAlone f c a) (h' : q.EndsAlone f c a') : a = a' := by
  induction h with
  | ends hpoll =>
    cases h' with
    | ends hpoll' =>
      rw [hpoll] at hpoll'
      exact Sum.inr.inj (Prod.mk.inj hpoll').1
    | goesOn hpoll' _ =>
      rw [hpoll] at hpoll'
      cases hpoll'
  | goesOn hpoll h ih =>
    cases h' with
    | ends hpoll' =>
      rw [hpoll] at hpoll'
      cases hpoll'
    | goesOn hpoll' h' =>
      rw [hpoll] at hpoll'
      cases hpoll'
      exact ih h'

theorem EndsAlone.of_poll {f : Terminus} {q q' : Requester Outbox ι} {c c' : Conversation α} {a : α}
    (h : q'.EndsAlone f c' a) (hpoll : q.poll c = q'.poll c') : q.EndsAlone f c a := by
  cases h with
  | ends hpoll' => exact .ends (hpoll.trans hpoll')
  | goesOn hpoll' h => exact .goesOn (hpoll.trans hpoll') h

/-- Nothing is outstanding, no instance ID is taken, and the link is empty and accepts messages. -/
structure Idle (policy : Policy) (q : Requester Outbox ι) : Prop where
  policy : q.registry.policy = policy
  slots : entries q.registry.slots = []
  sound : q.registry.ids.Sound
  free : ∀ eid iid, q.registry.ids.isTaken eid iid = false
  queue : q.registry.link.queue = []
  refusal : q.registry.link.refusal = none
  awaited : ∀ p ∈ q.awaited, p.1 < q.nextTicket

theorem idle_create {policy : Policy} {q : Requester Outbox ι} {warnings : List Warning}
    (h : Requester.create {} policy = .ok (q, warnings)) : q.Idle policy := by
  rw [create_eq h]
  refine ⟨rfl, rfl, InstanceIds.sound_nil, fun _ _ => ?_, rfl, rfl, by simp⟩
  simp [InstanceIds.isTaken, InstanceIds.row?]

theorem Idle.owned {policy : Policy} {q : Requester Outbox ι} (h : q.Idle policy) :
    q.registry.Owned := by
  refine ⟨h.sound, ?_, ?_⟩
  · unfold Registry.holders
    rw [h.slots]
    exact List.nodup_nil
  · intro eid iid
    unfold Registry.holders
    rw [h.slots, h.free]
    simp

theorem Idle.plain {policy : Policy} {q : Requester Outbox ι} (h : q.Idle policy) :
    q.registry.Plain := by
  refine ⟨ended_of_entries_eq_nil h.slots 0, ?_⟩
  rw [h.slots]
  simp

theorem Idle.begin_unsendable {policy : Policy} {q : Requester Outbox ι} (h : q.Idle policy)
    (eid : EndpointId) {request : Request} (htyp : Message.maxType < request.typ) :
    ∃ q', q.begin eid request = (.error (.messaging .invalidArgument), q') ∧ q'.Idle policy := by
  have hcases := h.owned.lent_cases ⟨eid, .lent, request, .ticket q.nextTicket⟩ rfl .done
  unfold begin
  dsimp only
  generalize q.registry.register ⟨eid, .lent, request, .ticket q.nextTicket⟩ .done = g at *
  have hbad : ∀ iid msg, request.encode iid ≠ .ok msg := by
    intro iid msg hencode
    exact absurd htyp (UInt8.not_lt.2 (Request.encode_eq_ok.1 hencode).2.1)
  cases hcases with
  | exhausted hallocate =>
    obtain ⟨iid, ids, hok⟩ := h.sound.exists_allocate h.free eid
    rw [hok] at hallocate
    cases hallocate
  | @unencodable ids iid e hallocate hencode =>
    obtain ⟨rfl, -⟩ := Request.encode_eq_error hencode
    have hands := h.sound.hands_allocate hallocate
    refine ⟨_, rfl, h.policy, h.slots, hands.sound.release, ?_, h.queue, h.refusal, h.awaited⟩
    intro eid' iid'
    rw [Bool.eq_false_iff]
    intro htaken
    rw [hands.isTaken_release, h.free] at htaken
    cases htaken
  | refused msg e link hallocate hnew hencode hlink => exact absurd hencode (hbad _ _)
  | accepted msg link hallocate hnew hencode hlink => exact absurd hencode (hbad _ _)

/-- One request is outstanding, and its message is all that was sent. -/
structure Awaits (policy : Policy) (q : Requester Outbox ι) (t : Ticket)
    (e : Entry Outbox (Purpose ι)) (request : Request) : Prop where
  policy : q.registry.policy = policy
  plain : q.registry.Plain
  owned : q.registry.Owned
  entries : entries q.registry.slots = [e]
  live : e.isLive = true
  label : e.label = .ticket t
  sends : e.Sends request
  queue : q.registry.link.queue = [(e.key.eid, e.transaction.request)]
  refusal : q.registry.link.refusal = none
  awaited : ∀ p ∈ q.awaited, p.1 < q.nextTicket
  ticket : ∃ p ∈ q.awaited, p.1 = t

theorem Awaits.exchange_eq {policy : Policy} {q : Requester Outbox ι} {t : Ticket}
    {e : Entry Outbox (Purpose ι)} {request : Request} (h : q.Awaits policy t e request)
    (f : Terminus) :
    ∃ ref r', (q.onLink fun o => o.drain.2).registry.remove? ref = some (e, r') ∧
      Slots.entries r'.slots = [] ∧ q.exchange f = ⟨r',
        q.awaited.deliver t (.ok (f.response e.key.eid e.key.iid request)), q.nextTicket⟩ := by
  obtain ⟨hiid, htyp, -⟩ := Request.encode_eq_ok.1 h.sends.encode
  have hdelivers := Action.Delivers.inbound (σ := Outbox) e.key.eid
    (f.response e.key.eid e.key.iid request).encode _ _ (Response.decode_encode hiid htyp) rfl
  have hplain : (q.onLink fun o => o.drain.2).registry.Plain := ⟨h.plain.ended, h.plain.programs⟩
  have hkey : e.key = ⟨e.key.eid, e.key.iid, request.typ, request.cmd⟩ := by
    rw [← h.sends.typ, ← h.sends.cmd]
  have hentries : Slots.entries (q.onLink fun o => o.drain.2).registry.slots = [e] := h.entries
  have hmem : e ∈ Slots.entries (q.onLink fun o => o.drain.2).registry.slots := by
    rw [hentries]
    exact List.mem_singleton_self e
  obtain ⟨ref, e', outstanding, clock, outcome, -, -, hremove, hevents⟩ :=
    hplain.perform_delivers hdelivers hmem h.live hkey
  have hperm := perm_entries_remove? (Registry.slots_of_remove? hremove).1
  rw [hentries] at hperm
  obtain ⟨rfl, hnone⟩ := List.cons.inj (List.perm_singleton.1 hperm.symm)
  refine ⟨ref, _, hremove, hnone, ?_⟩
  unfold exchange
  rw [h.queue, List.foldl_cons, List.foldl_nil]
  unfold answer
  rw [f.reply?_of_encode h.sends.encode e'.key.eid]
  unfold perform
  dsimp only
  rw [hevents, h.label]
  rfl

theorem Awaits.answered {policy : Policy} {q : Requester Outbox ι} {t : Ticket}
    {e : Entry Outbox (Purpose ι)} {request : Request} (h : q.Awaits policy t e request)
    (f : Terminus) :
    (q.exchange f).awaited.result? t = some (.ok (f.response e.key.eid e.key.iid request)) ∧
      ((q.exchange f).forget t).Idle policy := by
  obtain ⟨ref, r', hremove, hnone, hexchange⟩ := h.exchange_eq f
  have howned : (q.onLink fun o => o.drain.2).registry.Owned :=
    h.owned.congr h.owned.sound rfl fun _ _ => Iff.rfl
  have howned' : r'.Owned := howned.remove? hremove
  have hlink := Registry.link_of_remove? hremove
  have hpolicy := Registry.policy_of_remove? hremove
  rw [hexchange]
  constructor
  · exact Awaited.result?_deliver_self h.ticket
  · refine ⟨hpolicy.trans h.policy, hnone, howned'.sound, howned'.free hnone, ?_, ?_, ?_⟩
    · show r'.link.queue = []
      rw [hlink]
      rfl
    · show r'.link.refusal = none
      rw [hlink]
      exact h.refusal
    · intro p hp
      exact Awaited.tickets_deliver (P := fun t => t < q.nextTicket) h.awaited p
        (List.mem_of_mem_filter hp)

theorem Opens.awaits {policy : Policy} {q : Requester Outbox ι} {request : Request}
    {e : Entry Outbox (Purpose ι)} {r : Registry Outbox (Purpose ι)} (h : q.Opens request e r)
    (hq : q.Idle policy) (hpolicy : r.policy = q.registry.policy)
    (hqueue : r.link.queue = q.registry.link.queue ++ [(e.key.eid, e.transaction.request)])
    (hrefusal : r.link.refusal = none) :
    Awaits policy ⟨r, q.awaited.add q.nextTicket, q.nextTicket + 1⟩ q.nextTicket e request := by
  have hentries : Slots.entries r.slots = [e] := by
    have hperm := perm_entries_insert e q.registry.slots
    rw [hq.slots, ← h.slots] at hperm
    exact List.perm_singleton.1 hperm
  refine ⟨hpolicy.trans hq.policy, h.plain hq.plain, h.owned, hentries, h.live, h.label, h.sends,
    ?_, hrefusal, Awaited.tickets_add hq.awaited, ?_⟩
  · show r.link.queue = _
    rw [hqueue, hq.queue]
    rfl
  · exact ⟨_, List.mem_append_right _ (List.mem_singleton_self _), rfl⟩

theorem Idle.ask {policy : Policy} {q : Requester Outbox ι} (h : q.Idle policy) (f : Terminus)
    (eid : EndpointId) {request : Request} (htyp : request.typ ≤ Message.maxType) :
    ∃ iid ids q', q.registry.ids.allocate eid = (.ok iid, ids) ∧
      q.begin eid request = (.ok q.nextTicket, q') ∧
      (q'.exchange f).awaited.result? q.nextTicket = some (.ok (f.response eid iid request)) ∧
      ((q'.exchange f).forget q.nextTicket).Idle policy := by
  have hcases := h.owned.lent_cases ⟨eid, .lent, request, .ticket q.nextTicket⟩ rfl .done
  have howned := h.owned.lent hcases
  unfold begin
  dsimp only
  generalize q.registry.register ⟨eid, .lent, request, .ticket q.nextTicket⟩ .done = g at *
  cases hcases with
  | exhausted hallocate =>
    obtain ⟨iid, ids, hok⟩ := h.sound.exists_allocate h.free eid
    rw [hok] at hallocate
    cases hallocate
  | @unencodable ids iid e hallocate hencode =>
    obtain ⟨i, rfl⟩ := (h.sound.hands_allocate hallocate).index
    obtain ⟨-, hbad | hbad⟩ := Request.encode_eq_error hencode
    · exact absurd hbad (UInt8.not_lt.2 (Message.le_maxInstanceId i))
    · exact absurd hbad (UInt8.not_lt.2 htyp)
  | refused msg e link hallocate hnew hencode hlink =>
    rw [Outbox.link_send, Outbox.send, h.refusal] at hlink
    cases hlink
  | @accepted ids iid msg link hallocate hnew hencode hlink =>
    rw [Outbox.link_send, Outbox.send, h.refusal] at hlink
    obtain ⟨-, rfl⟩ := Prod.mk.inj hlink
    have hopens : q.Opens request (.opened (.ticket q.nextTicket)
        ⟨eid, iid, request.typ, request.cmd⟩ msg q.registry.policy q.registry.clock .done) _ :=
      ⟨howned, rfl, rfl, rfl, rfl, ⟨rfl, rfl, hencode⟩, hnew⟩
    have hawaits := hopens.awaits h rfl rfl rfl
    exact ⟨iid, ids, _, hallocate, rfl, hawaits.answered f⟩

/-! ## The end of a dialogue -/

theorem Idle.endsAlone_ask {policy : Policy} {q : Requester Outbox ι} (h : q.Idle policy)
    (f : Terminus) (eid : EndpointId) {request : Request} (htyp : request.typ ≤ Message.maxType) :
    ∃ iid ids, ∃ q' : Requester Outbox ι, q.registry.ids.allocate eid = (.ok iid, ids) ∧
      q'.Idle policy ∧ ∀ (next : Except RequestError Response → Dialogue α) (a : α),
        q'.EndsAlone f (.ready (next (.ok (f.response eid iid request)))) a →
        q.EndsAlone f (.ready (.ask eid request next)) a := by
  obtain ⟨iid, ids, q', hallocate, hbegin, hresult, hidle⟩ := h.ask f eid htyp
  refine ⟨iid, ids, (q'.exchange f).forget q.nextTicket, hallocate, hidle, fun next a halone => ?_⟩
  have hpoll : q.poll (.ready (.ask eid request next)) =
      (.inl (.waiting q.nextTicket request next), q') := by
    show advance _ q = _
    unfold advance
    rw [hbegin]
  refine .goesOn hpoll (halone.of_poll ?_)
  rw [poll_of_some hresult, checkAnswer_response]
  rfl

theorem Idle.endsAlone_unsendable {policy : Policy} {q : Requester Outbox ι} (h : q.Idle policy)
    (f : Terminus) (eid : EndpointId) {request : Request} (htyp : Message.maxType < request.typ) :
    ∃ q' : Requester Outbox ι, q'.Idle policy ∧
      ∀ (next : Except RequestError Response → Dialogue α) (a : α),
        q'.EndsAlone f (.ready (next (.error (.messaging .invalidArgument)))) a →
        q.EndsAlone f (.ready (.ask eid request next)) a := by
  obtain ⟨q', hbegin, hidle⟩ := h.begin_unsendable eid htyp
  refine ⟨q', hidle, fun next a halone => halone.of_poll ?_⟩
  show advance _ q = advance _ q'
  conv =>
    left
    unfold advance
  rw [hbegin]

/-- Every dialogue ends, with a result that the answers of the terminus lead to. -/
theorem Idle.exists_endsAlone {policy : Policy} {q : Requester Outbox ι} (h : q.Idle policy)
    (f : Terminus) (d : Dialogue α) :
    ∃ a, q.EndsAlone f (.ready d) a ∧ d.AnsweredFrom f q.Offers a := by
  induction d generalizing q with
  | done a => exact ⟨a, .ends rfl, .done a⟩
  | ask eid request next ih =>
    by_cases htyp : request.typ ≤ Message.maxType
    · obtain ⟨iid, ids, q', hallocate, hidle, hgoesOn⟩ := h.endsAlone_ask f eid htyp
      obtain ⟨a, halone, hanswered⟩ := ih (.ok (f.response eid iid request)) hidle
      obtain ⟨i, rfl⟩ := (h.sound.hands_allocate hallocate).index
      have hoffers : q.Offers eid (UInt8.ofNat i) := congrArg Prod.fst hallocate
      exact ⟨a, hgoesOn next a halone, .ask i hoffers htyp hanswered.answered⟩
    · have hbad : Message.maxType < request.typ := UInt8.not_le.1 htyp
      obtain ⟨q', hidle, hgoesOn⟩ := h.endsAlone_unsendable f eid hbad
      obtain ⟨a, halone, hanswered⟩ := ih _ hidle
      exact ⟨a, hgoesOn next a halone, .unsendable hbad hanswered.answered⟩

end Requester

end PlatformMessaging

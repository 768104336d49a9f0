import PlatformMessaging.Proofs.Registry.Product
import PlatformMessaging.Proofs.Requester.Tickets

/-!
# Every ticket is accounted for

A ticket is given out with a request and is that of a request until it ends, once. So the tickets of
the requests in the registry and of those that ended are at any time all tickets so far, each once
(`Requester.Accounts`): nothing is lost, and nothing is told twice. Sending a request adds the next
ticket (`Opens.accounts`), and an action moves tickets from the first to the second kind
(`Accounts.perform`).

`Requester.Minds` is what a conversation relies on while it waits under a ticket: its result is that
of the request's end, and fits the request. Unlike on an unreliable network, any message may come in
here at any time.
-/

namespace PlatformMessaging

open Slots

variable {σ ι α : Type}

theorem lookup_eq_none {β : Type} {l : List (Nat × β)} {n : Nat} :
    l.lookup n = none ↔ n ∉ l.map Prod.fst := by
  rw [List.lookup_eq_none_iff, List.mem_map]
  constructor
  · rintro h ⟨p, hp, rfl⟩
    simpa using h p hp
  · intro h p hp
    simpa using fun heq : n = p.1 => h ⟨p, hp, heq.symm⟩

theorem mem_of_lookup {β : Type} {l : List (Nat × β)} {n : Nat} {x : β} (h : l.lookup n = some x) :
    (n, x) ∈ l := by
  obtain ⟨before, after, rfl, -⟩ := List.lookup_eq_some_iff.1 h
  exact List.mem_append_right _ List.mem_cons_self

/-! ## Ends of requests -/

/-- The ticket whose request an event ends, with the result. -/
def Event.ticketEnd? : Event (Purpose ι) → Option (Ticket × Except RequestError Response)
  | .completed (.ticket t) _ result _ _ => some (t, result)
  | _ => none

/-- The tickets whose requests end in events, with the results. -/
def ticketEnds (events : List (Event (Purpose ι))) : List (Ticket × Except RequestError Response) :=
  events.filterMap Event.ticketEnd?

theorem mem_ticketEnds {events : List (Event (Purpose ι))} {t : Ticket}
    {result : Except RequestError Response} (h : (t, result) ∈ ticketEnds events) :
    ∃ key outstanding clock, .completed (.ticket t) key result outstanding clock ∈ events := by
  obtain ⟨event, hevent, heq⟩ := List.mem_filterMap.1 h
  unfold Event.ticketEnd? at heq
  split at heq
  · obtain ⟨rfl, rfl⟩ := Prod.mk.inj (Option.some.inj heq)
    exact ⟨_, _, _, hevent⟩
  · cases heq

/-- One request was taken for another: its key was outstanding already, or the response that came is
of another kind. -/
def RequestError.IsMixup : RequestError → Prop
  | .duplicateKey _ => True
  | .violation (.mismatch _ _ _ _) => True
  | _ => False

/-- The result does not tell of a mix-up. -/
def Genuine (result : Except RequestError Response) : Prop :=
  ∀ e, result = .error e → ¬e.IsMixup

theorem genuine_ok (r : Response) : Genuine (.ok r) := by
  intro e h
  cases h

theorem genuine_error {e : RequestError} (h : ¬e.IsMixup) : Genuine (.error e) := by
  intro e' h'
  obtain rfl := Except.error.inj h'
  exact h

theorem Key.read_cases (key : Key) (rest : Bytes) :
    (∃ e, key.read rest = .error (.violation (.unreadable e))) ∨
      ∃ r, key.read rest = .ok r ∧ r.typ = key.typ ∧ r.cmd = key.cmd := by
  unfold read Response.ofParts
  cases rest with
  | nil => exact .inl ⟨_, rfl⟩
  | cons code data => exact .inr ⟨_, rfl, rfl, rfl⟩

theorem Action.Answers.fits {action : Action σ} {e : Entry σ ι} {result : Except RequestError Response}
    (h : action.Answers e.key result) :
    Genuine result ∧ ∀ request, e.Sends request → Requester.checkAnswer request result = result := by
  generalize hkey : e.key = key at h
  cases h with
  | cancel => exact ⟨genuine_error id, fun _ _ => rfl⟩
  | delivers hdelivers =>
    rename_i rest
    rcases key.read_cases rest with ⟨e', hread⟩ | ⟨r, hread, htyp, hcmd⟩
    · rw [hread]
      exact ⟨genuine_error id, fun _ _ => rfl⟩
    · rw [hread]
      refine ⟨genuine_ok r, fun request hsends => ?_⟩
      unfold Requester.checkAnswer
      dsimp only
      rw [if_neg]
      rw [htyp, hcmd, ← hkey, hsends.typ, hsends.cmd]
      simp

/-- The label of a request whose end is seen. -/
def Sighting.ended? : Sighting ι → Option ι
  | .ended label _ _ => some label
  | .sent _ _ _ => none

theorem Registry.Tidy.perm_labels [Link σ] {r : Registry σ ι} (hr : r.Tidy) (action : Action σ) :
    ((entries (r.perform (.act action)).registry.slots).map Entry.label ++
        (sightings (r.perform (.act action)).events).filterMap Sighting.ended?).Perm
      ((entries r.slots).map Entry.label) := by
  obtain ⟨-, -, -, hleft, hseen⟩ := hr.perform_act r.link action
  refine ((hleft.map _).append (hseen.filterMap _)).trans ?_
  rw [List.map_flatMap, List.filterMap_flatMap]
  refine (List.flatMap_append_perm _ _ _).trans (.of_eq ?_)
  rw [← List.flatMap_singleton' ((entries r.slots).map Entry.label), List.flatMap_map]
  refine List.flatMap_congr fun e he => ?_
  have hfares := Entry.fare_cases (hr.isLive he) r.link r.clock r.policy.responseTimeout action
  generalize e.fare r.link r.clock r.policy.responseTimeout action = p at hfares
  cases hfares with
  | stays e' hcore => simp [(Entry.core_eq hcore).1]
  | sends e' hcore => simp [(Entry.core_eq hcore).1, Sighting.ended?]
  | ends result => simp [Sighting.ended?]

/-! ## Results under tickets -/

namespace Awaited

variable {a : Awaited} {t t' : Ticket} {result : Except RequestError Response}
  {events : List (Event (Purpose ι))}

theorem collect_eq_foldl (a : Awaited) (events : List (Event (Purpose ι))) :
    a.collect events = (ticketEnds events).foldl (fun a p => a.deliver p.1 p.2) a := by
  induction events generalizing a with
  | nil => rfl
  | cons event events ih =>
    unfold collect
    split
    · rename_i heq
      cases heq
    · rename_i heq
      obtain ⟨rfl, rfl⟩ := List.cons.inj heq
      exact ih _
    · rename_i hother heq
      obtain ⟨rfl, rfl⟩ := List.cons.inj heq
      have hnone : event.ticketEnd? = none := by
        unfold Event.ticketEnd?
        split
        · exact (hother _ _ _ _ _ rfl).elim
        · rfl
      rw [ih, ticketEnds, ticketEnds, List.filterMap_cons_none hnone]

theorem map_fst_deliver (a : Awaited) (t : Ticket) (result : Except RequestError Response) :
    (a.deliver t result).map Prod.fst = a.map Prod.fst := by
  unfold deliver
  rw [List.map_map]
  refine List.map_congr_left fun p _ => ?_
  rw [Function.comp_apply]
  split_ifs with h
  · exact h.symm
  · rfl

theorem map_fst_collect (a : Awaited) (events : List (Event (Purpose ι))) :
    (a.collect events).map Prod.fst = a.map Prod.fst := by
  rw [collect_eq_foldl]
  induction ticketEnds events generalizing a with
  | nil => rfl
  | cons p ends ih => exact (ih _).trans (map_fst_deliver a p.1 p.2)

theorem result?_deliver_of_ne (h : t' ≠ t) : (a.deliver t' result).result? t = a.result? t := by
  unfold deliver
  induction a with
  | nil => rfl
  | cons p a ih =>
    rw [List.map_cons, result?_cons, result?_cons, ih]
    by_cases hp : p.1 = t'
    · rw [if_pos hp, if_neg h, if_neg (hp ▸ h)]
    · rw [if_neg hp]

theorem result?_collect_eq (hmem : t ∈ a.map Prod.fst)
    (hnodup : ((ticketEnds events).map Prod.fst).Nodup) :
    (a.collect events).result? t = ((ticketEnds events).lookup t).or (a.result? t) := by
  rw [collect_eq_foldl]
  generalize ticketEnds events = ends at hnodup ⊢
  induction ends generalizing a with
  | nil => rfl
  | cons p ends ih =>
    obtain ⟨hnot, hnodup⟩ := List.nodup_cons.1 hnodup
    rw [List.foldl_cons, ih (by rwa [map_fst_deliver]) hnodup, List.lookup_cons]
    by_cases hp : p.1 = t
    · obtain ⟨p', hp', heq⟩ := List.mem_map.1 hmem
      rw [lookup_eq_none.2 (hp ▸ hnot), Option.none_or, hp, result?_deliver_self ⟨p', hp', heq⟩,
        beq_self_eq_true]
      rfl
    · rw [result?_deliver_of_ne hp, beq_eq_false_iff_ne.2 (Ne.symm hp)]

theorem result?_forget_of_ne (h : t ≠ t') : (a.forget t').result? t = a.result? t := by
  unfold forget
  induction a with
  | nil => rfl
  | cons p a ih =>
    rw [List.filter_cons]
    by_cases hp : p.1 = t'
    · rw [if_neg (by simpa using hp), ih, result?_cons, if_neg fun heq => h (heq.symm.trans hp)]
    · rw [if_pos (by simpa using hp), result?_cons, result?_cons, ih]

theorem mem_map_fst_forget (h : t ≠ t') (hmem : t ∈ a.map Prod.fst) :
    t ∈ (a.forget t').map Prod.fst := by
  obtain ⟨p, hp, rfl⟩ := List.mem_map.1 hmem
  exact List.mem_map_of_mem (List.mem_filter.2 ⟨hp, by simpa using h⟩)

end Awaited

/-! ## The account of tickets -/

namespace Requester

variable {q q' : Requester σ ι} {ends : List (Ticket × Except RequestError Response)} {t : Ticket}
  {request : Request}

/-- Nothing has become of a request, and none was sent. -/
structure SameRequests (q q' : Requester σ ι) : Prop where
  owned : q'.registry.Owned
  slots : q'.registry.slots = q.registry.slots
  awaited : q'.awaited = q.awaited
  nextTicket : q'.nextTicket = q.nextTicket

theorem SameRequests.trans {q'' : Requester σ ι} (h : SameRequests q q') (h' : SameRequests q' q'') :
    SameRequests q q'' :=
  ⟨h'.owned, h'.slots.trans h.slots, h'.awaited.trans h.awaited, h'.nextTicket.trans h.nextTicket⟩

theorem sameRequests_onLink (h : q.registry.Owned) (change : σ → σ) :
    SameRequests q (q.onLink change) :=
  ⟨h.congr h.sound rfl fun _ _ => Iff.rfl, rfl, rfl, rfl⟩

/-- The tickets given out are those of the requests in the registry and of those that ended, and each
is that of one of them only. -/
structure Accounts (q : Requester σ ι) (ends : List (Ticket × Except RequestError Response)) :
    Prop where
  plain : q.registry.Plain
  owned : q.registry.Owned
  tickets : ((entries q.registry.slots).map Entry.label ++
    (ends.map Prod.fst).map Purpose.ticket).Perm ((List.range q.nextTicket).map Purpose.ticket)
  awaited : ∀ t ∈ q.awaited.map Prod.fst, t < q.nextTicket
  genuine : ∀ p ∈ ends, Genuine p.2

/-- A ticket is that of a request whose result is not there before it has ended, and fits then. -/
structure Minds (q : Requester σ ι) (ends : List (Ticket × Except RequestError Response)) (t : Ticket)
    (request : Request) : Prop where
  awaited : t ∈ q.awaited.map Prod.fst
  result : q.awaited.result? t = ends.lookup t
  sends : ∀ e ∈ entries q.registry.slots, e.label = .ticket t → e.Sends request
  fits : ∀ result, (t, result) ∈ ends → checkAnswer request result = result

namespace Accounts

theorem exists_ticket (h : q.Accounts ends) {e : Entry σ (Purpose ι)}
    (he : e ∈ entries q.registry.slots) : ∃ t, e.label = .ticket t ∧ t < q.nextTicket := by
  have hmem := h.tickets.mem_iff.1 (List.mem_append_left _ (List.mem_map_of_mem he))
  obtain ⟨t, ht, heq⟩ := List.mem_map.1 hmem
  exact ⟨t, heq.symm, List.mem_range.1 ht⟩

theorem lt_of_mem (h : q.Accounts ends) (hmem : t ∈ ends.map Prod.fst) : t < q.nextTicket := by
  have hticket := h.tickets.mem_iff.1 (List.mem_append_right _ (List.mem_map_of_mem hmem))
  obtain ⟨t', ht, heq⟩ := List.mem_map.1 hticket
  obtain rfl := Purpose.ticket.inj heq
  exact List.mem_range.1 ht

theorem nodup (h : q.Accounts ends) : ((entries q.registry.slots).map Entry.label ++
    (ends.map Prod.fst).map Purpose.ticket).Nodup :=
  h.tickets.nodup_iff.2 (List.Nodup.map (fun _ _ => Purpose.ticket.inj) List.nodup_range)

theorem nodup_ends (h : q.Accounts ends) : (ends.map Prod.fst).Nodup :=
  List.Nodup.of_map _ h.nodup.of_append_right

theorem exists_entry_iff (h : q.Accounts ends) (ht : t < q.nextTicket) :
    (∃ e ∈ entries q.registry.slots, e.label = .ticket t) ↔ t ∉ ends.map Prod.fst := by
  constructor
  · rintro ⟨e, he, hlabel⟩ hmem
    exact (List.nodup_append.1 h.nodup).2.2 _ (List.mem_map_of_mem he) _
      (List.mem_map_of_mem hmem) hlabel
  · intro hnot
    have hmem := h.tickets.mem_iff.2 (List.mem_map_of_mem (List.mem_range.2 ht))
    rcases List.mem_append.1 hmem with hentry | hend
    · obtain ⟨e, he, hlabel⟩ := List.mem_map.1 hentry
      exact ⟨e, he, hlabel⟩
    · obtain ⟨t', ht', heq⟩ := List.mem_map.1 hend
      exact absurd (Purpose.ticket.inj heq ▸ ht') hnot

theorem tidy (h : q.Accounts ends) : q.registry.Tidy := by
  refine ⟨h.plain, List.Nodup.of_map (fun key => (key.eid, key.iid)) ?_⟩
  rw [List.map_map]
  exact h.owned.nodup

theorem congr (h : q.Accounts ends) (hsame : SameRequests q q') : q'.Accounts ends := by
  obtain ⟨howned, hslots, hawaited, hnext⟩ := hsame
  refine ⟨⟨?_, ?_⟩, howned, ?_, ?_, h.genuine⟩
  · rw [hslots]
    exact h.plain.ended
  · rw [hslots]
    exact h.plain.programs
  · rw [hslots, hnext]
    exact h.tickets
  · rw [hawaited, hnext]
    exact h.awaited

theorem forget (h : q.Accounts ends) (t : Ticket) : (q.forget t).Accounts ends := by
  refine ⟨h.plain, h.owned, h.tickets, fun t' ht' => ?_, h.genuine⟩
  obtain ⟨p, hp, rfl⟩ := List.mem_map.1 ht'
  exact h.awaited _ (List.mem_map_of_mem (List.mem_of_mem_filter hp))

end Accounts

theorem Minds.congr (h : q.Minds ends t request) (hsame : SameRequests q q') :
    q'.Minds ends t request := by
  obtain ⟨-, hslots, hawaited, -⟩ := hsame
  refine ⟨?_, ?_, ?_, h.fits⟩
  · rw [hawaited]
    exact h.awaited
  · rw [hawaited]
    exact h.result
  · rw [hslots]
    exact h.sends

theorem Minds.forget (h : q.Minds ends t request) {t' : Ticket} (hne : t ≠ t') :
    (q.forget t').Minds ends t request :=
  ⟨Awaited.mem_map_fst_forget hne h.awaited, (Awaited.result?_forget_of_ne hne).trans h.result,
    h.sends, h.fits⟩

/-! ## Sending requests -/

/-- How the sending of a request for a conversation ends. -/
inductive Begun (q : Requester σ ι) (request : Request) :
    Except RequestError Ticket × Requester σ ι → Prop where
  | failed (e : RequestError) (q' : Requester σ ι) (hsame : SameRequests q q') (hgenuine : ¬e.IsMixup) :
      Begun q request (.error e, q')
  | opened (e : Entry σ (Purpose ι)) (r : Registry σ (Purpose ι)) (hopens : q.Opens request e r) :
      Begun q request (.ok q.nextTicket, ⟨r, q.awaited.add q.nextTicket, q.nextTicket + 1⟩)

theorem begin_cases [Link σ] (h : q.registry.Owned) (eid : EndpointId) (request : Request) :
    q.Begun request (q.begin eid request) := by
  have hcases := h.lent_cases ⟨eid, .lent, request, .ticket q.nextTicket⟩ rfl .done
  have howned := h.lent hcases
  unfold begin
  dsimp only
  generalize q.registry.register ⟨eid, .lent, request, .ticket q.nextTicket⟩ .done = g at *
  cases hcases with
  | exhausted hallocate => exact .failed _ _ ⟨howned, rfl, rfl, rfl⟩ id
  | unencodable e hallocate hencode => exact .failed _ _ ⟨howned, rfl, rfl, rfl⟩ id
  | refused msg e link hallocate hnew hencode hlink =>
    exact .failed _ _ ⟨howned, rfl, rfl, rfl⟩ id
  | @accepted ids iid msg link hallocate hnew hencode hlink =>
    exact .opened (.opened (.ticket q.nextTicket) ⟨eid, iid, request.typ, request.cmd⟩ msg
      q.registry.policy q.registry.clock .done) _
      ⟨howned, rfl, rfl, rfl, rfl, ⟨rfl, rfl, hencode⟩, hnew⟩

section opens

variable {e : Entry σ (Purpose ι)} {r : Registry σ (Purpose ι)}

theorem Opens.congr (h : q'.Opens request e r) (hsame : SameRequests q q') : q.Opens request e r := by
  obtain ⟨-, hslots, -, hnext⟩ := hsame
  refine ⟨h.owned, ?_, h.live, h.program, ?_, h.sends, ?_⟩
  · rw [← hslots]
    exact h.slots
  · rw [← hnext]
    exact h.label
  · have hnew := h.new
    unfold Registry.holders at hnew ⊢
    rw [← hslots]
    exact hnew

theorem Opens.accounts (h : q.Opens request e r) (hq : q.Accounts ends) :
    Accounts ⟨r, q.awaited.add q.nextTicket, q.nextTicket + 1⟩ ends := by
  refine ⟨h.plain hq.plain, h.owned, ?_, ?_, hq.genuine⟩
  · have hperm := (perm_entries_insert e q.registry.slots).map Entry.label
    rw [← h.slots] at hperm
    refine (hperm.append_right _).trans ?_
    rw [List.map_cons, List.cons_append, h.label, List.range_succ, List.map_append]
    exact (hq.tickets.cons _).trans (List.perm_append_singleton _ _).symm
  · intro t ht
    unfold Awaited.add at ht
    rw [List.map_append] at ht
    rcases List.mem_append.1 ht with hold | hnew
    · exact Nat.lt_succ_of_lt (hq.awaited t hold)
    · rw [List.mem_singleton.1 hnew]
      exact Nat.lt_succ_self _

theorem Opens.minds (h : q.Opens request e r) (hq : q.Accounts ends) :
    Minds ⟨r, q.awaited.add q.nextTicket, q.nextTicket + 1⟩ ends q.nextTicket request := by
  have hnot : q.nextTicket ∉ ends.map Prod.fst :=
    fun hmem => Nat.lt_irrefl _ (hq.lt_of_mem hmem)
  refine ⟨?_, ?_, ?_, ?_⟩
  · exact List.mem_map_of_mem (List.mem_append_right _ (List.mem_singleton_self _))
  · rw [lookup_eq_none.2 hnot]
    exact Awaited.result?_add_self fun p hp => Nat.ne_of_lt (hq.awaited _ (List.mem_map_of_mem hp))
  · intro e' he' hlabel
    rcases h.mem he' with rfl | hold
    · exact h.sends
    · obtain ⟨t, hlabel', ht⟩ := hq.exists_ticket hold
      obtain rfl := Purpose.ticket.inj (hlabel'.symm.trans hlabel)
      exact absurd ht (Nat.lt_irrefl _)
  · intro result hmem
    exact absurd (List.mem_map_of_mem hmem) hnot

theorem Minds.opens (hminds : q.Minds ends t request) (hq : q.Accounts ends) {request' : Request}
    (h : q.Opens request' e r) :
    Minds ⟨r, q.awaited.add q.nextTicket, q.nextTicket + 1⟩ ends t request := by
  have hlt : t < q.nextTicket := hq.awaited t hminds.awaited
  refine ⟨?_, ?_, ?_, hminds.fits⟩
  · obtain ⟨p, hp, rfl⟩ := List.mem_map.1 hminds.awaited
    exact List.mem_map_of_mem (List.mem_append_left _ hp)
  · exact (Awaited.result?_add (Nat.ne_of_lt hlt)).trans hminds.result
  · intro e' he' hlabel
    rcases h.mem he' with rfl | hold
    · obtain rfl := Purpose.ticket.inj (h.label.symm.trans hlabel)
      exact absurd hlt (Nat.lt_irrefl _)
    · exact hminds.sends e' hold hlabel

end opens

/-! ## Actions -/

section perform

variable [Link σ] {action : Action σ}

theorem Accounts.perm_ends (h : q.Accounts ends) (hkeeps : action.keepsIds = true) :
    ((entries (q.perform (.act action)).requester.registry.slots).map Entry.label ++
        ((ticketEnds (q.perform (.act action)).events).map Prod.fst).map Purpose.ticket).Perm
      ((entries q.registry.slots).map Entry.label) := by
  obtain ⟨-, -, -, -, hcompleted⟩ := h.plain.perform hkeeps
  have hlabels := h.tidy.perm_labels action
  have hends : (sightings (q.registry.perform (.act action)).events).filterMap Sighting.ended? =
      ((ticketEnds (q.registry.perform (.act action)).events).map Prod.fst).map Purpose.ticket := by
    unfold sightings ticketEnds
    rw [List.filterMap_filterMap, List.map_filterMap, List.map_filterMap]
    refine List.filterMap_congr fun event hevent => ?_
    cases event with
    | completed label key result outstanding clock =>
      obtain ⟨e, he, rfl, -⟩ := hcompleted _ _ _ _ _ hevent
      obtain ⟨t, hlabel, -⟩ := h.exists_ticket he
      rw [hlabel]
      rfl
    | _ => rfl
  rw [hends] at hlabels
  exact hlabels

theorem Accounts.perform (h : q.Accounts ends) (hkeeps : action.keepsIds = true) :
    (q.perform (.act action)).requester.Accounts
      (ends ++ ticketEnds (q.perform (.act action)).events) := by
  obtain ⟨hplain, howned, -, -, hcompleted⟩ := h.plain.perform hkeeps
  refine ⟨hplain, howned h.owned, ?_, ?_, ?_⟩
  · rw [List.map_append, List.map_append]
    refine List.Perm.trans ?_ h.tickets
    refine (List.perm_append_comm_assoc _ _ _).trans ?_
    exact ((h.perm_ends hkeeps).append_left _).trans List.perm_append_comm
  · show ∀ t ∈ (q.awaited.collect _).map Prod.fst, _
    rw [Awaited.map_fst_collect]
    exact h.awaited
  · intro p hp
    rcases List.mem_append.1 hp with hold | hnew
    · exact h.genuine p hold
    · obtain ⟨key, outstanding, clock, hevent⟩ := mem_ticketEnds hnew
      obtain ⟨e, -, -, rfl, hresult⟩ := hcompleted _ _ _ _ _ hevent
      rcases hresult with hlost | hanswers
      · rw [hlost]
        exact genuine_error id
      · exact hanswers.fits.1

theorem Minds.perform (hminds : q.Minds ends t request) (h : q.Accounts ends)
    (hkeeps : action.keepsIds = true) :
    (q.perform (.act action)).requester.Minds
      (ends ++ ticketEnds (q.perform (.act action)).events) t request := by
  obtain ⟨-, -, -, hentries, hcompleted⟩ := h.plain.perform hkeeps
  have hnodup := (h.perform hkeeps).nodup_ends
  rw [List.map_append] at hnodup
  refine ⟨?_, ?_, ?_, ?_⟩
  · show t ∈ (q.awaited.collect _).map Prod.fst
    rw [Awaited.map_fst_collect]
    exact hminds.awaited
  · show (q.awaited.collect (q.perform (.act action)).events).result? t = _
    rw [Awaited.result?_collect_eq hminds.awaited hnodup.of_append_right, hminds.result,
      List.lookup_append]
    -- The ticket has not ended both before and in the action.
    by_cases hmem : t ∈ (ticketEnds (q.perform (.act action)).events).map Prod.fst
    · have hnot : t ∉ ends.map Prod.fst :=
        fun hold => (List.nodup_append.1 hnodup).2.2 t hold t hmem rfl
      rw [lookup_eq_none.2 hnot, Option.none_or, Option.or_none]
    · rw [lookup_eq_none.2 hmem, Option.none_or, Option.or_none]
  · intro e he hlabel
    obtain ⟨e₀, he₀, hcore⟩ := hentries e he
    exact (hminds.sends e₀ he₀ ((Entry.core_eq hcore).1.symm.trans hlabel)).congr hcore
  · intro result hmem
    rcases List.mem_append.1 hmem with hold | hnew
    · exact hminds.fits result hold
    · obtain ⟨key, outstanding, clock, hevent⟩ := mem_ticketEnds hnew
      obtain ⟨e, he, hlabel, rfl, hresult⟩ := hcompleted _ _ _ _ _ hevent
      rcases hresult with rfl | hanswers
      · rfl
      · exact hanswers.fits.2 request (hminds.sends e he hlabel)

end perform

end Requester

end PlatformMessaging

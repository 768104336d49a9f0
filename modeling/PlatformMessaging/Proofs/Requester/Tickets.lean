import PlatformMessaging.Proofs.Requester.Network

/-!
# Tickets get answers to their own requests

The invariant of a requester on an unreliable network is `Requester.Orderly`: each request in the
registry is the message of its key, is labelled with a ticket that was given out, and every current
letter of its address is that message. The last part is what ties a response to its request: as no
two requests hold the same instance ID, and a first attempt makes older letters of its address
obsolete, a response to a current letter can only reach the request that the letter was sent for.

What a conversation relies on is `Requester.Serves`: what arrives under its ticket is the terminus's
response to its request, under the instance ID that it was sent with, or that there was none in time.
Everything that happens on the network keeps both (`begin_orderly`, `perform_orderly`).
-/

namespace PlatformMessaging

open Slots

variable {σ τ ι : Type}

/-- The message of an entry makes the request under its key. -/
structure Entry.Sends (e : Entry σ ι) (r : Request) : Prop where
  typ : e.key.typ = r.typ
  cmd : e.key.cmd = r.cmd
  encode : r.encode e.key.iid = .ok e.transaction.request

theorem Entry.Sends.congr {e e' : Entry σ ι} {r : Request} (h : e.Sends r)
    (hcore : e'.core = e.core) : e'.Sends r := by
  obtain ⟨-, hkey, -, hrequest⟩ := Entry.core_eq hcore
  refine ⟨?_, ?_, ?_⟩
  · rw [hkey]
    exact h.typ
  · rw [hkey]
    exact h.cmd
  · rw [hkey, hrequest]
    exact h.encode

/-- The request failed for want of an ID, of the link or of time, as it may on any network. -/
def RequestError.IsLost : RequestError → Prop
  | .timedOut => True
  | .poolExhausted => True
  | .link _ => True
  | _ => False

namespace Requester

/-- The requests of a requester are told apart by their tickets and by the letters on their way. -/
structure Orderly (q : Requester (Recorder τ) ι) : Prop where
  plain : q.registry.Plain
  owned : q.registry.Owned
  sends : ∀ e ∈ entries q.registry.slots, ∃ r, e.Sends r
  tickets : ∀ e ∈ entries q.registry.slots, ∃ t, e.label = .ticket t ∧ t < q.nextTicket
  letters : ∀ e ∈ entries q.registry.slots, ∀ l ∈ Letter.current q.registry.link.letters,
    l.address = e.holding → l.msg = e.transaction.request
  awaited : ∀ p ∈ q.awaited, p.1 < q.nextTicket

/-- The result is the terminus's response to a request, or that there was none in time. -/
def Fits (f : Terminus) (eid : EndpointId) (iid : InstanceId) (request : Request)
    (result : Except RequestError Response) : Prop :=
  result = .error .timedOut ∨ result = .ok (f.response eid iid request)

/-- What arrives under a ticket fits a request, and so does what is still under way for it. -/
structure Serves (f : Terminus) (q : Requester (Recorder τ) ι) (t : Ticket) (eid : EndpointId)
    (iid : InstanceId) (request : Request) : Prop where
  ticket : t < q.nextTicket
  result : ∀ result, q.awaited.result? t = some result → Fits f eid iid request result
  entry : ∀ e ∈ entries q.registry.slots, e.label = .ticket t →
    e.key.eid = eid ∧ e.key.iid = iid ∧ e.Sends request

/-- What a ticket stands for is kept. -/
def Keeps (f : Terminus) (q q' : Requester (Recorder τ) ι) : Prop :=
  ∀ t eid iid request, q.Serves f t eid iid request → q'.Serves f t eid iid request

theorem Keeps.refl (f : Terminus) (q : Requester (Recorder τ) ι) : Keeps f q q :=
  fun _ _ _ _ h => h

theorem Keeps.trans {f : Terminus} {q q' q'' : Requester (Recorder τ) ι} (h : Keeps f q q')
    (h' : Keeps f q' q'') : Keeps f q q'' :=
  fun t eid iid request hserves => h' t eid iid request (h t eid iid request hserves)

/-- The instance ID that the next request to an endpoint gets. -/
def Offers {σ : Type} (q : Requester σ ι) (eid : EndpointId) (iid : InstanceId) : Prop :=
  (q.registry.ids.allocate eid).1 = .ok iid

theorem create_orderly {link : Recorder τ} {policy : Policy} {q : Requester (Recorder τ) ι}
    {warnings : List Warning} (h : Requester.create link policy = .ok (q, warnings)) :
    q.Orderly := by
  rw [create_eq h]
  exact ⟨⟨rfl, by simp⟩, Registry.owned_nil rfl rfl, by simp, by simp, by simp, by simp⟩

end Requester

/-! ## Results -/

namespace Awaited

variable {a : Awaited} {t t' : Ticket} {result result' : Except RequestError Response}

theorem result?_cons (p : Ticket × Option (Except RequestError Response)) (a : Awaited)
    (t : Ticket) : result? (p :: a) t = if p.1 = t then p.2 else result? a t := by
  unfold result?
  rw [List.find?_cons]
  by_cases h : p.1 = t
  · rw [decide_eq_true h, if_pos h]
    rfl
  · rw [decide_eq_false h, if_neg h]

theorem result?_add (hne : t ≠ t') : (a.add t').result? t = a.result? t := by
  unfold add
  induction a with
  | nil =>
    rw [List.nil_append, result?_cons, if_neg (Ne.symm hne)]
  | cons p a ih =>
    rw [List.cons_append, result?_cons, result?_cons, ih]

theorem result?_add_self (h : ∀ p ∈ a, p.1 ≠ t) : (a.add t).result? t = none := by
  unfold add
  induction a with
  | nil =>
    rw [List.nil_append, result?_cons, if_pos rfl]
  | cons p a ih =>
    rw [List.cons_append, result?_cons, if_neg (h p List.mem_cons_self)]
    exact ih fun p hp => h p (List.mem_cons_of_mem _ hp)

theorem tickets_add (h : ∀ p ∈ a, p.1 < t) : ∀ p ∈ a.add t, p.1 < t + 1 := by
  intro p hp
  rcases List.mem_append.1 hp with hold | hlast
  · exact Nat.lt_succ_of_lt (h p hold)
  · rw [List.mem_singleton.1 hlast]
    exact Nat.lt_succ_self t

theorem tickets_deliver {P : Ticket → Prop} (h : ∀ p ∈ a, P p.1) :
    ∀ p ∈ a.deliver t result, P p.1 := by
  intro p hp
  obtain ⟨p₀, hp₀, rfl⟩ := List.mem_map.1 hp
  have hticket := h p₀ hp₀
  split_ifs with heq
  · exact heq ▸ hticket
  · exact hticket

theorem result?_deliver (h : (a.deliver t' result').result? t = some result) :
    a.result? t = some result ∨ t' = t ∧ result' = result := by
  unfold deliver at h
  induction a with
  | nil => cases h
  | cons p a ih =>
    rw [List.map_cons, result?_cons] at h
    rw [result?_cons]
    by_cases hp : p.1 = t'
    · rw [if_pos hp] at h
      by_cases ht : t' = t
      · rw [if_pos ht] at h
        exact .inr ⟨ht, Option.some.inj h⟩
      · rw [if_neg ht] at h
        rw [if_neg (hp ▸ ht)]
        exact ih h
    · rw [if_neg hp] at h
      by_cases ht : p.1 = t
      · rw [if_pos ht] at h ⊢
        exact .inl h
      · rw [if_neg ht] at h ⊢
        exact ih h

theorem result?_deliver_self (h : ∃ p ∈ a, p.1 = t) :
    (a.deliver t result).result? t = some result := by
  unfold deliver
  induction a with
  | nil =>
    obtain ⟨p, hp, -⟩ := h
    cases hp
  | cons p a ih =>
    rw [List.map_cons, result?_cons]
    by_cases hp : p.1 = t
    · rw [if_pos hp, if_pos rfl]
    · rw [if_neg hp, if_neg hp]
      apply ih
      obtain ⟨p', hp', ht⟩ := h
      rcases List.mem_cons.1 hp' with rfl | hmem
      · exact absurd ht hp
      · exact ⟨p', hmem, ht⟩

theorem result?_forget (h : (a.forget t').result? t = some result) :
    a.result? t = some result := by
  unfold forget at h
  by_cases htickets : t = t'
  · subst htickets
    have hnone : (a.filter fun p => p.1 ≠ t).find? (fun p => p.1 = t) = none := by
      apply List.find?_eq_none.2
      intro p hp
      simpa using List.of_mem_filter hp
    unfold result? at h
    rw [hnone] at h
    cases h
  · induction a with
    | nil => cases h
    | cons p a ih =>
      rw [List.filter_cons] at h
      rw [result?_cons]
      by_cases hp : p.1 = t'
      · rw [if_neg (by simpa using hp)] at h
        rw [if_neg fun ht => htickets (ht.symm.trans hp)]
        exact ih h
      · rw [if_pos (by simpa using hp), result?_cons] at h
        by_cases ht : p.1 = t
        · rw [if_pos ht] at h ⊢
          exact h
        · rw [if_neg ht] at h ⊢
          exact ih h

theorem result?_collect {events : List (Event (Purpose ι))}
    (h : (a.collect events).result? t = some result) :
    a.result? t = some result ∨ ∃ key outstanding clock,
      .completed (.ticket t) key result outstanding clock ∈ events := by
  induction events generalizing a with
  | nil => exact .inl h
  | cons event events ih =>
    have hlater : (∃ key outstanding clock,
        .completed (.ticket t) key result outstanding clock ∈ events) →
        ∃ key outstanding clock,
          .completed (.ticket t) key result outstanding clock ∈ event :: events := by
      rintro ⟨key, outstanding, clock, hmem⟩
      exact ⟨key, outstanding, clock, List.mem_cons_of_mem _ hmem⟩
    unfold collect at h
    split at h
    · exact .inl h
    · rename_i heq
      obtain ⟨rfl, rfl⟩ := List.cons.inj heq
      rcases ih h with hold | hevents
      · rcases result?_deliver hold with hold | ⟨rfl, rfl⟩
        · exact .inl hold
        · exact .inr ⟨_, _, _, List.mem_cons_self⟩
      · exact .inr (hlater hevents)
    · rename_i heq
      obtain ⟨rfl, rfl⟩ := List.cons.inj heq
      rcases ih h with hold | hevents
      · exact .inl hold
      · exact .inr (hlater hevents)

theorem tickets_collect {P : Ticket → Prop} {events : List (Event (Purpose ι))}
    (h : ∀ p ∈ a, P p.1) : ∀ p ∈ a.collect events, P p.1 := by
  induction events generalizing a with
  | nil => exact h
  | cons event events ih =>
    unfold collect
    split
    · exact h
    · rename_i heq
      obtain ⟨rfl, rfl⟩ := List.cons.inj heq
      exact ih (tickets_deliver h)
    · rename_i heq
      obtain ⟨rfl, rfl⟩ := List.cons.inj heq
      exact ih h

end Awaited

/-! ## Sending requests -/

namespace Requester

theorem Orderly.congr {q : Requester (Recorder τ) ι} (h : q.Orderly)
    {r : Registry (Recorder τ) (Purpose ι)} (hslots : r.slots = q.registry.slots) (howned : r.Owned)
    (hletters : ∀ e ∈ entries q.registry.slots, ∀ l ∈ Letter.current r.link.letters,
      l.address = e.holding → l.msg = e.transaction.request) :
    Orderly { q with registry := r } := by
  refine ⟨⟨?_, ?_⟩, howned, ?_, ?_, ?_, h.awaited⟩
  · rw [hslots]
    exact h.plain.ended
  · rw [hslots]
    exact h.plain.programs
  · rw [hslots]
    exact h.sends
  · rw [hslots]
    exact h.tickets
  · rw [hslots]
    exact hletters

theorem keeps_of_slots (f : Terminus) (q : Requester (Recorder τ) ι)
    {r : Registry (Recorder τ) (Purpose ι)} (hslots : r.slots = q.registry.slots) :
    Keeps f q { q with registry := r } := by
  intro t eid iid request h
  refine ⟨h.ticket, h.result, ?_⟩
  rw [hslots]
  exact h.entry

theorem Orderly.letters_cons {q : Requester (Recorder τ) ι} (h : q.Orderly) {l : Letter}
    (hnew : l.address ∉ q.registry.holders) :
    ∀ e ∈ entries q.registry.slots, ∀ l' ∈ Letter.current (l :: q.registry.link.letters),
      l'.address = e.holding → l'.msg = e.transaction.request := by
  intro e he l' hl' haddress
  rcases Letter.mem_current_cons.1 hl' with rfl | ⟨hold, -⟩
  · exact absurd (haddress ▸ List.mem_map_of_mem he) hnew
  · exact h.letters e he l' hold haddress

/-- A request was sent for the next ticket, under an ID that no other request holds. -/
structure Opens (q : Requester σ ι) (request : Request) (e : Entry σ (Purpose ι))
    (r : Registry σ (Purpose ι)) : Prop where
  owned : r.Owned
  slots : r.slots = insert e q.registry.slots
  live : e.isLive = true
  program : e.transaction.callback = some .done
  label : e.label = .ticket q.nextTicket
  sends : e.Sends request
  new : e.holding ∉ q.registry.holders

theorem Opens.mem {q : Requester σ ι} {request : Request} {e e' : Entry σ (Purpose ι)}
    {r : Registry σ (Purpose ι)} (h : q.Opens request e r) (he' : e' ∈ entries r.slots) :
    e' = e ∨ e' ∈ entries q.registry.slots := by
  rw [h.slots] at he'
  exact List.mem_cons.1 ((perm_entries_insert e _).mem_iff.1 he')

theorem Opens.plain {q : Requester σ ι} {request : Request} {e : Entry σ (Purpose ι)}
    {r : Registry σ (Purpose ι)} (h : q.Opens request e r) (hq : q.registry.Plain) : r.Plain := by
  constructor
  · rw [h.slots, ended_insert h.live]
    exact hq.ended
  · intro e' he'
    rcases h.mem he' with rfl | hold
    · exact h.program
    · exact hq.programs e' hold

section opens

variable {q : Requester (Recorder τ) ι} {request : Request} {e : Entry (Recorder τ) (Purpose ι)}
  {r : Registry (Recorder τ) (Purpose ι)}

theorem Opens.orderly (h : q.Opens request e r) (hq : q.Orderly) (hletters : r.link.letters =
      ⟨e.key.eid, e.transaction.request, true⟩ :: q.registry.link.letters) :
    Orderly ⟨r, q.awaited.add q.nextTicket, q.nextTicket + 1⟩ := by
  have haddress : Letter.address ⟨e.key.eid, e.transaction.request, true⟩ = e.holding :=
    Letter.address_of_encode h.sends.encode _ _
  refine ⟨h.plain hq.plain, h.owned, ?_, ?_, ?_, Awaited.tickets_add hq.awaited⟩
  · intro e' he'
    rcases h.mem he' with rfl | hold
    · exact ⟨request, h.sends⟩
    · exact hq.sends e' hold
  · intro e' he'
    rcases h.mem he' with rfl | hold
    · exact ⟨_, h.label, Nat.lt_succ_self _⟩
    · obtain ⟨t, hlabel, ht⟩ := hq.tickets e' hold
      exact ⟨t, hlabel, Nat.lt_succ_of_lt ht⟩
  · intro e' he' l hl hat
    rw [hletters] at hl
    rcases h.mem he' with rfl | hold
    · rcases Letter.mem_current_cons.1 hl with rfl | ⟨-, hother⟩
      · rfl
      -- The first attempt took its address from all older letters.
      · exact absurd (hat.trans haddress.symm) (hother rfl)
    · exact hq.letters_cons (haddress ▸ h.new) e' hold l hl hat

theorem Opens.keeps (h : q.Opens request e r) (f : Terminus) :
    Keeps f q ⟨r, q.awaited.add q.nextTicket, q.nextTicket + 1⟩ := by
  intro t eid iid request' hserves
  refine ⟨Nat.lt_succ_of_lt hserves.ticket, ?_, ?_⟩
  · intro result hresult
    rw [Awaited.result?_add (Nat.ne_of_lt hserves.ticket)] at hresult
    exact hserves.result result hresult
  · intro e' he' hlabel
    rcases h.mem he' with rfl | hold
    · obtain rfl := Purpose.ticket.inj (h.label.symm.trans hlabel)
      exact absurd hserves.ticket (Nat.lt_irrefl _)
    · exact hserves.entry e' hold hlabel

theorem Opens.serves (h : q.Opens request e r) (hq : q.Orderly) (f : Terminus) :
    Serves f ⟨r, q.awaited.add q.nextTicket, q.nextTicket + 1⟩ q.nextTicket e.key.eid e.key.iid
      request := by
  refine ⟨Nat.lt_succ_self _, ?_, ?_⟩
  · intro result hresult
    rw [Awaited.result?_add_self fun p hp => Nat.ne_of_lt (hq.awaited p hp)] at hresult
    cases hresult
  · intro e' he' hlabel
    rcases h.mem he' with rfl | hold
    · exact ⟨rfl, rfl, h.sends⟩
    · obtain ⟨t, hlabel', ht⟩ := hq.tickets e' hold
      obtain rfl := Purpose.ticket.inj (hlabel'.symm.trans hlabel)
      exact absurd ht (Nat.lt_irrefl _)

end opens

/-- How the sending of a request for a conversation ends: with a ticket under which it is served, with
the next instance ID, or with a failure. -/
structure Begins (f : Terminus) (q : Requester (Recorder τ) ι) (eid : EndpointId) (request : Request)
    (result : Except RequestError Ticket) (q' : Requester (Recorder τ) ι) : Prop where
  orderly : q'.Orderly
  first : q'.registry.link.first = q.registry.link.first
  keeps : Keeps f q q'
  result : (∃ (t : Ticket) (i : Fin 32), result = .ok t ∧ request.typ ≤ Message.maxType ∧
      q.Offers eid (UInt8.ofNat i) ∧ q'.Serves f t eid (UInt8.ofNat i) request) ∨
    ∃ e, result = .error e ∧
      (e.IsLost ∨ e = .messaging .invalidArgument ∧ Message.maxType < request.typ)

theorem begin_orderly [Link τ] (f : Terminus) {q : Requester (Recorder τ) ι} (h : q.Orderly)
    (hfirst : q.registry.link.first = true) (eid : EndpointId) (request : Request) :
    Begins f q eid request (q.begin eid request).1 (q.begin eid request).2 := by
  have hcases := h.owned.lent_cases ⟨eid, .lent, request, .ticket q.nextTicket⟩ rfl .done
  have howned := h.owned.lent hcases
  unfold begin
  dsimp only
  generalize q.registry.register ⟨eid, .lent, request, .ticket q.nextTicket⟩ .done = g at *
  cases hcases with
  | exhausted hallocate =>
    exact ⟨h, rfl, .refl f q, .inr ⟨_, rfl, .inl trivial⟩⟩
  | @unencodable ids iid e hallocate hencode =>
    refine ⟨h.congr rfl howned h.letters, rfl, keeps_of_slots f q rfl, .inr ⟨_, rfl, .inr ?_⟩⟩
    obtain ⟨rfl, hbad⟩ := Request.encode_eq_error hencode
    refine ⟨rfl, hbad.resolve_left ?_⟩
    obtain ⟨i, rfl⟩ := (h.owned.sound.hands_allocate hallocate).index
    exact UInt8.not_lt.2 (Message.le_maxInstanceId i)
  | refused msg e link hallocate hnew hencode hlink =>
    obtain ⟨hmark, hletters⟩ := Recorder.of_send hlink
    refine ⟨h.congr rfl howned ?_, hmark, keeps_of_slots f q rfl, .inr ⟨_, rfl, .inl trivial⟩⟩
    show ∀ e ∈ entries q.registry.slots, ∀ l ∈ Letter.current link.letters, _
    rw [hletters]
    refine h.letters_cons ?_
    rw [Letter.address_of_encode hencode]
    exact hnew
  | @accepted ids iid msg link hallocate hnew hencode hlink =>
    obtain ⟨hmark, hletters⟩ := Recorder.of_send hlink
    have hopens : q.Opens request (.opened (.ticket q.nextTicket)
        ⟨eid, iid, request.typ, request.cmd⟩ msg q.registry.policy q.registry.clock .done) _ :=
      ⟨howned, rfl, rfl, rfl, rfl, ⟨rfl, rfl, hencode⟩, hnew⟩
    obtain ⟨i, rfl⟩ := (h.owned.sound.hands_allocate hallocate).index
    have hoffers : q.Offers eid (UInt8.ofNat i) := congrArg Prod.fst hallocate
    exact ⟨hopens.orderly h (hfirst ▸ hletters), hmark, hopens.keeps f,
      .inl ⟨_, i, rfl, (Request.encode_eq_ok.1 hencode).2.1, hoffers, hopens.serves h f⟩⟩

/-! ## Repeated attempts -/

/-- The letters that were added are attempts of requests. -/
structure Repeats (requests : List (Entry (Recorder τ) (Purpose ι))) (r r' : Recorder τ) : Prop where
  first : r'.first = r.first
  letters : ∃ new, r'.letters = new ++ r.letters ∧
    ∀ l ∈ new, ∃ e ∈ requests, l = ⟨e.key.eid, e.transaction.request, r.first⟩

theorem Repeats.refl (requests : List (Entry (Recorder τ) (Purpose ι))) (r : Recorder τ) :
    Repeats requests r r :=
  ⟨rfl, [], rfl, by simp⟩

theorem Repeats.trans {a b : List (Entry (Recorder τ) (Purpose ι))} {r r' r'' : Recorder τ}
    (h : Repeats a r r') (h' : Repeats b r' r'') : Repeats (a ++ b) r r'' := by
  obtain ⟨hfirst, new, hletters, hnew⟩ := h
  obtain ⟨hfirst', new', hletters', hnew'⟩ := h'
  refine ⟨hfirst'.trans hfirst, new' ++ new, ?_, fun l hl => ?_⟩
  · rw [hletters', hletters, List.append_assoc]
  · rcases List.mem_append.1 hl with hl | hl
    · obtain ⟨e, he, rfl⟩ := hnew' l hl
      exact ⟨e, List.mem_append_right _ he, by rw [hfirst]⟩
    · obtain ⟨e, he, rfl⟩ := hnew l hl
      exact ⟨e, List.mem_append_left _ he, rfl⟩

theorem repeats_visit [Link τ] (e : Entry (Recorder τ) (Purpose ι)) (link : Recorder τ)
    (now timeout : Nat) : Repeats [e] link (e.visit link now timeout).link := by
  have hpoll : Repeats [e] link (e.transaction.poll link now timeout).link := by
    unfold Transaction.poll
    split
    · exact .refl _ _
    · split
      · exact .refl _ _
      · exact .refl _ _
      · exact .refl _ _
      · exact ⟨rfl, [_], rfl, by simp [Entry.key]⟩
  unfold Entry.visit
  split_ifs
  · exact .refl _ _
  · dsimp only
    split_ifs
    · exact hpoll
    · exact hpoll
  · exact .refl _ _

theorem repeats_sweep [Link τ] (now timeout : Nat) (slots : List (Slot (Recorder τ) (Purpose ι)))
    (i : Nat) (link : Recorder τ) :
    Repeats (entries slots) link (sweep now timeout i slots link).link := by
  induction slots generalizing i link with
  | nil => exact .refl _ _
  | cons s rest ih =>
    rw [entries_cons]
    unfold sweep
    split
    · rename_i he
      rw [he]
      exact ih ..
    · rename_i e he
      rw [he]
      exact (repeats_visit e link now timeout).trans (ih ..)

theorem repeats_update [Link τ] (r : Registry (Recorder τ) (Purpose ι)) (now : Nat) :
    Repeats (entries r.slots) r.link
      (Machine.start ⟨r, [], []⟩ .host (.act (.update now))).registry.link := by
  have hslots : (r.setClock now).1.slots = r.slots := Registry.slots_setClock r now
  have hlink : (r.setClock now).1.link = r.link := by
    unfold Registry.setClock
    split <;> rfl
  rw [← hslots, ← hlink]
  exact repeats_sweep ..

/-! ## Other changes -/

theorem Orderly.forget {q : Requester (Recorder τ) ι} (h : q.Orderly) (t : Ticket) :
    (q.forget t).Orderly :=
  ⟨h.plain, h.owned, h.sends, h.tickets, h.letters,
    fun p hp => h.awaited p (List.mem_of_mem_filter hp)⟩

theorem keeps_forget (f : Terminus) (q : Requester (Recorder τ) ι) (t : Ticket) :
    Keeps f q (q.forget t) :=
  fun _ _ _ _ h =>
    ⟨h.ticket, fun result hresult => h.result result (Awaited.result?_forget hresult), h.entry⟩

theorem Orderly.onLink {q : Requester (Recorder τ) ι} (h : q.Orderly)
    {change : Recorder τ → Recorder τ} (hchange : ∀ r, (change r).letters = r.letters) :
    (q.onLink change).Orderly := by
  refine h.congr rfl (h.owned.congr h.owned.sound rfl fun _ _ => Iff.rfl) ?_
  show ∀ e ∈ entries q.registry.slots, ∀ l ∈ Letter.current (change q.registry.link).letters, _
  rw [hchange]
  exact h.letters

theorem keeps_onLink (f : Terminus) (q : Requester (Recorder τ) ι)
    (change : Recorder τ → Recorder τ) : Keeps f q (q.onLink change) :=
  keeps_of_slots f q rfl

/-- An operation is orderly if the letters that it adds are those of requests, and if it gives no
request a result that does not fit. -/
theorem perform_orderly [Link τ] (f : Terminus) {q : Requester (Recorder τ) ι} (h : q.Orderly)
    {action : Action (Recorder τ)} (hkeeps : action.keepsIds = true)
    (hletters : ∀ e ∈ entries q.registry.slots, ∀ l ∈ Letter.current
      (Machine.start ⟨q.registry, [], []⟩ .host (.act action)).registry.link.letters,
      l.address = e.holding → l.msg = e.transaction.request)
    (hanswers : ∀ e ∈ entries q.registry.slots, ∀ request, e.Sends request →
      ∀ result, action.Answers e.key result → Fits f e.key.eid e.key.iid request result) :
    (q.perform (.act action)).requester.Orderly ∧ Keeps f q (q.perform (.act action)).requester := by
  obtain ⟨hplain, howned, hlink, hentries, hcompleted⟩ := h.plain.perform hkeeps
  unfold perform
  dsimp only
  generalize q.registry.perform (.act action) = p at *
  constructor
  · refine ⟨hplain, howned h.owned, ?_, ?_, ?_,
      Awaited.tickets_collect (P := fun t => t < q.nextTicket) h.awaited⟩
    · intro e he
      obtain ⟨e₀, he₀, hcore⟩ := hentries e he
      obtain ⟨request, hsends⟩ := h.sends e₀ he₀
      exact ⟨request, hsends.congr hcore⟩
    · intro e he
      obtain ⟨e₀, he₀, hcore⟩ := hentries e he
      rw [(Entry.core_eq hcore).1]
      exact h.tickets e₀ he₀
    · intro e he l hl haddress
      obtain ⟨e₀, he₀, hcore⟩ := hentries e he
      obtain ⟨-, hkey, -, hrequest⟩ := Entry.core_eq hcore
      rw [hlink] at hl
      rw [Entry.holding, hkey] at haddress
      rw [hrequest]
      exact hletters e₀ he₀ l hl haddress
  · intro t eid iid request hserves
    refine ⟨hserves.ticket, ?_, ?_⟩
    · intro result hresult
      rcases Awaited.result?_collect hresult with hold | ⟨key, outstanding, clock, hevent⟩
      · exact hserves.result result hold
      -- A result that is new is that of the request which has the ticket for its label.
      · obtain ⟨e₀, he₀, hlabel, rfl, hresult⟩ := hcompleted _ _ _ _ _ hevent
        obtain ⟨rfl, rfl, hsends⟩ := hserves.entry e₀ he₀ hlabel
        rcases hresult with htimedOut | hanswer
        · exact .inl htimedOut
        · exact hanswers e₀ he₀ request hsends result hanswer
    · intro e he hlabel
      obtain ⟨e₀, he₀, hcore⟩ := hentries e he
      obtain ⟨hlabel₀, hkey, -, -⟩ := Entry.core_eq hcore
      obtain ⟨heid, hiid, hsends⟩ := hserves.entry e₀ he₀ (hlabel₀.symm.trans hlabel)
      rw [hkey]
      exact ⟨heid, hiid, hsends.congr hcore⟩

/-- A response to a current letter reaches the request that the letter was sent for, or none. -/
theorem inbound_orderly [Link τ] (f : Terminus) {q : Requester (Recorder τ) ι} (h : q.Orderly)
    {l : Letter} (hl : l ∈ Letter.current q.registry.link.letters) {reply : Bytes}
    (hreply : f.reply? l.eid l.msg = some reply) :
    (q.perform (.act (.inbound l.eid reply))).requester.Orderly ∧
      Keeps f q (q.perform (.act (.inbound l.eid reply))).requester := by
  obtain ⟨header, data, hletter, hdecode⟩ := Terminus.decode_reply? hreply
  have hdelivers := Action.Delivers.inbound (σ := Recorder τ) l.eid reply _ _ hdecode rfl
  refine perform_orderly f h rfl ?_ ?_
  · show ∀ e ∈ entries q.registry.slots, ∀ l' ∈ Letter.current (Machine.act ⟨q.registry, [], []⟩
      .host (.inbound l.eid reply)).registry.link.letters, _
    rw [Machine.link_of_delivers hdelivers h.plain.coherent.programs]
    exact h.letters
  · intro e he request hsends result hanswers
    generalize hkey : e.key = key at hanswers
    cases hanswers with
    | delivers hto =>
      cases hto with
      | inbound _ _ header' rest hdecode' hresponse =>
        obtain ⟨rfl, rfl⟩ := Prod.mk.inj (Except.ok.inj (hdecode'.symm.trans hdecode))
        have haddress : l.address = e.holding := by
          rw [Entry.holding, hkey]
          exact Letter.address_of_decode hletter l.eid l.first
        -- The letter that is answered is the message of the request.
        rw [h.letters e he l hl haddress, Request.decode_encode hsends.encode] at hletter
        obtain ⟨hheader, rfl⟩ := Prod.mk.inj (Except.ok.inj hletter)
        refine .inr ?_
        rw [← hheader]
        rfl

theorem update_orderly [Link τ] (f : Terminus) {q : Requester (Recorder τ) ι} (h : q.Orderly)
    (hfirst : q.registry.link.first = false) (now : Nat) :
    (q.perform (.act (.update now))).requester.Orderly ∧
      Keeps f q (q.perform (.act (.update now))).requester := by
  refine perform_orderly f h rfl ?_ ?_
  · intro e he l hl haddress
    obtain ⟨-, new, hletters, hnew⟩ := repeats_update q.registry now
    have hmark : ∀ l ∈ new, l.first = false := by
      intro l hl
      obtain ⟨e', -, rfl⟩ := hnew l hl
      exact hfirst
    rw [hletters, Letter.current_append hmark] at hl
    rcases List.mem_append.1 hl with hl | hold
    · obtain ⟨e', he', rfl⟩ := hnew l hl
      obtain ⟨request, hsends⟩ := h.sends e' he'
      have hholding : e'.holding = e.holding :=
        (Letter.address_of_encode hsends.encode _ _).symm.trans haddress
      -- No two requests hold the same ID, so an attempt at the address of a request is its own.
      rw [List.inj_on_of_nodup_map h.owned.nodup he' he hholding]
    · exact h.letters e he l hold haddress
  · intro e he request hsends result hanswers
    exfalso
    cases hanswers with
    | delivers hdelivers => cases hdelivers

end Requester

end PlatformMessaging

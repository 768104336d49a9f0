import PlatformMessaging.Proofs.Registry.Independence
import PlatformMessaging.Proofs.Requester.Abandonment
import PlatformMessaging.Proofs.Requester.Leftovers

/-!
# Single requests resume and are abandoned

Main statement: `Diary.requests_resume`, about sessions in which each call is a single request. It is
sent by the first poll and by no other; while it is outstanding the call is pending, and the first poll
after its end tells how it ended. A call never learns of another's request, and dropping one changes
nothing for the others.
-/

namespace PlatformMessaging

open Slots

variable {κ σ ι α : Type}

theorem Dialogue.after_send {eid : EndpointId} {request : Request} {n : Nat}
    {d : Dialogue (Except RequestError Response)} (h : (Dialogue.send eid request).After n d) :
    (n = 0 ∧ d = .ask eid request .done) ∨ ∃ answer, Genuine answer ∧ d = .done answer := by
  induction h with
  | start => exact .inl ⟨rfl, rfl⟩
  | answer h answer hgenuine ih =>
    right
    rcases ih with ⟨-, heq⟩ | ⟨answer', -, heq⟩
    · obtain ⟨-, -, rfl⟩ := Dialogue.ask.inj heq
      exact ⟨answer, hgenuine, rfl⟩
    · cases heq

namespace Requester

variable {q : Requester σ ι} {ends : List (Ticket × Except RequestError Response)}

theorem poll_send [Link σ] (h : q.registry.Owned) (eid : EndpointId) (request : Request) :
    (∃ e q', SameRequests q q' ∧ q.poll (.ready (.send eid request)) = (.inr (.error e), q')) ∨
      ∃ q', q'.nextTicket = q.nextTicket + 1 ∧
        q.poll (.ready (.send eid request)) = (.inl (.waiting q.nextTicket request .done), q') := by
  have hbegun := begin_cases h eid request
  have hpoll : q.poll (.ready (.send eid request)) = advance (.ask eid request .done) q := rfl
  rw [hpoll]
  unfold advance
  generalize q.begin eid request = p at hbegun
  cases hbegun with
  | failed e q' hsame hgenuine => exact .inl ⟨e, q', hsame, rfl⟩
  | opened e r hopens => exact .inr ⟨_, rfl, rfl⟩

theorem Minds.poll_send [Link σ] {t : Ticket} {request : Request} (h : q.Minds ends t request) :
    (q.poll (.waiting t request .done)).1.getRight? = ends.lookup t ∧
      (q.poll (.waiting t request .done)).2.registry = q.registry ∧
      (q.poll (.waiting t request .done)).2.nextTicket = q.nextTicket := by
  cases hresult : q.awaited.result? t with
  | none =>
    rw [poll_of_none hresult, ← h.result, hresult]
    exact ⟨rfl, rfl, rfl⟩
  | some result =>
    have hlookup : ends.lookup t = some result := h.result.symm.trans hresult
    rw [poll_of_some hresult, h.fits result (mem_of_lookup hlookup), hlookup]
    exact ⟨rfl, rfl, rfl⟩

/-! ## What a stage tells -/

section stage

variable {d₀ : Dialogue α} {dropped : Prop} {tickets : List Ticket} {answers : List (Option α)}
  {c? : Option (Conversation α)}

theorem Stage.tickets_of_unpolled (h : Stage q ends d₀ dropped tickets answers c?)
    (hunpolled : answers = []) : tickets = [] := by
  cases h with
  | ready => rfl
  | waiting earlier answers hafter hminds hcount hended hpolled hpending =>
    exact absurd hunpolled hpolled
  | returned tickets answers hafter hended hpending => simp at hunpolled
  | dropped tickets answers hdropped hsingle hnone hpending => exact hnone hunpolled

theorem Stage.conversation_of_unpolled (h : Stage q ends d₀ dropped tickets answers c?)
    (hdropped : ¬dropped) (hunpolled : answers = []) : c? = some (.ready d₀) := by
  cases h with
  | ready => rfl
  | waiting earlier answers hafter hminds hcount hended hpolled hpending =>
    exact absurd hunpolled hpolled
  | returned tickets answers hafter hended hpending => simp at hunpolled
  | dropped tickets answers hdropped' hsingle hnone hpending => exact absurd hdropped' hdropped

theorem Stage.exists_conversation (h : Stage q ends d₀ dropped tickets answers c?)
    (hdropped : ¬dropped) (hpending : ∀ a, some a ∉ answers) : ∃ c, c? = some c := by
  cases h with
  | ready => exact ⟨_, rfl⟩
  | waiting earlier answers hafter hminds hcount hended hpolled hnone => exact ⟨_, rfl⟩
  | @returned m a tickets answers hafter hended hnone =>
    exact absurd (List.mem_append_right _ (List.mem_singleton_self _)) (hpending a)
  | dropped tickets answers hdropped' hsingle hnone hnone' => exact absurd hdropped' hdropped

end stage

section send

variable {eid : EndpointId} {request : Request} {dropped : Prop} {tickets : List Ticket}
  {answers : List (Option (Except RequestError Response))}

theorem Stage.waits {c : Conversation (Except RequestError Response)}
    (h : Stage q ends (.send eid request) dropped tickets answers (some c)) (hpolled : answers ≠ []) :
    ∃ t, c = .waiting t request .done ∧ tickets = [t] ∧ q.Minds ends t request := by
  cases h with
  | ready => exact absurd rfl hpolled
  | @waiting m t eid' request' next earlier answers hafter hminds hcount hended hpolled hpending =>
    rcases Dialogue.after_send hafter with ⟨rfl, heq⟩ | ⟨answer, -, heq⟩
    · obtain ⟨rfl, rfl, rfl⟩ := Dialogue.ask.inj heq
      rw [List.length_eq_zero_iff.1 (Nat.le_zero.1 hcount)]
      exact ⟨t, rfl, rfl, hminds⟩
    · cases heq

theorem Stage.genuine {c? : Option (Conversation (Except RequestError Response))}
    (h : Stage q ends (.send eid request) dropped tickets answers c?)
    {result : Except RequestError Response} (hresult : some result ∈ answers) : Genuine result := by
  cases h with
  | ready => cases hresult
  | waiting earlier answers hafter hminds hcount hended hpolled hpending => cases hpending _ hresult
  | @returned m a tickets answers hafter hended hpending =>
    obtain rfl : result = a := by
      rcases List.mem_append.1 hresult with hold | hnew
      · cases hpending _ hold
      · exact Option.some.inj (List.mem_singleton.1 hnew)
    rcases Dialogue.after_send hafter with ⟨-, heq⟩ | ⟨answer, hgenuine, heq⟩
    · cases heq
    · exact Dialogue.done.inj heq ▸ hgenuine
  | dropped tickets answers hdropped hsingle hunpolled hpending => cases hpending _ hresult

end send

end Requester

namespace Diary

open Requester

/-! ## One poll more -/

section poll

variable [Link σ] {dialogue : κ → Dialogue α} {d : Diary κ σ ι α} {n : Nat} {c : Conversation α}

theorem answers_next_poll (h : (d.session.conversations.map Prod.fst).Nodup)
    (hc : d.session.conversation? n = some c) :
    (d.next dialogue (.poll n)).answers n =
      d.answers n ++ [(d.session.requester.poll c).1.getRight?] := by
  rw [next_poll_some h hc]
  exact (share_append _ _ _).trans (congrArg (d.answers n ++ ·) ((share_map n n [_]).trans (if_pos rfl)))

theorem tickets_next_poll (h : (d.session.conversations.map Prod.fst).Nodup)
    (hc : d.session.conversation? n = some c) :
    (d.next dialogue (.poll n)).tickets n =
      d.tickets n ++ List.range' d.session.requester.nextTicket
        ((d.session.requester.poll c).2.nextTicket - d.session.requester.nextTicket) := by
  rw [next_poll_some h hc]
  exact (share_append _ _ _).trans (congrArg (d.tickets n ++ ·) ((share_map n n _).trans (if_pos rfl)))

end poll

/-! ## What is sent -/

section sent

variable {dialogue : κ → Dialogue α} {d : Diary κ σ ι α} {n : Nat}

theorem Consistent.tickets_of_unpolled (h : d.Consistent dialogue) (hunpolled : d.answers n = []) :
    d.tickets n = [] := by
  cases hcall : d.started[n]? with
  | none => exact (h.unknown n hcall).1
  | some call => exact (h.stage n call hcall).tickets_of_unpolled hunpolled

theorem Consistent.polled_of_mem (h : d.Consistent dialogue) {t : Ticket} (ht : t ∈ d.tickets n) :
    d.answers n ≠ [] := by
  intro hunpolled
  rw [h.tickets_of_unpolled hunpolled] at ht
  cases ht

theorem Consistent.exists_ticket_of_attempt [Link σ] (h : d.Consistent dialogue) {action : Action σ}
    {label : Purpose ι} {key : Key} {msg : Bytes} {answer : Except LinkError Unit} {clock : Nat}
    (hevent : .attempt label key msg answer clock ∈ (d.session.perform (.act action)).events) :
    ∃ n, ∃ t ∈ d.tickets n, label = .ticket t := by
  obtain ⟨-, -, -, -, hseen⟩ := h.accounts.tidy.perform_act d.registry.link action
  have hsent : .sent label key msg ∈ sightings (d.session.perform (.act action)).events :=
    List.mem_filterMap.2 ⟨_, hevent, rfl⟩
  obtain ⟨e, he, hfare⟩ := List.mem_flatMap.1 (hseen.mem_iff.1 hsent)
  obtain ⟨-, hlabel, -⟩ := Entry.fare_names d.registry.link d.registry.clock
    d.registry.policy.responseTimeout (h.accounts.tidy.isLive he) action
  obtain ⟨n, -, hmem⟩ := h.exists_call_of_mem he
  obtain ⟨-, t, ht, heq⟩ := mem_requests.1 hmem
  exact ⟨n, t, ht, (hlabel _ hfare).trans heq⟩

end sent

/-! ## Single requests -/

abbrev single (call : EndpointId × Request) : Dialogue (Except RequestError Response) :=
  .send call.1 call.2

variable {d : Diary (EndpointId × Request) σ ι (Except RequestError Response)} {n : Nat}

theorem Consistent.waits (h : d.Consistent single) {c : Conversation (Except RequestError Response)}
    (hc : d.session.conversation? n = some c) (hpolled : d.answers n ≠ []) :
    ∃ t request, c = .waiting t request .done ∧ d.tickets n = [t] ∧
      d.session.requester.Minds d.ended t request := by
  obtain ⟨call, -, hstage⟩ := h.exists_call hc
  obtain ⟨t, hwaiting, htickets, hminds⟩ := hstage.waits hpolled
  exact ⟨t, call.2, hwaiting, htickets, hminds⟩

theorem Consistent.genuine (h : d.Consistent single) {result : Except RequestError Response}
    (hresult : some result ∈ d.answers n) : Genuine result := by
  obtain ⟨call, -, hstage⟩ := h.exists_call_of_polled (List.ne_nil_of_mem hresult)
  exact hstage.genuine hresult

variable [Link σ]

theorem Consistent.first_poll (h : d.Consistent single) {call : EndpointId × Request}
    (hcall : d.started[n]? = some call) (hdropped : n ∉ d.dropped) (hunpolled : d.answers n = []) :
    let d' := d.next single (.poll n)
    (∃ e, d'.answers n = [some (.error e)] ∧ d'.tickets n = []) ∨
      ∃ t, d'.answers n = [none] ∧ d'.tickets n = [t] := by
  have hc := (h.stage n call hcall).conversation_of_unpolled hdropped hunpolled
  dsimp only
  rw [answers_next_poll h.names hc, tickets_next_poll h.names hc, hunpolled,
    h.tickets_of_unpolled hunpolled]
  rcases poll_send h.accounts.owned call.1 call.2 with ⟨e, q', hsame, hpoll⟩ | ⟨q', hnext, hpoll⟩
  · rw [hpoll]
    dsimp only
    rw [hsame.nextTicket, Nat.sub_self]
    exact .inl ⟨e, rfl, rfl⟩
  · rw [hpoll]
    dsimp only
    rw [hnext, Nat.add_sub_cancel_left]
    exact .inr ⟨_, rfl, rfl⟩

theorem Consistent.further_poll (h : d.Consistent single) (hpolled : d.answers n ≠ []) :
    (d.next single (.poll n)).registry = d.registry ∧
      (d.next single (.poll n)).tickets n = d.tickets n := by
  cases hc : d.session.conversation? n with
  | none =>
    rw [next_poll_none h.names hc]
    exact ⟨rfl, rfl⟩
  | some c =>
    obtain ⟨t, request, rfl, -, hminds⟩ := h.waits hc hpolled
    obtain ⟨-, hregistry, hnext⟩ := hminds.poll_send
    refine ⟨?_, ?_⟩
    · rw [next_poll_some h.names hc]
      exact hregistry
    · rw [tickets_next_poll h.names hc, hnext, Nat.sub_self]
      exact List.append_nil _

theorem Consistent.pending_poll (h : d.Consistent single) (hdropped : n ∉ d.dropped)
    (hpolled : d.answers n ≠ []) (hpending : ∀ r, some r ∉ d.answers n) :
    ∃ t, d.tickets n = [t] ∧
      (d.next single (.poll n)).answers n = d.answers n ++ [d.ended.lookup t] ∧
      (d.ended.lookup t = none ↔ ∃ e ∈ live d.registry.slots, e.label = .ticket t) := by
  obtain ⟨call, -, hstage⟩ := h.exists_call_of_polled hpolled
  obtain ⟨c, hc⟩ := hstage.exists_conversation hdropped hpending
  obtain ⟨t, request, rfl, htickets, hminds⟩ := h.waits hc hpolled
  refine ⟨t, htickets, ?_, ?_⟩
  · rw [answers_next_poll h.names hc, hminds.poll_send.1]
  · have ht : t ∈ d.tickets n := htickets ▸ List.mem_singleton_self t
    rw [lookup_eq_none, live_eq_entries h.accounts.plain.ended,
      h.accounts.exists_entry_iff (h.lt_of_mem ht)]

/-- Calls that are single requests, whatever comes in, whatever the link refuses and whenever the timers
run.

Nothing is sent for a call before its first poll, and later polls send nothing. The first poll fails,
or makes the call pending under a ticket of its own. While the request of that ticket is outstanding,
the call is pending; once it has ended, which it does once, the next poll returns its result. No call
returns an error that tells of a mix-up with another. A run in which a call is dropped and one in which it is
merely never polled again have equal registries, and all polls tell the same in both. -/
theorem requests_resume {link : σ} {policy : Policy} {q : Requester σ ι} {warnings : List Warning}
    (h : Requester.create link policy = .ok (q, warnings))
    (turns : List (Turn (EndpointId × Request) σ)) :
    let d := after single q turns
    ((∀ call, (d.next single (.start call)).registry = d.registry) ∧
      (∀ n, d.answers n = [] → d.tickets n = [] ∧ d.requests n = []) ∧
      (∀ n, d.answers n ≠ [] → (d.next single (.poll n)).registry = d.registry ∧
        (d.next single (.poll n)).tickets n = d.tickets n) ∧
      (∀ action label key msg answer clock,
        .attempt label key msg answer clock ∈ (d.session.perform (.act action)).events →
          ∃ n, d.answers n ≠ [] ∧ ∃ t ∈ d.tickets n, label = .ticket t)) ∧
    ((∀ n, d.started[n]? ≠ none → n ∉ d.dropped → d.answers n = [] →
        let d' := d.next single (.poll n)
        (∃ e, d'.answers n = [some (.error e)] ∧ d'.tickets n = []) ∨
          ∃ t, d'.answers n = [none] ∧ d'.tickets n = [t]) ∧
      (∀ n, n ∉ d.dropped → d.answers n ≠ [] → (∀ r, some r ∉ d.answers n) →
        ∃ t, d.tickets n = [t] ∧
          (d.next single (.poll n)).answers n = d.answers n ++ [d.ended.lookup t] ∧
          (d.ended.lookup t = none ↔ ∃ e ∈ live d.registry.slots, e.label = .ticket t)) ∧
      (∀ n m t, t ∈ d.tickets n → t ∈ d.tickets m → n = m) ∧ (d.ended.map Prod.fst).Nodup) ∧
    (∀ n e, some (.error e) ∈ d.answers n → ¬e.IsMixup) ∧
    (∀ n later, .poll n ∉ later →
      let dropped := after single q (turns ++ .drop n :: later)
      let kept := after single q (turns ++ later)
      dropped.registry = kept.registry ∧ dropped.told = kept.told ∧ dropped.ended = kept.ended) := by
  intro d
  have hd : d.Consistent single := consistent_after h turns
  refine ⟨⟨fun _ => rfl, fun n hunpolled => ?_, fun n => hd.further_poll, ?_⟩,
    ⟨fun n hstarted hdropped hunpolled => ?_, fun n => hd.pending_poll,
      fun n m t hn hm => hd.eq_of_mem hn hm, hd.accounts.nodup_ends⟩,
    fun n e hmem => hd.genuine hmem e rfl, fun n later hlater => ?_⟩
  · refine ⟨hd.tickets_of_unpolled hunpolled, List.eq_nil_iff_forall_not_mem.2 fun e he => ?_⟩
    obtain ⟨-, t, ht, -⟩ := mem_requests.1 he
    exact hd.polled_of_mem ht hunpolled
  · intro action label key msg answer clock hevent
    obtain ⟨n, t, ht, hlabel⟩ := hd.exists_ticket_of_attempt hevent
    exact ⟨n, hd.polled_of_mem ht, t, ht, hlabel⟩
  · obtain ⟨call, hcall⟩ := Option.ne_none_iff_exists'.1 hstarted
    exact hd.first_poll hcall hdropped hunpolled
  · have htwins : Twins n (after single q _) (after single q _) := after_drop h turns later hlater
    exact ⟨htwins.requester.registry, htwins.told, htwins.ended⟩

/-- Two calls are pending when the first is dropped. Its request is answered all the same, the second
call is told its own answer, and the third, polled first after that, runs out of time. -/
theorem requests_resume_dropped :
    ∃ (q : Requester Outbox Unit) (turns later : List (Turn (EndpointId × Request) Outbox)),
      Requester.create {} {} = .ok (q, []) ∧ .poll 0 ∉ later ∧
      (after single q (turns ++ .drop 0 :: later)).told =
        [(0, none), (1, none), (1, none), (1, some (.ok ⟨1, 0, 2, 0, [7]⟩)), (2, none),
          (2, some (.error .timedOut))] ∧
      (after single q (turns ++ later)).told =
        [(0, none), (1, none), (1, none), (1, some (.ok ⟨1, 0, 2, 0, [7]⟩)), (2, none),
          (2, some (.error .timedOut))] ∧
      (after single q (turns ++ .drop 0 :: later)).registry =
        (after single q (turns ++ later)).registry := by
  have hq : Requester.create ({} : Outbox) {} =
      .ok ((⟨⟨{}, {}, {}, [], 0⟩, [], 0⟩ : Requester Outbox Unit), []) := rfl
  have hlater : (.poll 0 : Turn (EndpointId × Request) Outbox) ∉
      [.inbound 9 [0, 0, 2, 0, 5], .poll 1, .inbound 9 [1, 0, 2, 0, 7], .poll 1, .poll 2,
        .update 8000, .poll 2] := by
    simp
  obtain ⟨-, -, -, hdrop⟩ := requests_resume hq
    [.start (9, ⟨0, 2, []⟩), .start (9, ⟨0, 2, []⟩), .start (8, ⟨0, 4, []⟩), .poll 0, .poll 1]
  obtain ⟨hregistry, htold, -⟩ := hdrop 0 _ hlater
  refine ⟨_, _, _, hq, hlater, htold.trans ?_, ?_, hregistry⟩ <;> decide +kernel

end Diary

end PlatformMessaging

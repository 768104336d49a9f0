import PlatformMessaging.Proofs.Requester.Stages

/-!
# Abandoning a call changes nothing else

Two runs in which the same happens, except that a call is dropped in the first and never polled again
in the second: their registries are equal at any time, and so is what all polls tell
(`Diary.after_drop`).

The runs differ only in the conversation of that call and in the results kept for its tickets
(`Diary.Twins`). No other conversation looks at those, since a ticket is that of one call.
-/

namespace PlatformMessaging

variable {κ σ ι α : Type}

/-! ## The same results for some tickets -/

/-- The same is kept for the tickets of a kind. -/
def Awaited.SameFor (P : Ticket → Prop) (a b : Awaited) : Prop :=
  ∀ t, P t → a.filter (fun p => p.1 = t) = b.filter (fun p => p.1 = t)

namespace Awaited.SameFor

variable {P : Ticket → Prop} {a b : Awaited} {t : Ticket}

theorem result? (h : SameFor P a b) (ht : P t) : a.result? t = b.result? t := by
  unfold Awaited.result?
  rw [← List.head?_filter, ← List.head?_filter, h t ht]

theorem add (h : SameFor P a b) (t : Ticket) : SameFor P (a.add t) (b.add t) := by
  intro t' ht'
  unfold Awaited.add
  rw [List.filter_append, List.filter_append, h t' ht']

theorem forget (h : SameFor P a b) (t : Ticket) : SameFor P (a.forget t) (b.forget t) := by
  intro t' ht'
  unfold Awaited.forget
  rw [List.filter_comm, h t' ht', List.filter_comm]

theorem forget_left (h : SameFor P a b) (ht : ¬P t) : SameFor P (a.forget t) b := by
  intro t' ht'
  rw [← h t' ht']
  unfold Awaited.forget
  rw [List.filter_filter]
  refine List.filter_congr fun p _ => ?_
  rw [← Bool.decide_and, decide_eq_decide]
  refine and_iff_left_of_imp ?_
  rintro hp rfl
  exact ht (hp ▸ ht')

theorem deliver (h : SameFor P a b) (t : Ticket) (result : Except RequestError Response) :
    SameFor P (a.deliver t result) (b.deliver t result) := by
  have hkeys : ∀ t', ((fun p : Ticket × Option (Except RequestError Response) =>
      decide (p.1 = t')) ∘ fun p => if p.1 = t then (t, some result) else p) =
        fun p => decide (p.1 = t') := by
    intro t'
    funext p
    rw [Function.comp_apply]
    split_ifs with hp
    · rw [hp]
    · rfl
  intro t' ht'
  unfold Awaited.deliver
  rw [List.filter_map, List.filter_map, hkeys, h t' ht']

theorem collect (h : SameFor P a b) (events : List (Event (Purpose ι))) :
    SameFor P (a.collect events) (b.collect events) := by
  rw [collect_eq_foldl, collect_eq_foldl]
  induction ticketEnds events generalizing a b with
  | nil => exact h
  | cons p ends ih => exact ih (h.deliver p.1 p.2)

end Awaited.SameFor

namespace Requester

/-- The requesters differ at most in the results kept for other tickets. -/
structure SameFor (P : Ticket → Prop) (q q' : Requester σ ι) : Prop where
  registry : q.registry = q'.registry
  nextTicket : q.nextTicket = q'.nextTicket
  awaited : Awaited.SameFor P q.awaited q'.awaited

namespace SameFor

variable {P : Ticket → Prop} {q q' : Requester σ ι} {t : Ticket}

theorem refl (P : Ticket → Prop) (q : Requester σ ι) : SameFor P q q :=
  ⟨rfl, rfl, fun _ _ => rfl⟩

theorem symm (h : SameFor P q q') : SameFor P q' q :=
  ⟨h.registry.symm, h.nextTicket.symm, fun t ht => (h.awaited t ht).symm⟩

theorem forget (h : SameFor P q q') (t : Ticket) : SameFor P (q.forget t) (q'.forget t) :=
  ⟨h.registry, h.nextTicket, h.awaited.forget t⟩

variable [Link σ]

theorem perform (h : SameFor P q q') (op : Operation σ (Purpose ι)) :
    (q.perform op).events = (q'.perform op).events ∧
      SameFor P (q.perform op).requester (q'.perform op).requester := by
  unfold Requester.perform
  rw [h.registry]
  exact ⟨rfl, rfl, h.nextTicket, h.awaited.collect _⟩

theorem begin (h : SameFor P q q') (eid : EndpointId) (request : Request) :
    (q.begin eid request).1 = (q'.begin eid request).1 ∧
      SameFor P (q.begin eid request).2 (q'.begin eid request).2 := by
  unfold Requester.begin
  rw [h.registry, h.nextTicket]
  dsimp only
  split
  · exact ⟨rfl, rfl, rfl, h.awaited⟩
  · exact ⟨rfl, rfl, rfl, h.awaited.add _⟩

theorem advance (h : SameFor P q q') (d : Dialogue α) :
    (Requester.advance d q).1 = (Requester.advance d q').1 ∧
      SameFor P (Requester.advance d q).2 (Requester.advance d q').2 := by
  induction d generalizing q q' with
  | done a => exact ⟨rfl, h⟩
  | ask eid request next ih =>
    obtain ⟨hresult, hsame⟩ := h.begin eid request
    unfold Requester.advance
    generalize q.begin eid request = p at hresult hsame ⊢
    generalize q'.begin eid request = p' at hresult hsame ⊢
    obtain ⟨result, q₁⟩ := p
    obtain ⟨result', q₁'⟩ := p'
    obtain rfl : result = result' := hresult
    cases result with
    | error e => exact ih (.error e) hsame
    | ok t => exact ⟨rfl, hsame⟩

theorem poll (h : SameFor P q q') {c : Conversation α}
    (hc : ∀ t request next, c = .waiting t request next → P t) :
    (q.poll c).1 = (q'.poll c).1 ∧ SameFor P (q.poll c).2 (q'.poll c).2 := by
  cases c with
  | ready d => exact h.advance d
  | waiting t request next =>
    have hresult := h.awaited.result? (hc t request next rfl)
    cases hr : q.awaited.result? t with
    | none =>
      rw [poll_of_none hr, poll_of_none (hresult.symm.trans hr)]
      exact ⟨rfl, h⟩
    | some result =>
      rw [poll_of_some hr, poll_of_some (hresult.symm.trans hr)]
      exact (h.forget t).advance _

end SameFor

end Requester

/-! ## Two runs -/

namespace Diary

open Requester

variable {dialogue : κ → Dialogue α} {d d' : Diary κ σ ι α} {n m : Nat}

/-- The same has happened in both diaries, except to the conversation of a call. -/
structure Twins (n : Nat) (d d' : Diary κ σ ι α) : Prop where
  requester : SameFor (fun t => t ∉ d.tickets n) d.session.requester d'.session.requester
  conversation : ∀ m ≠ n, d.session.conversation? m = d'.session.conversation? m
  started : d.started = d'.started
  issued : d.issued = d'.issued
  ended : d.ended = d'.ended
  told : d.told = d'.told

theorem Twins.refl (n : Nat) (d : Diary κ σ ι α) : Twins n d d :=
  ⟨.refl _ _, fun _ _ => rfl, rfl, rfl, rfl, rfl⟩

theorem Twins.tickets (h : Twins n d d') (m : Nat) : d.tickets m = d'.tickets m := by
  unfold Diary.tickets
  rw [h.issued]

theorem Twins.symm (h : Twins n d d') : Twins n d' d := by
  refine ⟨?_, fun m hm => (h.conversation m hm).symm, h.started.symm, h.issued.symm, h.ended.symm,
    h.told.symm⟩
  rw [← h.tickets n]
  exact h.requester.symm

theorem Consistent.mem_tickets (h : d.Consistent dialogue) {t : Ticket} {request : Request}
    {next : Except RequestError Response → Dialogue α}
    (hc : d.session.conversation? n = some (.waiting t request next)) : t ∈ d.tickets n := by
  obtain ⟨call, -, hstage⟩ := h.exists_call hc
  generalize d.tickets n = tickets at hstage
  generalize d.answers n = answers at hstage
  cases hstage with
  | waiting earlier answers hafter hminds hcount hended hpolled hpending =>
    exact List.mem_append_right _ (List.mem_singleton_self _)

variable [Link σ]

theorem Twins.drop_left (h : Twins n d d') (hd : d.Consistent dialogue) :
    Twins n (d.next dialogue (.drop n)) d' := by
  cases hc : d.session.conversation? n with
  | none =>
    rw [next_drop_none hd.names hc]
    exact h
  | some c =>
    rw [next_drop_some hd.names hc]
    refine ⟨?_, fun m hm => ?_, h.started, h.issued, h.ended, h.told⟩
    · cases c with
      | ready dialogue' => exact h.requester
      | waiting t request next =>
        have ht : ¬t ∉ d.tickets n := fun hnot => hnot (hd.mem_tickets hc)
        exact ⟨h.requester.registry, h.requester.nextTicket, h.requester.awaited.forget_left ht⟩
    · exact (Session.lookup_put_of_ne hm).trans (h.conversation m hm)

omit [Link σ] in
theorem Twins.put (h : Twins n d d') (hd : d.Consistent dialogue) (hd' : d'.Consistent dialogue)
    {c : Conversation α} (hc : d.session.conversation? m = some c) (hm : m ≠ n)
    (c? : Option (Conversation α)) {k : Nat} (hk : k ≠ n) :
    (Session.put d.session.conversations m c?).lookup k =
      (Session.put d'.session.conversations m c?).lookup k := by
  rw [Session.lookup_put hd.names hc,
    Session.lookup_put hd'.names ((h.conversation m hm).symm.trans hc)]
  exact congrArg (fun rest => if k = m then c? else rest) (h.conversation k hk)

theorem Twins.poll (h : Twins n d d') (hd : d.Consistent dialogue) (hd' : d'.Consistent dialogue)
    (hm : m ≠ n) : Twins n (d.next dialogue (.poll m)) (d'.next dialogue (.poll m)) := by
  cases hc : d.session.conversation? m with
  | none =>
    rw [next_poll_none hd.names hc, next_poll_none hd'.names ((h.conversation m hm).symm.trans hc)]
    exact h
  | some c =>
    have hother : ∀ t request next, c = .waiting t request next → t ∉ d.tickets n := by
      rintro t request next rfl hmem
      exact hm (hd.eq_of_mem (hd.mem_tickets hc) hmem)
    obtain ⟨hpolled, hsame⟩ := h.requester.poll hother
    rw [next_poll_some hd.names hc,
      next_poll_some hd'.names ((h.conversation m hm).symm.trans hc)]
    refine ⟨?_, fun k hk => ?_, h.started, ?_, h.ended, ?_⟩
    · refine ⟨hsame.registry, hsame.nextTicket, fun t ht => hsame.awaited t fun hmem => ht ?_⟩
      exact mem_share.2 (List.mem_append_left _ (mem_share.1 hmem))
    · dsimp only
      rw [← hpolled]
      exact h.put hd hd' hc hm _ hk
    · dsimp only
      rw [h.issued, h.requester.nextTicket, hsame.nextTicket]
    · dsimp only
      rw [h.told, hpolled]

theorem Twins.drop (h : Twins n d d') (hd : d.Consistent dialogue) (hd' : d'.Consistent dialogue)
    (hm : m ≠ n) : Twins n (d.next dialogue (.drop m)) (d'.next dialogue (.drop m)) := by
  cases hc : d.session.conversation? m with
  | none =>
    rw [next_drop_none hd.names hc, next_drop_none hd'.names ((h.conversation m hm).symm.trans hc)]
    exact h
  | some c =>
    rw [next_drop_some hd.names hc,
      next_drop_some hd'.names ((h.conversation m hm).symm.trans hc)]
    refine ⟨?_, fun k hk => h.put hd hd' hc hm none hk, h.started, h.issued, h.ended, h.told⟩
    cases c with
    | ready dialogue' => exact h.requester
    | waiting t request next => exact h.requester.forget t

theorem Twins.next (h : Twins n d d') (hd : d.Consistent dialogue) (hd' : d'.Consistent dialogue)
    {turn : Turn κ σ} (hturn : turn ≠ .poll n) :
    Twins n (d.next dialogue turn) (d'.next dialogue turn) := by
  have hperform : ∀ action : Action σ, Twins n (d.perform action) (d'.perform action) := by
    intro action
    obtain ⟨hevents, hsame⟩ := h.requester.perform (.act action)
    refine ⟨hsame, h.conversation, h.started, h.issued, ?_, h.told⟩
    exact congrArg₂ (fun ended events => ended ++ ticketEnds events) h.ended hevents
  cases turn with
  | start call =>
    refine ⟨h.requester, fun m hm => ?_, congrArg (· ++ [call]) h.started, h.issued, h.ended, h.told⟩
    show (d.session.start _ _).conversation? m = (d'.session.start _ _).conversation? m
    rw [Session.conversation?_start, Session.conversation?_start, h.conversation m hm, h.started]
  | poll m =>
    refine h.poll hd hd' ?_
    rintro rfl
    exact hturn rfl
  | drop m =>
    by_cases hm : m = n
    · rw [hm]
      exact ((h.drop_left hd).symm.drop_left hd').symm
    · exact h.drop hd hd' hm
  | inbound eid msg => exact hperform _
  | update now => exact hperform _
  | adjust change =>
    refine ⟨⟨?_, h.requester.nextTicket, h.requester.awaited⟩, h.conversation, h.started, h.issued,
      h.ended, h.told⟩
    exact congrArg (fun r : Registry σ (Purpose ι) => { r with link := change r.link })
      h.requester.registry

/-- Whether a call is dropped or never polled again makes no difference to the registry, to the results
of requests and to what any poll tells, then or later. -/
theorem after_drop {link : σ} {policy : Policy} {q : Requester σ ι} {warnings : List Warning}
    (h : Requester.create link policy = .ok (q, warnings)) (turns later : List (Turn κ σ))
    (hlater : .poll n ∉ later) :
    Twins n (after dialogue q (turns ++ .drop n :: later)) (after dialogue q (turns ++ later)) := by
  suffices hrun : ∀ d d' : Diary κ σ ι α, Twins n d d' → d.Consistent dialogue →
      d'.Consistent dialogue →
        Twins n (later.foldl (Diary.next dialogue) d) (later.foldl (Diary.next dialogue) d') by
    have hd : (after dialogue q turns).Consistent dialogue := consistent_after h turns
    unfold after at hd ⊢
    rw [List.foldl_append, List.foldl_append, List.foldl_cons]
    exact hrun _ _ ((Twins.refl n _).drop_left hd) (hd.next (.drop n)) hd
  induction later with
  | nil => exact fun d d' h _ _ => h
  | cons turn later ih =>
    rw [List.mem_cons, not_or] at hlater
    obtain ⟨hturn, hlater⟩ := hlater
    intro d d' h hd hd'
    exact ih hlater _ _ (h.next hd hd' (Ne.symm hturn)) (hd.next turn) (hd'.next turn)

end Diary

end PlatformMessaging

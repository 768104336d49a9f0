import PlatformMessaging.Proofs.Requester.Conversations
import PlatformMessaging.Proofs.Requester.Diary

/-!
# The stages of a call

A call that has started is ready to be polled, waits under the last of its tickets, has returned or
was dropped (`Requester.Stage`). It has gone on from one request only after that had ended, so that
of its requests at most the last is outstanding, and none when it returns.

Polling a call leads it from stage to stage (`Stage.poll`), and what happens to other calls, on the
link or to the timers keeps its stage, as it keeps what a ticket stands for. So each call of a session
is in one of its stages at any time (`Diary.consistent_after`).
-/

namespace PlatformMessaging

open Slots

variable {κ σ ι α : Type}

/-! ## How far a dialogue has come -/

/-- So many answers lead from a dialogue to another. -/
inductive Dialogue.After (d : Dialogue α) : Nat → Dialogue α → Prop where
  | start : After d 0 d
  | answer {n : Nat} {eid : EndpointId} {request : Request}
      {next : Except RequestError Response → Dialogue α} (h : After d n (.ask eid request next))
      (answer : Except RequestError Response) (hgenuine : Genuine answer) :
      After d (n + 1) (next answer)

namespace Requester

variable {q q' : Requester σ ι} {ends : List (Ticket × Except RequestError Response)}
  {d₀ d : Dialogue α} {n : Nat}

/-- How going on with a dialogue ends: with its result, or with a request for which a ticket was given
out. -/
inductive Advanced (q : Requester σ ι) (d₀ : Dialogue α) (n : Nat) :
    Polled α × Requester σ ι → Prop where
  | ended (m : Nat) (a : α) (q' : Requester σ ι) (hafter : d₀.After m (.done a))
      (hsame : SameRequests q q') : Advanced q d₀ n (.inr a, q')
  | asks (m : Nat) (eid : EndpointId) (request : Request)
      (next : Except RequestError Response → Dialogue α) (e : Entry σ (Purpose ι))
      (r : Registry σ (Purpose ι)) (hm : n ≤ m) (hafter : d₀.After m (.ask eid request next))
      (hopens : q.Opens request e r) :
      Advanced q d₀ n (.inl (.waiting q.nextTicket request next),
        ⟨r, q.awaited.add q.nextTicket, q.nextTicket + 1⟩)

theorem advance_cases [Link σ] (h : q.registry.Owned) (hafter : d₀.After n d) :
    Advanced q d₀ n (advance d q) := by
  induction d generalizing q n with
  | done a => exact .ended n a q hafter ⟨h, rfl, rfl, rfl⟩
  | ask eid request next ih =>
    have hbegun := begin_cases h eid request
    unfold advance
    generalize q.begin eid request = p at hbegun
    cases hbegun with
    | failed e q' hsame hgenuine =>
      -- The dialogue goes on with the failure, in a registry with the same requests.
      have hgoes := ih (.error e) hsame.owned (hafter.answer _ (genuine_error hgenuine))
      dsimp only
      generalize advance (next (.error e)) q' = p at hgoes
      cases hgoes with
      | ended m a q'' hafter' hsame' => exact .ended m a q'' hafter' (hsame.trans hsame')
      | asks m eid' request' next' e' r hm hafter' hopens =>
        rw [hsame.nextTicket, hsame.awaited]
        exact .asks m eid' request' next' e' r (Nat.le_of_succ_le hm) hafter' (hopens.congr hsame)
    | opened e r hopens => exact .asks n eid request next e r (Nat.le_refl n) hafter hopens

/-! ## Stages -/

/-- How far a call has come, by its tickets, what its polls told, and its conversation. -/
inductive Stage (q : Requester σ ι) (ends : List (Ticket × Except RequestError Response))
    (d₀ : Dialogue α) (dropped : Prop) :
    List Ticket → List (Option α) → Option (Conversation α) → Prop where
  | ready : Stage q ends d₀ dropped [] [] (some (.ready d₀))
  | waiting {n : Nat} {t : Ticket} {eid : EndpointId} {request : Request}
      {next : Except RequestError Response → Dialogue α} (earlier : List Ticket)
      (answers : List (Option α)) (hafter : d₀.After n (.ask eid request next))
      (hminds : q.Minds ends t request) (hcount : earlier.length ≤ n)
      (hended : earlier ⊆ ends.map Prod.fst) (hpolled : answers ≠ [])
      (hpending : ∀ r ∈ answers, r = none) :
      Stage q ends d₀ dropped (earlier ++ [t]) answers (some (.waiting t request next))
  | returned {n : Nat} {a : α} (tickets : List Ticket) (answers : List (Option α))
      (hafter : d₀.After n (.done a)) (hended : tickets ⊆ ends.map Prod.fst)
      (hpending : ∀ r ∈ answers, r = none) :
      Stage q ends d₀ dropped tickets (answers ++ [some a]) none
  | dropped (tickets : List Ticket) (answers : List (Option α)) (hdropped : dropped)
      (hsingle : ∀ t ∈ tickets, ∀ t' ∈ tickets, t ∉ ends.map Prod.fst →
        t' ∉ ends.map Prod.fst → t = t')
      (hunpolled : answers = [] → tickets = []) (hpending : ∀ r ∈ answers, r = none) :
      Stage q ends d₀ dropped tickets answers none

variable {dropped dropped' : Prop} {tickets : List Ticket} {answers : List (Option α)}
  {c : Conversation α} {c? : Option (Conversation α)}
  {ends' : List (Ticket × Except RequestError Response)}

theorem Stage.mono (h : Stage q ends d₀ dropped tickets answers c?) (hdropped : dropped → dropped')
    (hends : ends.map Prod.fst ⊆ ends'.map Prod.fst)
    (hminds : ∀ t ∈ tickets, ∀ request, q.Minds ends t request → q'.Minds ends' t request) :
    Stage q' ends' d₀ dropped' tickets answers c? := by
  cases h with
  | ready => exact .ready
  | waiting earlier answers hafter hwaits hcount hended hpolled hpending =>
    exact .waiting earlier answers hafter
      (hminds _ (List.mem_append_right _ (List.mem_singleton_self _)) _ hwaits) hcount
      (List.Subset.trans hended hends) hpolled hpending
  | returned tickets answers hafter hended hpending =>
    exact .returned tickets answers hafter (List.Subset.trans hended hends) hpending
  | dropped tickets answers hd hsingle hunpolled hpending =>
    refine .dropped tickets answers (hdropped hd) (fun t ht t' ht' hnot hnot' => ?_) hunpolled hpending
    exact hsingle t ht t' ht' (fun hmem => hnot (hends hmem)) fun hmem => hnot' (hends hmem)

theorem Stage.single (h : Stage q ends d₀ dropped tickets answers c?) {t t' : Ticket}
    (ht : t ∈ tickets) (ht' : t' ∈ tickets) (hnot : t ∉ ends.map Prod.fst)
    (hnot' : t' ∉ ends.map Prod.fst) : t = t' := by
  cases h with
  | ready => cases ht
  | @waiting n last eid request next earlier answers hafter hminds hcount hended hpolled hpending =>
    have hlast : ∀ t ∈ earlier ++ [last], t ∉ ends.map Prod.fst → t = last := by
      intro t hmem hnot
      exact List.mem_singleton.1 ((List.mem_append.1 hmem).resolve_left fun hold => hnot (hended hold))
    exact (hlast t ht hnot).trans (hlast t' ht' hnot').symm
  | returned tickets answers hafter hended hpending => exact absurd (hended ht) hnot
  | dropped tickets answers hdropped hsingle hunpolled hpending => exact hsingle t ht t' ht' hnot hnot'

theorem Stage.ended (h : Stage q ends d₀ dropped tickets answers c?) {a : α}
    (ha : some a ∈ answers) : tickets ⊆ ends.map Prod.fst := by
  cases h with
  | ready => cases ha
  | waiting earlier answers hafter hminds hcount hended hpolled hpending => cases hpending _ ha
  | returned tickets answers hafter hended hpending => exact hended
  | dropped tickets answers hdropped hsingle hunpolled hpending => cases hpending _ ha

theorem Stage.drop (h : Stage q ends d₀ dropped tickets answers (some c)) (hdropped : dropped') :
    Stage q' ends d₀ dropped' tickets answers none := by
  refine .dropped tickets answers hdropped (fun t ht t' ht' => h.single ht ht') ?_ ?_
  · cases h with
    | ready => exact fun _ => rfl
    | waiting earlier answers hafter hminds hcount hended hpolled hpending =>
      exact fun hnil => absurd hnil hpolled
  · cases h with
    | ready => exact fun r hr => nomatch hr
    | waiting earlier answers hafter hminds hcount hended hpolled hpending => exact hpending

/-! ## Polling -/

/-- What a poll of a call leads to, given the tickets that it had. -/
structure Proceeds (q : Requester σ ι) (ends : List (Ticket × Except RequestError Response))
    (d₀ : Dialogue α) (dropped : Prop) (tickets : List Ticket) (answers : List (Option α))
    (p : Polled α × Requester σ ι) : Prop where
  accounts : p.2.Accounts ends
  next : q.nextTicket ≤ p.2.nextTicket
  stage : Stage p.2 ends d₀ dropped
    (tickets ++ List.range' q.nextTicket (p.2.nextTicket - q.nextTicket))
    (answers ++ [p.1.getRight?]) p.1.getLeft?
  minds : ∀ t ∉ tickets, ∀ request, q.Minds ends t request → p.2.Minds ends t request

theorem pending_append {answers : List (Option α)} (h : ∀ r ∈ answers, r = none) :
    ∀ r ∈ answers ++ [none], r = none := by
  intro r hr
  rcases List.mem_append.1 hr with hold | hnew
  · exact h r hold
  · exact List.mem_singleton.1 hnew

theorem proceeds_advance [Link σ] (hq : q.Accounts ends) (hafter : d₀.After n d)
    (hended : tickets ⊆ ends.map Prod.fst) (hcount : tickets.length ≤ n)
    (hpending : ∀ r ∈ answers, r = none) :
    Proceeds q ends d₀ dropped tickets answers (advance d q) := by
  have hadvanced := advance_cases hq.owned hafter
  generalize advance d q = p at hadvanced
  cases hadvanced with
  | ended m a q' hafter' hsame =>
    refine ⟨hq.congr hsame, Nat.le_of_eq hsame.nextTicket.symm, ?_, fun t _ request h => h.congr hsame⟩
    dsimp only
    rw [hsame.nextTicket, Nat.sub_self, List.range'_zero, List.append_nil]
    exact .returned tickets answers hafter' hended hpending
  | asks m eid request next e r hm hafter' hopens =>
    refine ⟨hopens.accounts hq, Nat.le_succ _, ?_, fun t _ request' h => h.opens hq hopens⟩
    dsimp only
    rw [Nat.add_sub_cancel_left, List.range'_one]
    exact .waiting tickets _ hafter' (hopens.minds hq) (Nat.le_trans hcount hm) hended (by simp)
      (pending_append hpending)

theorem Stage.poll [Link σ] (h : Stage q ends d₀ dropped tickets answers (some c))
    (hq : q.Accounts ends) : Proceeds q ends d₀ dropped tickets answers (q.poll c) := by
  cases h with
  | ready => exact proceeds_advance hq .start (List.nil_subset _) (Nat.le_refl 0) (by simp)
  | @waiting n t eid request next earlier answers hafter hminds hcount hended hpolled hpending =>
    cases hresult : q.awaited.result? t with
    | none =>
      rw [poll_of_none hresult]
      refine ⟨hq, Nat.le_refl _, ?_, fun _ _ _ h => h⟩
      dsimp only
      rw [Nat.sub_self, List.range'_zero, List.append_nil]
      exact .waiting earlier _ hafter hminds hcount hended (by simp) (pending_append hpending)
    | some result =>
      have hmem : (t, result) ∈ ends := by
        rw [hminds.result] at hresult
        exact mem_of_lookup hresult
      rw [poll_of_some hresult, hminds.fits result hmem]
      have hproceeds : Proceeds (q.forget t) ends d₀ dropped (earlier ++ [t]) answers
          (advance (next result) (q.forget t)) := by
        refine proceeds_advance (hq.forget t) (hafter.answer result (hq.genuine _ hmem)) ?_ ?_ hpending
        · refine List.append_subset.2 ⟨hended, fun t' ht' => ?_⟩
          rw [List.mem_singleton.1 ht']
          exact List.mem_map_of_mem hmem
        · rw [List.length_append]
          exact Nat.succ_le_succ hcount
      refine ⟨hproceeds.accounts, hproceeds.next, hproceeds.stage, fun t' ht' request' h => ?_⟩
      refine hproceeds.minds t' ht' request' (h.forget ?_)
      rintro rfl
      exact ht' (List.mem_append_right _ (List.mem_singleton_self _))

end Requester

namespace Diary

open Requester

/-- All tickets are accounted for, each is that of one call, and each call is in one of its stages. -/
structure Consistent (dialogue : κ → Dialogue α) (d : Diary κ σ ι α) : Prop where
  accounts : d.session.requester.Accounts d.ended
  issued : d.issued.map Prod.snd = List.range d.session.requester.nextTicket
  names : (d.session.conversations.map Prod.fst).Nodup
  unknown : ∀ n, d.started[n]? = none →
    d.tickets n = [] ∧ d.answers n = [] ∧ d.session.conversation? n = none
  stage : ∀ n call, d.started[n]? = some call → Stage d.session.requester d.ended (dialogue call)
    (n ∈ d.dropped) (d.tickets n) (d.answers n) (d.session.conversation? n)

variable {dialogue : κ → Dialogue α} {d : Diary κ σ ι α} {n : Nat}

theorem Consistent.eq_of_mem (h : d.Consistent dialogue) {m : Nat} {t : Ticket}
    (hn : t ∈ d.tickets n) (hm : t ∈ d.tickets m) : n = m := by
  have hnodup : (d.issued.map Prod.snd).Nodup := h.issued ▸ List.nodup_range
  exact congrArg Prod.fst (List.inj_on_of_nodup_map hnodup (mem_share.1 hn) (mem_share.1 hm) rfl)

theorem Consistent.lt_of_mem (h : d.Consistent dialogue) {t : Ticket} (ht : t ∈ d.tickets n) :
    t < d.session.requester.nextTicket := by
  have hmem := List.mem_map_of_mem (f := Prod.snd) (mem_share.1 ht)
  rw [h.issued] at hmem
  exact List.mem_range.1 hmem

/-! ## Turns of other calls -/

theorem Consistent.requester (h : d.Consistent dialogue) {q : Requester σ ι}
    {ended : List (Ticket × Except RequestError Response)}
    (haccounts : q.Accounts ended) (hnext : q.nextTicket = d.session.requester.nextTicket)
    (hended : d.ended.map Prod.fst ⊆ ended.map Prod.fst)
    (hminds : ∀ t request, d.session.requester.Minds d.ended t request → q.Minds ended t request) :
    Consistent dialogue
      { d with session := { d.session with requester := q }, ended := ended } :=
  ⟨haccounts, h.issued.trans (by rw [hnext]), h.names, h.unknown, fun n call hcall =>
    (h.stage n call hcall).mono id hended fun t _ request => hminds t request⟩

variable [Link σ]

theorem Consistent.perform (h : d.Consistent dialogue) {action : Action σ}
    (hkeeps : action.keepsIds = true) : (d.perform action).Consistent dialogue := by
  refine h.requester (h.accounts.perform hkeeps) rfl ?_
    fun t request hminds => hminds.perform h.accounts hkeeps
  rw [List.map_append]
  exact List.subset_append_left _ _

theorem Consistent.adjust (h : d.Consistent dialogue) (change : σ → σ) :
    (d.next dialogue (.adjust change)).Consistent dialogue := by
  have hsame := sameRequests_onLink h.accounts.owned change
  exact h.requester (h.accounts.congr hsame) rfl (List.Subset.refl _)
    fun t request hminds => hminds.congr hsame

theorem Consistent.start (h : d.Consistent dialogue) (call : κ) :
    (d.next dialogue (.start call)).Consistent dialogue := by
  obtain ⟨htickets, hanswers, hconversation⟩ :=
    h.unknown d.started.length (List.getElem?_eq_none (Nat.le_refl _))
  have hother : ∀ n, n ≠ d.started.length →
      (d.session.start d.started.length (dialogue call)).conversation? n =
        d.session.conversation? n := by
    intro n hn
    rw [Session.conversation?_start, if_neg hn, Option.or_none]
  refine ⟨h.accounts, h.issued, ?_, fun n hn => ?_, fun n call' hcall => ?_⟩
  · show ((d.session.conversations ++ [(d.started.length, _)]).map Prod.fst).Nodup
    rw [List.map_append]
    refine h.names.append (List.nodup_singleton _) fun n hold hnew => ?_
    obtain rfl := List.mem_singleton.1 hnew
    exact lookup_eq_none.1 hconversation hold
  · change (d.started ++ [call])[n]? = none at hn
    have hlength := List.getElem?_eq_none_iff.1 hn
    rw [List.length_append, List.length_singleton] at hlength
    obtain ⟨ht, ha, hc⟩ := h.unknown n (List.getElem?_eq_none (Nat.le_of_succ_le hlength))
    exact ⟨ht, ha, (hother n (Nat.ne_of_gt hlength)).trans hc⟩
  · change (d.started ++ [call])[n]? = some call' at hcall
    show Stage d.session.requester d.ended (dialogue call') (n ∈ d.dropped) (d.tickets n)
      (d.answers n) ((d.session.start d.started.length (dialogue call)).conversation? n)
    rcases Nat.lt_trichotomy n d.started.length with hlt | rfl | hgt
    · rw [hother n (Nat.ne_of_lt hlt)]
      exact h.stage n call' ((List.getElem?_append_left hlt).symm.trans hcall)
    · rw [List.getElem?_concat_length] at hcall
      obtain rfl := Option.some.inj hcall
      rw [htickets, hanswers, Session.conversation?_start, hconversation, if_pos rfl]
      exact .ready
    · have hlt := (List.getElem?_eq_some_iff.1 hcall).1
      rw [List.length_append, List.length_singleton] at hlt
      exact absurd hgt (Nat.not_lt.2 (Nat.le_of_lt_succ hlt))

omit [Link σ] in
theorem Consistent.exists_call (h : d.Consistent dialogue) {c : Conversation α}
    (hc : d.session.conversation? n = some c) :
    ∃ call, d.started[n]? = some call ∧ Stage d.session.requester d.ended (dialogue call)
      (n ∈ d.dropped) (d.tickets n) (d.answers n) (some c) := by
  cases hcall : d.started[n]? with
  | none => cases (h.unknown n hcall).2.2.symm.trans hc
  | some call => exact ⟨call, rfl, hc ▸ h.stage n call hcall⟩

omit [Link σ] in
theorem Consistent.exists_call_of_polled (h : d.Consistent dialogue) (hpolled : d.answers n ≠ []) :
    ∃ call, d.started[n]? = some call ∧ Stage d.session.requester d.ended (dialogue call)
      (n ∈ d.dropped) (d.tickets n) (d.answers n) (d.session.conversation? n) := by
  cases hcall : d.started[n]? with
  | none => exact absurd (h.unknown n hcall).2.1 hpolled
  | some call => exact ⟨call, rfl, h.stage n call hcall⟩

omit [Link σ] in
theorem Consistent.replace (h : d.Consistent dialogue) {c : Conversation α}
    (hc : d.session.conversation? n = some c) {call : κ} (hcall : d.started[n]? = some call)
    {q : Requester σ ι} {c? : Option (Conversation α)} {dropped : List Nat} {tickets : List Ticket}
    {answers : List (Option α)} (haccounts : q.Accounts d.ended)
    (htickets : (List.range d.session.requester.nextTicket) ++ tickets = List.range q.nextTicket)
    (hdropped : d.dropped ⊆ dropped)
    (hstage : Stage q d.ended (dialogue call) (n ∈ dropped) (d.tickets n ++ tickets)
      (d.answers n ++ answers) c?)
    (hminds : ∀ t ∉ d.tickets n, ∀ request,
      d.session.requester.Minds d.ended t request → q.Minds d.ended t request) :
    Consistent dialogue
      { d with
        session := ⟨q, Session.put d.session.conversations n c?⟩
        dropped := dropped
        issued := d.issued ++ tickets.map fun t => (n, t)
        told := d.told ++ answers.map fun r => (n, r) } := by
  refine ⟨haccounts, ?_, Session.names_put_sublist.nodup h.names, fun m hm => ?_,
    fun m call' hcall' => ?_⟩
  · show (d.issued ++ _).map Prod.snd = _
    rw [List.map_append, h.issued, List.map_map, ← htickets]
    exact congrArg _ (List.map_id _)
  · have hne : m ≠ n := by
      rintro rfl
      cases hm.symm.trans hcall
    obtain ⟨ht, ha, hnone⟩ := h.unknown m hm
    refine ⟨?_, ?_, (Session.lookup_put_of_ne hne).trans hnone⟩
    · show share m (d.issued ++ _) = []
      rw [share_append, share_map, if_neg hne, List.append_nil]
      exact ht
    · show share m (d.told ++ _) = []
      rw [share_append, share_map, if_neg hne, List.append_nil]
      exact ha
  · show Stage q d.ended (dialogue call') (m ∈ dropped) (share m (d.issued ++ _))
      (share m (d.told ++ _)) ((Session.put d.session.conversations n c?).lookup m)
    rw [share_append, share_append, share_map, share_map, Session.lookup_put h.names hc]
    by_cases hm : m = n
    · subst hm
      obtain rfl := Option.some.inj (hcall.symm.trans hcall')
      rw [if_pos rfl, if_pos rfl, if_pos rfl]
      exact hstage
    · rw [if_neg hm, if_neg hm, if_neg hm, List.append_nil, List.append_nil]
      refine (h.stage m call' hcall').mono (fun hold => hdropped hold) (List.Subset.refl _) ?_
      intro t ht request
      -- A ticket is of one call only, so the tickets of another call are not those that changed.
      exact hminds t (fun hn => hm (h.eq_of_mem ht hn)) request

omit [Link σ] in
theorem abandon_minds {q : Requester σ ι} {ended : List (Ticket × Except RequestError Response)}
    {d₀ : Dialogue α} {dropped : Prop} {tickets : List Ticket} {answers : List (Option α)}
    {c : Conversation α} (hq : q.Accounts ended)
    (h : Stage q ended d₀ dropped tickets answers (some c)) :
    (q.abandon c).Accounts ended ∧ (q.abandon c).nextTicket = q.nextTicket ∧
      ∀ t ∉ tickets, ∀ request, q.Minds ended t request → (q.abandon c).Minds ended t request := by
  cases h with
  | ready => exact ⟨hq, rfl, fun _ _ _ h => h⟩
  | waiting earlier answers hafter hminds hcount hended hpolled hpending =>
    refine ⟨hq.forget _, rfl, fun t ht request h => h.forget ?_⟩
    rintro rfl
    exact ht (List.mem_append_right _ (List.mem_singleton_self _))

theorem Consistent.drop (h : d.Consistent dialogue) (n : Nat) :
    (d.next dialogue (.drop n)).Consistent dialogue := by
  cases hc : d.session.conversation? n with
  | none =>
    rw [next_drop_none h.names hc]
    exact h
  | some c =>
    obtain ⟨call, hcall, hstage⟩ := h.exists_call hc
    obtain ⟨haccounts, hnext, hminds⟩ := abandon_minds h.accounts hstage
    have hstage' : Stage (d.session.requester.abandon c) d.ended (dialogue call) (n ∈ d.dropped ++ [n])
        (d.tickets n ++ []) (d.answers n ++ []) none := by
      rw [List.append_nil, List.append_nil]
      exact hstage.drop (List.mem_append_right _ (List.mem_singleton_self n))
    have hreplace := h.replace hc hcall haccounts (by rw [hnext, List.append_nil])
      (List.subset_append_left _ _) hstage' hminds
    rw [next_drop_some h.names hc]
    rw [List.map_nil, List.map_nil, List.append_nil, List.append_nil] at hreplace
    exact hreplace

theorem Consistent.poll (h : d.Consistent dialogue) (n : Nat) :
    (d.next dialogue (.poll n)).Consistent dialogue := by
  cases hc : d.session.conversation? n with
  | none =>
    rw [next_poll_none h.names hc]
    exact h
  | some c =>
    obtain ⟨call, hcall, hstage⟩ := h.exists_call hc
    obtain ⟨haccounts, hnext, hstage', hminds⟩ := hstage.poll h.accounts
    rw [next_poll_some h.names hc]
    refine h.replace hc hcall haccounts ?_ (List.Subset.refl _) hstage' hminds
    obtain ⟨count, hcount⟩ := Nat.exists_eq_add_of_le hnext
    rw [hcount, Nat.add_sub_cancel_left, List.range_add, List.range'_eq_map_range]

theorem Consistent.next (h : d.Consistent dialogue) (turn : Turn κ σ) :
    (d.next dialogue turn).Consistent dialogue := by
  cases turn with
  | start call => exact h.start call
  | poll n => exact h.poll n
  | drop n => exact h.drop n
  | inbound eid msg => exact h.perform rfl
  | update now => exact h.perform rfl
  | adjust change => exact h.adjust change

theorem consistent_after {link : σ} {policy : Policy} {q : Requester σ ι} {warnings : List Warning}
    (h : Requester.create link policy = .ok (q, warnings)) (turns : List (Turn κ σ)) :
    (after dialogue q turns).Consistent dialogue := by
  suffices hrun : ∀ d : Diary κ σ ι α, d.Consistent dialogue →
      (turns.foldl (next dialogue) d).Consistent dialogue by
    rw [create_eq h]
    refine hrun _ ⟨⟨⟨rfl, by simp⟩, Registry.owned_nil rfl rfl, List.Perm.refl _, by simp, by simp⟩,
      rfl, List.nodup_nil, fun n _ => ⟨rfl, rfl, rfl⟩, fun n call hcall => ?_⟩
    cases hcall
  induction turns with
  | nil => exact fun d h => h
  | cons turn turns ih => exact fun d h => ih _ (h.next turn)

end Diary

end PlatformMessaging

import PlatformMessaging.Proofs.Requester.Calls
import PlatformMessaging.Proofs.Requester.Tickets

/-!
# Conversations get what their dialogues ask for

A conversation `Follows` a dialogue if it is what the answers of a terminus have left of it, and if
its ticket is served. Polling it leads on, or ends it with a result that is `Fair`: one that the
dialogue ends with when everything is answered, or one that tells of a lost request. Whatever happens
on the network keeps this of every conversation at once (`World.Run.faithful`).

The first request of a conversation gets the instance ID that is the next one when the conversation
is polled first. `World.PolledAt` says of a run that this was a given ID.
-/

namespace PlatformMessaging

variable {τ ι ν α : Type} {f : Terminus} {tells : RequestError → α → Prop}
  {ids ids' : EndpointId → InstanceId → Prop} {dialogue : ν → Dialogue α}

namespace Dialogue

/-- The answers of a terminus, the first under one of some IDs, lead from a dialogue to another: each
result of the second is one of the first. -/
def Leads (f : Terminus) (ids : EndpointId → InstanceId → Prop) (d d' : Dialogue α) : Prop :=
  ∀ a, d'.Answered f a → d.AnsweredFrom f ids a

/-- The result is one that a terminus's answers lead to, or it tells of a lost request. -/
def Fair (f : Terminus) (tells : RequestError → α → Prop) (ids : EndpointId → InstanceId → Prop)
    (d : Dialogue α) (a : α) : Prop :=
  (∃ e : RequestError, e.IsLost ∧ tells e a) ∨ d.AnsweredFrom f ids a

theorem Fair.mono {d : Dialogue α} {a : α} (h : d.Fair f tells ids a)
    (hids : ∀ eid iid, ids eid iid → ids' eid iid) : d.Fair f tells ids' a :=
  h.imp_right fun ha => ha.mono hids

end Dialogue

namespace Requester

variable {q q' : Requester (Recorder τ) ι} {d₀ d : Dialogue α} {c : Conversation α}

/-- The conversation is what is left of a dialogue, and is told the truth. -/
inductive Follows (f : Terminus) (tells : RequestError → α → Prop)
    (ids : EndpointId → InstanceId → Prop) (q : Requester (Recorder τ) ι) (d₀ : Dialogue α) :
    Conversation α → Prop where
  | ready (hrelays : d₀.Relays tells) : Follows f tells ids q d₀ (.ready d₀)
  | waiting (t : Ticket) (eid : EndpointId) (iid : InstanceId) (request : Request)
      (next : Except RequestError Response → Dialogue α)
      (hleads : d₀.Leads f ids (next (.ok (f.response eid iid request))))
      (hrelays : (Dialogue.ask eid request next).Relays tells)
      (hserves : q.Serves f t eid iid request) :
      Follows f tells ids q d₀ (.waiting t request next)

theorem Follows.keeps (h : Follows f tells ids q d₀ c) (hkeeps : Keeps f q q') :
    Follows f tells ids q' d₀ c := by
  cases h with
  | ready hrelays => exact .ready hrelays
  | waiting t eid iid request next hleads hrelays hserves =>
    exact .waiting t eid iid request next hleads hrelays (hkeeps t eid iid request hserves)

theorem Follows.mono (h : Follows f tells ids q d₀ c)
    (hids : ∀ eid iid, ids eid iid → ids' eid iid) : Follows f tells ids' q d₀ c := by
  cases h with
  | ready hrelays => exact .ready hrelays
  | waiting t eid iid request next hleads hrelays hserves =>
    exact .waiting t eid iid request next (fun a ha => (hleads a ha).mono hids) hrelays hserves

/-- What a poll leaves of the requester and of the conversation. -/
structure Polls (f : Terminus) (tells : RequestError → α → Prop)
    (ids : EndpointId → InstanceId → Prop) (q : Requester (Recorder τ) ι) (d₀ : Dialogue α)
    (p : Polled α × Requester (Recorder τ) ι) : Prop where
  orderly : p.2.Orderly
  first : p.2.registry.link.first = q.registry.link.first
  keeps : Keeps f q p.2
  follows : ∀ c, p.1 = .inl c → Follows f tells ids p.2 d₀ c
  fair : ∀ a, p.1 = .inr a → d₀.Fair f tells ids a

theorem polls_ended {a : α} (horderly : q'.Orderly)
    (hfirst : q'.registry.link.first = q.registry.link.first) (hkeeps : Keeps f q q')
    (hfair : d₀.Fair f tells ids a) : Polls f tells ids q d₀ (.inr a, q') :=
  ⟨horderly, hfirst, hkeeps, fun _ h => (Sum.inr_ne_inl h).elim,
    fun _ h => Sum.inr.inj h ▸ hfair⟩

theorem polls_waits (horderly : q'.Orderly)
    (hfirst : q'.registry.link.first = q.registry.link.first) (hkeeps : Keeps f q q')
    (hfollows : Follows f tells ids q' d₀ c) : Polls f tells ids q d₀ (.inl c, q') :=
  ⟨horderly, hfirst, hkeeps, fun _ h => Sum.inl.inj h ▸ hfollows,
    fun _ h => (Sum.inl_ne_inr h).elim⟩

/-- A request of the dialogue gets the next instance ID of the requester. -/
theorem advance_polls [Link τ] (h : q.Orderly) (hfirst : q.registry.link.first = true)
    (hleads : ∀ a, d.AnsweredFrom f q.Offers a → d₀.AnsweredFrom f ids a)
    (hrelays : d.Relays tells) : Polls f tells ids q d₀ (advance d q) := by
  cases hrelays with
  | done a => exact polls_ended h rfl (.refl f q) (.inr (hleads a (.done a)))
  | @ask eid request next herror hok =>
    have hbegins := begin_orderly f h hfirst eid request
    unfold advance
    rcases hbegin : q.begin eid request with ⟨result, q'⟩
    rw [hbegin] at hbegins
    obtain ⟨horderly, hmark, hkeeps, hresult⟩ := hbegins
    rcases hresult with ⟨t, i, rfl, htyp, hoffers, hserves⟩ | ⟨e, rfl, hfailure⟩
    · exact polls_waits horderly hmark hkeeps (.waiting t eid _ request next
        (fun a ha => hleads a (.ask i hoffers htyp ha)) (.ask herror hok) hserves)
    · obtain ⟨a, ha, htells⟩ := herror e
      dsimp only
      rw [ha]
      refine polls_ended horderly hmark hkeeps ?_
      rcases hfailure with hlost | ⟨rfl, htyp⟩
      · exact .inl ⟨e, hlost, htells⟩
      · exact .inr (hleads a (.unsendable htyp (ha ▸ .done a)))

theorem poll_of_none {σ : Type} [Link σ] {q : Requester σ ι} {t : Ticket}
    (h : q.awaited.result? t = none) (request : Request)
    (next : Except RequestError Response → Dialogue α) :
    q.poll (.waiting t request next) = (.inl (.waiting t request next), q) := by
  unfold poll
  dsimp only
  rw [h]

theorem poll_of_some {σ : Type} [Link σ] {q : Requester σ ι} {t : Ticket}
    {result : Except RequestError Response} (h : q.awaited.result? t = some result)
    (request : Request) (next : Except RequestError Response → Dialogue α) :
    q.poll (.waiting t request next) =
      advance (next (checkAnswer request result)) (q.forget t) := by
  unfold poll
  dsimp only
  rw [h]

theorem checkAnswer_response (f : Terminus) (eid : EndpointId) (iid : InstanceId)
    (request : Request) :
    checkAnswer request (.ok (f.response eid iid request)) = .ok (f.response eid iid request) := by
  unfold checkAnswer Terminus.response
  simp

theorem poll_polls [Link τ] (h : q.Orderly) (hfirst : q.registry.link.first = true)
    (hc : Follows f tells ids q d₀ c)
    (hready : c = .ready d₀ → ∀ eid iid, q.Offers eid iid → ids eid iid) :
    Polls f tells ids q d₀ (q.poll c) := by
  cases hc with
  | ready hrelays => exact advance_polls h hfirst (fun a ha => ha.mono (hready rfl)) hrelays
  | waiting t eid iid request next hleads hrelays hserves =>
    cases hresult : q.awaited.result? t with
    | none =>
      rw [poll_of_none hresult]
      exact polls_waits h rfl (.refl f q) (.waiting t eid iid request next hleads hrelays hserves)
    | some result =>
      rw [poll_of_some hresult]
      obtain ⟨herror, hok⟩ := hrelays.of_ask
      rcases hserves.result result hresult with rfl | rfl
      · obtain ⟨a, ha, htells⟩ := herror .timedOut
        show Polls f tells ids q d₀ (advance (next (.error .timedOut)) (q.forget t))
        rw [ha]
        exact polls_ended (h.forget t) rfl (keeps_forget f q t) (.inl ⟨.timedOut, trivial, htells⟩)
      · rw [checkAnswer_response]
        obtain ⟨horderly, hmark, hkeeps, hfollows, hfair⟩ :=
          advance_polls (h.forget t) hfirst (fun a ha => hleads a ha.answered) (hok _)
        exact ⟨horderly, hmark, (keeps_forget f q t).trans hkeeps, hfollows, hfair⟩

end Requester

/-! ## Sessions -/

namespace Session

open Requester

/-- Each conversation of a session follows the dialogue that belongs to its name. -/
structure Truthful (f : Terminus) (tells : RequestError → α → Prop)
    (ids : ν → EndpointId → InstanceId → Prop) (dialogue : ν → Dialogue α)
    (s : Session (Recorder τ) ι ν α) : Prop where
  orderly : s.requester.Orderly
  follows : ∀ p ∈ s.conversations, Follows f tells (ids p.1) s.requester (dialogue p.1) p.2

variable {ids ids' : ν → EndpointId → InstanceId → Prop}

theorem Truthful.keeps {s : Session (Recorder τ) ι ν α} (h : s.Truthful f tells ids dialogue)
    {q : Requester (Recorder τ) ι} (hq : q.Orderly) (hkeeps : Keeps f s.requester q) :
    Truthful f tells ids dialogue { s with requester := q } :=
  ⟨hq, fun p hp => (h.follows p hp).keeps hkeeps⟩

theorem Truthful.mono {s : Session (Recorder τ) ι ν α} (h : s.Truthful f tells ids dialogue)
    (hids : ∀ name eid iid, ids name eid iid → ids' name eid iid) :
    s.Truthful f tells ids' dialogue :=
  ⟨h.orderly, fun p hp => (h.follows p hp).mono (hids p.1)⟩

theorem requester_pollEach_cons {σ : Type} [Link σ] (chosen : ν → Bool) (name : ν)
    (c : Conversation α) (rest : List (ν × Conversation α)) (q : Requester σ ι) :
    (pollEach chosen ((name, c) :: rest) q).2.requester =
      (pollEach chosen rest (if chosen name then (q.poll c).2 else q)).2.requester := by
  rw [pollEach]
  split_ifs
  · split
    · rename_i hpoll
      rw [hpoll]
    · rename_i hpoll
      rw [hpoll]
  · rfl

/-- The IDs of conversations that were not polled yet include the next ones at their turns. -/
def Covers [Link τ] (ids : ν → EndpointId → InstanceId → Prop) (dialogue : ν → Dialogue α)
    (chosen : ν → Bool) (conversations : List (ν × Conversation α)) (q : Requester (Recorder τ) ι) :
    Prop :=
  ∀ before name after, conversations = before ++ (name, .ready (dialogue name)) :: after →
    chosen name = true → ∀ eid iid,
      (pollEach chosen before q).2.requester.Offers eid iid → ids name eid iid

theorem Covers.tail [Link τ] {chosen : ν → Bool} {name : ν} {c : Conversation α}
    {rest : List (ν × Conversation α)} {q : Requester (Recorder τ) ι}
    (h : Covers ids dialogue chosen ((name, c) :: rest) q) :
    Covers ids dialogue chosen rest (if chosen name then (q.poll c).2 else q) := by
  intro before name' after hrest hchosen eid iid hoffers
  refine h ((name, c) :: before) name' after (by rw [hrest]; rfl) hchosen eid iid ?_
  rw [requester_pollEach_cons]
  exact hoffers

theorem pollEach_truthful [Link τ] (chosen : ν → Bool)
    (conversations : List (ν × Conversation α)) {q : Requester (Recorder τ) ι} (hq : q.Orderly)
    (hfirst : q.registry.link.first = true)
    (hfollows : ∀ p ∈ conversations, Follows f tells (ids p.1) q (dialogue p.1) p.2)
    (hcovers : Covers ids dialogue chosen conversations q) :
    (pollEach chosen conversations q).2.Truthful f tells ids dialogue ∧
      Keeps f q (pollEach chosen conversations q).2.requester ∧
      ∀ name a, (name, some a) ∈ (pollEach chosen conversations q).1 →
        (dialogue name).Fair f tells (ids name) a := by
  induction conversations generalizing q with
  | nil => exact ⟨⟨hq, by simp [pollEach]⟩, .refl f q, by simp [pollEach]⟩
  | cons p rest ih =>
    obtain ⟨name, c⟩ := p
    have hc : Follows f tells (ids name) q (dialogue name) c := hfollows _ List.mem_cons_self
    have hrest : ∀ p ∈ rest, Follows f tells (ids p.1) q (dialogue p.1) p.2 :=
      fun p hp => hfollows p (List.mem_cons_of_mem _ hp)
    have htail := hcovers.tail
    unfold pollEach
    by_cases hchosen : chosen name = true
    · rw [if_pos hchosen] at htail ⊢
      -- At the turn of the head, nothing of the list has been polled.
      have hready : c = .ready (dialogue name) → ∀ eid iid, q.Offers eid iid → ids name eid iid := by
        rintro rfl
        exact hcovers [] name rest rfl hchosen
      have hpolls := poll_polls hq hfirst hc hready
      rcases hpoll : q.poll c with ⟨polled, q'⟩
      rw [hpoll] at hpolls htail
      obtain ⟨horderly, hmark, hkeeps, hleft, hfair⟩ := hpolls
      obtain ⟨hsession, hkeeps', htold⟩ := ih horderly (hmark.trans hfirst)
        (fun p hp => (hrest p hp).keeps hkeeps) htail
      rcases polled with c' | a
      · refine ⟨⟨hsession.orderly, ?_⟩, hkeeps.trans hkeeps', ?_⟩
        · intro p hp
          rcases List.mem_cons.1 hp with rfl | hp
          · exact (hleft c' rfl).keeps hkeeps'
          · exact hsession.follows p hp
        · intro name' a' hmem
          rcases List.mem_cons.1 hmem with heq | hmem
          · cases heq
          · exact htold name' a' hmem
      · refine ⟨hsession, hkeeps.trans hkeeps', ?_⟩
        intro name' a' hmem
        rcases List.mem_cons.1 hmem with heq | hmem
        · obtain ⟨rfl, hsome⟩ := Prod.mk.inj heq
          obtain rfl := Option.some.inj hsome
          exact hfair a' rfl
        · exact htold name' a' hmem
    · rw [if_neg hchosen] at htail ⊢
      obtain ⟨hsession, hkeeps, htold⟩ := ih hq hfirst hrest htail
      refine ⟨⟨hsession.orderly, ?_⟩, hkeeps, htold⟩
      intro p hp
      rcases List.mem_cons.1 hp with rfl | hp
      · exact hc.keeps hkeeps
      · exact hsession.follows p hp

theorem abandon_orderly (f : Terminus) {q : Requester (Recorder τ) ι} (h : q.Orderly)
    (c : Conversation α) : (q.abandon c).Orderly ∧ Keeps f q (q.abandon c) := by
  cases c with
  | ready d => exact ⟨h, .refl f q⟩
  | waiting t request next => exact ⟨h.forget t, keeps_forget f q t⟩

theorem foldl_abandon_orderly (f : Terminus) (dropped : List (ν × Conversation α))
    {q : Requester (Recorder τ) ι} (h : q.Orderly) :
    (dropped.foldl (fun q c => q.abandon c.2) q).Orderly ∧
      Keeps f q (dropped.foldl (fun q c => q.abandon c.2) q) := by
  induction dropped generalizing q with
  | nil => exact ⟨h, .refl f q⟩
  | cons p rest ih =>
    obtain ⟨horderly, hkeeps⟩ := abandon_orderly f h p.2
    obtain ⟨horderly', hkeeps'⟩ := ih horderly
    exact ⟨horderly', hkeeps.trans hkeeps'⟩

theorem drop_truthful {s : Session (Recorder τ) ι ν α} (h : s.Truthful f tells ids dialogue)
    (chosen : ν → Bool) : (s.drop chosen).2.Truthful f tells ids dialogue := by
  unfold drop
  rw [List.partition_eq_filter_filter]
  obtain ⟨horderly, hkeeps⟩ :=
    foldl_abandon_orderly f (s.conversations.filter fun c => chosen c.1) h.orderly
  exact ⟨horderly, fun p hp => (h.follows p (List.mem_of_mem_filter hp)).keeps hkeeps⟩

end Session

namespace World

open Requester

/-- One world comes after another. -/
inductive Later [Link τ] (f : Terminus) (dialogue : ν → Dialogue α) (w : World τ ι ν α) :
    World τ ι ν α → Prop where
  | refl : Later f dialogue w w
  | next {w' : World τ ι ν α} (h : Later f dialogue w w') (happening : Happening τ ν)
      (htimely : happening.Timely w'.letters) : Later f dialogue w (w'.next f dialogue happening)

/-- On the way to a world, a conversation was polled for the first time when an instance ID was the
next one for an endpoint. -/
def PolledAt [Link τ] (f : Terminus) (dialogue : ν → Dialogue α) (q : Requester (Recorder τ) ι)
    (w : World τ ι ν α) (name : ν) (eid : EndpointId) (iid : InstanceId) : Prop :=
  ∃ (w₀ : World τ ι ν α) (chosen : ν → Bool) (before after : List (ν × Conversation α)),
    Run f dialogue q w₀ ∧ Later f dialogue (w₀.next f dialogue (.poll chosen)) w ∧
    w₀.session.conversations = before ++ (name, .ready (dialogue name)) :: after ∧
    chosen name = true ∧
    (Session.pollEach chosen before (w₀.mark true).requester).2.requester.Offers eid iid

theorem PolledAt.next [Link τ] {q : Requester (Recorder τ) ι} {w : World τ ι ν α} {name : ν}
    {eid : EndpointId} {iid : InstanceId} (h : PolledAt f dialogue q w name eid iid)
    {happening : Happening τ ν} (htimely : happening.Timely w.letters) :
    PolledAt f dialogue q (w.next f dialogue happening) name eid iid := by
  obtain ⟨w₀, chosen, before, after, hrun, hlater, hpolled⟩ := h
  exact ⟨w₀, chosen, before, after, hrun, hlater.next happening htimely, hpolled⟩

/-- Each conversation follows the dialogue that belongs to its name, and each that ended told of one
of its results or of a lost request. -/
structure Faithful [Link τ] (f : Terminus) (tells : RequestError → α → Prop)
    (dialogue : ν → Dialogue α) (q : Requester (Recorder τ) ι) (w : World τ ι ν α) : Prop where
  session : w.session.Truthful f tells (PolledAt f dialogue q w) dialogue
  told : ∀ name a, (name, a) ∈ w.told →
    (dialogue name).Fair f tells (PolledAt f dialogue q w name) a

theorem Faithful.next [Link τ] (hrelays : ∀ name, (dialogue name).Relays tells)
    {q : Requester (Recorder τ) ι} {w : World τ ι ν α} (hrun : Run f dialogue q w)
    (h : w.Faithful f tells dialogue q) {happening : Happening τ ν}
    (htimely : happening.Timely w.letters) :
    (w.next f dialogue happening).Faithful f tells dialogue q := by
  have hids : ∀ name eid iid, PolledAt f dialogue q w name eid iid →
      PolledAt f dialogue q (w.next f dialogue happening) name eid iid :=
    fun _ _ _ hpolled => hpolled.next htimely
  have hsession := h.session.mono hids
  have htold := fun name a hmem => (h.told name a hmem).mono (hids name)
  have hrequester := hsession.orderly
  have hmark : ∀ first, (w.mark first).Truthful f tells
      (PolledAt f dialogue q (w.next f dialogue happening)) dialogue := fun first =>
    hsession.keeps (hrequester.onLink fun _ => rfl) (keeps_onLink f _ _)
  cases happening with
  | start name =>
    refine ⟨⟨hrequester, ?_⟩, htold⟩
    intro p hp
    rcases List.mem_append.1 hp with hold | hnew
    · exact hsession.follows p hold
    · obtain rfl := List.mem_singleton.1 hnew
      exact .ready (hrelays name)
  | poll chosen =>
    -- A conversation that is polled for the first time is polled so in this step.
    have hcovers : Session.Covers (PolledAt f dialogue q (w.next f dialogue (.poll chosen))) dialogue
        chosen (w.mark true).conversations (w.mark true).requester :=
      fun before name after hconversations hchosen eid iid hoffers =>
        ⟨w, chosen, before, after, hrun, .refl, hconversations, hchosen, hoffers⟩
    obtain ⟨hpolled, -, hfair⟩ := Session.pollEach_truthful chosen
      (w.mark true).conversations (hmark true).orderly rfl (hmark true).follows hcovers
    refine ⟨hpolled, ?_⟩
    intro name a hmem
    rcases List.mem_append.1 hmem with hold | hnew
    · exact htold name a hold
    · obtain ⟨⟨name', result⟩, hp, hresult⟩ := List.mem_filterMap.1 hnew
      obtain ⟨a', rfl, heq⟩ := Option.map_eq_some_iff.1 hresult
      obtain ⟨rfl, rfl⟩ := Prod.mk.inj heq
      exact hfair name' a' hp
  | drop chosen => exact ⟨Session.drop_truthful hsession chosen, htold⟩
  | update now =>
    obtain ⟨horderly, hkeeps⟩ := update_orderly f (hmark false).orderly rfl now
    exact ⟨(hmark false).keeps horderly hkeeps, htold⟩
  | deliver l =>
    unfold World.next at hsession htold ⊢
    dsimp only at hsession htold ⊢
    split
    · rename_i hreply
      rw [hreply] at hsession htold
      exact ⟨hsession, htold⟩
    · rename_i reply hreply
      rw [hreply] at hsession htold
      obtain ⟨horderly, hkeeps⟩ := inbound_orderly f hrequester htimely hreply
      exact ⟨hsession.keeps horderly hkeeps, htold⟩
  | adjust change =>
    exact ⟨hsession.keeps (hrequester.onLink fun _ => rfl) (keeps_onLink f _ _), htold⟩

theorem Run.faithful [Link τ] (hrelays : ∀ name, (dialogue name).Relays tells)
    {q : Requester (Recorder τ) ι} (hq : q.Orderly) {w : World τ ι ν α}
    (h : Run f dialogue q w) : w.Faithful f tells dialogue q := by
  induction h with
  | start => exact ⟨⟨hq, by simp⟩, by simp⟩
  | next h happening htimely ih => exact ih.next hrelays h htimely

end World

end PlatformMessaging

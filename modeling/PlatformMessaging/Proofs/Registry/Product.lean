import PlatformMessaging.Proofs.Registry.Settling

/-!
# A registry is made of its requests

What can be seen of a request are its attempts and its end (`Sighting`). `Entry.fare` says what
becomes of a single request in an action and what is seen of it. A look at a request's timers comes
out the same with any link (`Entry.visit_link`), so that requests do not meet through the link that
they share: with programs that do nothing, an action does to a registry what it does to each of its
requests (`Registry.Tidy.perform_act`).

An `update` first marks what ran out of time and finishes it afterwards. So what is settled is counted
(`Machine.Settled`): what has been seen, with the ends of the requests that are marked. That is what
no step changes (`Settled.step`).
-/

namespace PlatformMessaging

open Slots

variable {σ ι : Type}

/-! ## What is seen of a request -/

/-- What can be seen of a request: its message is offered to the link, or its end is told. -/
inductive Sighting (ι : Type) where
  | sent (label : ι) (key : Key) (msg : Bytes)
  | ended (label : ι) (key : Key) (result : Except RequestError Response)
  deriving DecidableEq

namespace Sighting

def label : Sighting ι → ι
  | sent label _ _ => label
  | ended label _ _ => label

end Sighting

/-- What an event shows of a request, without the answer of the link. -/
def Event.sighting? : Event ι → Option (Sighting ι)
  | .attempt label key msg _ _ => some (.sent label key msg)
  | .completed label key result _ _ => some (.ended label key result)
  | _ => none

def sightings (events : List (Event ι)) : List (Sighting ι) :=
  events.filterMap Event.sighting?

theorem sightings_append (a b : List (Event ι)) : sightings (a ++ b) = sightings a ++ sightings b :=
  List.filterMap_append

theorem sightings_eq_nil {events : List (Event ι)}
    (h : ∀ event ∈ events, event.sighting? = none) : sightings events = [] :=
  List.filterMap_eq_nil_iff.2 h

/-! ## What is seen apart from the link -/

/-- The event without the link's answer to an attempt. The warning that a resend failed is nothing
else. -/
def Event.veiled : Event ι → Option (Event ι)
  | .attempt label key msg _ clock => some (.attempt label key msg (.ok ()) clock)
  | .warning (.resendFailed ..) => none
  | event => some event

/-- Events without what the link answered in them. -/
def veil (events : List (Event ι)) : List (Event ι) :=
  events.filterMap Event.veiled

theorem veil_append (a b : List (Event ι)) : veil (a ++ b) = veil a ++ veil b :=
  List.filterMap_append

theorem sightings_veil (events : List (Event ι)) : sightings (veil events) = sightings events := by
  unfold sightings veil
  rw [List.filterMap_filterMap]
  refine List.filterMap_congr fun event _ => ?_
  rcases event with _ | _ | (_ | _ | _) | _ | _ <;> rfl

/-! ## What becomes of a single request -/

/-- The key whose request an action completes, and with which result. -/
def Action.answer? : Action σ → Option (Key × Except RequestError Response)
  | .respond key rest => some (key, key.read rest)
  | .inbound eid msg =>
    match Header.decode msg with
    | .error _ => none
    | .ok (h, rest) =>
      if h.request then none
      else some (⟨eid, h.iid, h.typ, h.cmd⟩, Key.read ⟨eid, h.iid, h.typ, h.cmd⟩ rest)
  | .cancel key => some (key, .error .cancelled)
  | _ => none

def Action.clock (now : Nat) : Action σ → Nat
  | .update later => if later < now then now else min later Clock.top
  | _ => now

namespace Entry

/-- The end of a request that ran out of time. -/
def lapsed (e : Entry σ ι) : Sighting ι :=
  .ended e.label e.key (.error .timedOut)

/-- What a look at the timers leaves of a request, and what is seen of it. -/
def fareAt [Link σ] (link : σ) (now timeout : Nat) (e : Entry σ ι) :
    List (Entry σ ι) × List (Sighting ι) :=
  let v := e.visit link now timeout
  if v.entry.isLive then ([v.entry], sightings v.events)
  else ([], sightings v.events ++ [v.entry.lapsed])

/-- What an action leaves of a request, and what is seen of it: an `update` looks at its timers, a
response to it or its cancellation ends it, and nothing else concerns it. -/
def fare [Link σ] (link : σ) (now timeout : Nat) (action : Action σ) (e : Entry σ ι) :
    List (Entry σ ι) × List (Sighting ι) :=
  match action with
  | .update later => e.fareAt link (Action.clock now (.update later : Action σ)) timeout
  | action =>
    match action.answer? with
    | none => ([e], [])
    | some (key, result) => if e.key = key then ([], [.ended e.label key result]) else ([e], [])

end Entry

theorem Action.answers_iff {action : Action σ} {key : Key} {result : Except RequestError Response} :
    action.Answers key result ↔ action.answer? = some (key, result) := by
  constructor
  · intro h
    cases h with
    | cancel key => rfl
    | delivers h =>
      cases h with
      | respond key rest => rfl
      | inbound eid msg h rest hdecode hresponse => simp [answer?, hdecode, hresponse]
  · intro h
    cases action with
    | respond key' rest =>
      obtain ⟨rfl, rfl⟩ := Prod.mk.inj (Option.some.inj h)
      exact .delivers (.respond key' rest)
    | inbound eid msg =>
      unfold answer? at h
      dsimp only at h
      split at h
      · cases h
      · rename_i header rest hdecode
        split_ifs at h with hrequest
        obtain ⟨rfl, rfl⟩ := Prod.mk.inj (Option.some.inj h)
        exact .delivers (.inbound eid msg header rest hdecode (by simpa using hrequest))
    | cancel key' =>
      obtain ⟨rfl, rfl⟩ := Prod.mk.inj (Option.some.inj h)
      exact .cancel key'
    | _ => cases h

namespace Transaction

theorem poll_link [Link σ] {γ : Type} (t : Transaction γ) (link link' : σ) (now timeout : Nat) :
    (t.poll link now timeout).progress = (t.poll link' now timeout).progress ∧
      (t.poll link now timeout).transaction = (t.poll link' now timeout).transaction ∧
      (t.poll link now timeout).resent.isSome = (t.poll link' now timeout).resent.isSome := by
  unfold poll
  split
  · exact ⟨rfl, rfl, rfl⟩
  · split <;> exact ⟨rfl, rfl, rfl⟩

end Transaction

namespace Entry

variable [Link σ]

omit [Link σ] in
theorem veil_resendEvents (e : Entry σ ι) (now : Nat) (p : Transaction.Poll σ (Program σ ι)) :
    veil (e.resendEvents now p) =
      if p.resent.isSome then [.attempt e.label e.key e.transaction.request (.ok ()) now] else [] := by
  obtain ⟨progress, t, link, resent⟩ := p
  rcases resent with _ | _ | _ <;> rfl

omit [Link σ] in
theorem sightings_resendEvents (e : Entry σ ι) (now : Nat)
    (p : Transaction.Poll σ (Program σ ι)) :
    sightings (e.resendEvents now p) =
      if p.resent.isSome then [.sent e.label e.key e.transaction.request] else [] := by
  rw [← sightings_veil, veil_resendEvents]
  split_ifs <;> rfl

theorem fare_of_answer?_eq_none {action : Action σ} (hanswer : action.answer? = none)
    (hupdate : ¬∃ now, action = .update now) (e : Entry σ ι) (link : σ) (now timeout : Nat) :
    e.fare link now timeout action = ([e], []) := by
  unfold fare
  split
  · rename_i later
    exact absurd ⟨later, rfl⟩ hupdate
  · rw [hanswer]

theorem fare_of_answer?_eq_some {action : Action σ} {key : Key}
    {result : Except RequestError Response} (hanswer : action.answer? = some (key, result))
    (e : Entry σ ι) (link : σ) (now timeout : Nat) :
    e.fare link now timeout action =
      if e.key = key then ([], [.ended e.label key result]) else ([e], []) := by
  unfold fare
  split
  · cases hanswer
  · rw [hanswer]

/-- How a visit turns out does not depend on the link, and neither do its events apart from what the link
answered. -/
theorem veil_visit (e : Entry σ ι) (link link' : σ) (now timeout : Nat) :
    (e.visit link now timeout).entry = (e.visit link' now timeout).entry ∧
      (e.visit link now timeout).expired = (e.visit link' now timeout).expired ∧
      veil (e.visit link now timeout).events = veil (e.visit link' now timeout).events := by
  obtain ⟨hprogress, htransaction, hresent⟩ := e.transaction.poll_link link link' now timeout
  unfold visit
  split_ifs with hlive hexpired
  · exact ⟨rfl, rfl, rfl⟩
  · dsimp only
    rw [hprogress]
    split_ifs
    · exact ⟨rfl, rfl, rfl⟩
    · dsimp only
      rw [veil_resendEvents, veil_resendEvents, htransaction, hresent]
      exact ⟨rfl, rfl, rfl⟩
  · exact ⟨rfl, rfl, rfl⟩

theorem visit_link (e : Entry σ ι) (link link' : σ) (now timeout : Nat) :
    (e.visit link now timeout).entry = (e.visit link' now timeout).entry ∧
      sightings (e.visit link now timeout).events =
        sightings (e.visit link' now timeout).events := by
  obtain ⟨hentry, -, hseen⟩ := e.veil_visit link link' now timeout
  exact ⟨hentry, by rw [← sightings_veil, hseen, sightings_veil]⟩

/-- All that can become of a request in one action: it stays without being seen, its message is
offered to the link, or it ends. -/
inductive Fares (e : Entry σ ι) : List (Entry σ ι) × List (Sighting ι) → Prop where
  | stays (e' : Entry σ ι) (hcore : e'.core = e.core) : Fares e ([e'], [])
  | sends (e' : Entry σ ι) (hcore : e'.core = e.core) :
      Fares e ([e'], [.sent e.label e.key e.transaction.request])
  | ends (result : Except RequestError Response) : Fares e ([], [.ended e.label e.key result])

theorem visit_cases {e : Entry σ ι} (hlive : e.isLive = true) (link : σ) (now timeout : Nat) :
    (∃ link', e.visit link now timeout = ⟨e.terminate .timedOut, link', true, []⟩) ∨
      e.visit link now timeout =
        ⟨{ e with transaction := (e.transaction.poll link now timeout).transaction },
          (e.transaction.poll link now timeout).link, false,
          e.resendEvents now (e.transaction.poll link now timeout)⟩ := by
  unfold visit
  rw [if_pos hlive]
  split_ifs
  · exact .inl ⟨_, rfl⟩
  · dsimp only
    split_ifs
    · exact .inl ⟨_, rfl⟩
    · exact .inr rfl

theorem fareAt_cases {e : Entry σ ι} (hlive : e.isLive = true) (link : σ) (now timeout : Nat) :
    e.Fares (e.fareAt link now timeout) := by
  have hcore := e.core_visit link now timeout
  unfold fareAt
  rcases visit_cases hlive link now timeout with ⟨link', hvisit⟩ | hvisit
  · rw [hvisit]
    dsimp only
    have hends : (e.terminate .timedOut).lapsed = .ended e.label e.key (.error .timedOut) := by
      rw [lapsed, e.key_terminate]
      rfl
    rw [e.isLive_terminate rfl, if_neg Bool.false_ne_true, hends]
    exact .ends _
  · rw [hvisit] at hcore ⊢
    dsimp only at hcore ⊢
    have hstill : Entry.isLive { e with
        transaction := (e.transaction.poll link now timeout).transaction } = true := by
      rw [← hlive]
      simp [isLive, Transaction.poll_isTerminal]
    rw [if_pos hstill, sightings_resendEvents]
    split_ifs
    · exact .sends _ hcore
    · exact .stays _ hcore

theorem fare_cases {e : Entry σ ι} (hlive : e.isLive = true) (link : σ) (now timeout : Nat)
    (action : Action σ) : e.Fares (e.fare link now timeout action) := by
  unfold fare
  split
  · exact fareAt_cases hlive link _ timeout
  · split
    · exact .stays e rfl
    · split_ifs with hkey
      · exact hkey ▸ .ends _
      · exact .stays e rfl

end Entry

namespace Slots

variable [Link σ] (now timeout : Nat) (slots : List (Slot σ ι)) (i : Nat) (link link' : σ)

theorem entries_sweep :
    entries (sweep now timeout i slots link).slots =
      (entries slots).map fun e => (e.visit link' now timeout).entry := by
  induction slots generalizing i link with
  | nil => rfl
  | cons s rest ih =>
    unfold sweep
    split
    · rename_i he
      rw [entries_cons, entries_cons, he, ih]
      rfl
    · rename_i e he
      rw [entries_cons, entries_cons, he, ih, (e.visit_link link link' now timeout).1]
      rfl

theorem sightings_sweep :
    sightings (sweep now timeout i slots link).events =
      (entries slots).flatMap fun e => sightings (e.visit link' now timeout).events := by
  induction slots generalizing i link with
  | nil => rfl
  | cons s rest ih =>
    unfold sweep
    split
    · rename_i he
      rw [entries_cons, he]
      exact ih (i + 1) link
    · rename_i e he
      dsimp only
      rw [entries_cons, he, sightings_append, ih, (e.visit_link link link' now timeout).2]
      rfl

end Slots

/-- What a sweep leaves and what is seen of it, with the ends of the requests that it marked, is what
becomes of each request. -/
theorem perm_fareAt [Link σ] (link : σ) (now timeout : Nat) (es : List (Entry σ ι)) :
    ((es.map fun e => (e.visit link now timeout).entry).filter Entry.isLive).Perm
        (es.flatMap fun e => (e.fareAt link now timeout).1) ∧
      ((es.flatMap fun e => sightings (e.visit link now timeout).events) ++
          ((es.map fun e => (e.visit link now timeout).entry).filter fun e => !e.isLive).map
            Entry.lapsed).Perm (es.flatMap fun e => (e.fareAt link now timeout).2) := by
  induction es with
  | nil => exact ⟨.refl _, .refl _⟩
  | cons e es ih =>
    obtain ⟨hleft, hseen⟩ := ih
    simp only [List.map_cons, List.flatMap_cons, Entry.fareAt]
    by_cases hlive : (e.visit link now timeout).entry.isLive = true
    · rw [if_pos hlive, List.filter_cons_of_pos hlive, List.filter_cons_of_neg (by simp [hlive]),
        List.append_assoc]
      exact ⟨hleft.cons _, hseen.append_left _⟩
    · rw [if_neg hlive, List.filter_cons_of_neg hlive, List.filter_cons_of_pos (by simpa using hlive),
        List.append_assoc, List.append_assoc]
      exact ⟨hleft, (List.perm_middle.trans (hseen.cons _)).append_left _⟩

theorem flatMap_stays (es : List (Entry σ ι))
    {f : Entry σ ι → List (Entry σ ι) × List (Sighting ι)} (h : ∀ e ∈ es, f e = ([e], [])) :
    (es.flatMap fun e => (f e).1) = es ∧ (es.flatMap fun e => (f e).2) = [] := by
  induction es with
  | nil => exact ⟨rfl, rfl⟩
  | cons e es ih =>
    obtain ⟨he, hes⟩ := List.forall_mem_cons.1 h
    obtain ⟨hleft, hseen⟩ := ih hes
    rw [List.flatMap_cons, List.flatMap_cons, he, hleft, hseen]
    exact ⟨rfl, rfl⟩

/-! ## What is settled -/

/-- The requests that are marked as ended and not finished yet. -/
def Slots.marked (slots : List (Slot σ ι)) : List (Entry σ ι) :=
  (entries slots).filter fun e => !e.isLive

namespace Registry

/-- Nothing is under way in the registry, no request has anything to do at its end, and the keys are
distinct. -/
structure Tidy (r : Registry σ ι) : Prop extends r.Plain where
  keys : ((entries r.slots).map Entry.key).Nodup

theorem Tidy.isLive {r : Registry σ ι} (hr : r.Tidy) {e : Entry σ ι} (he : e ∈ entries r.slots) :
    e.isLive = true := by
  rw [← live_eq_entries hr.ended] at he
  exact (mem_live.1 he).2

end Registry

theorem Slots.live_marked {slots : List (Slot σ ι)} (h : ∀ e ∈ entries slots, e.isLive = true) :
    live slots = entries slots ∧ marked slots = [] := by
  refine ⟨List.filter_eq_self.2 h, List.filter_eq_nil_iff.2 fun e he => ?_⟩
  simp [h e he]

namespace Machine

/-- Where a tidy registry can come to in an action, as far as requests are concerned: those that are
outstanding are the ones left, and what was seen, with the ends of those that are marked, is what is
seen in the end. -/
structure Settled (policy : Policy) (clock : Nat) (left : List (Entry σ ι))
    (seen : List (Sighting ι)) (m : Machine σ ι) : Prop where
  coherent : m.Coherent
  frames : ∀ f ∈ m.stack, f.Plain
  programs : ∀ e ∈ entries m.registry.slots, e.transaction.callback = some .done
  keys : ((entries m.registry.slots).map Entry.key).Nodup
  policy : m.registry.policy = policy
  clock : m.registry.clock = clock
  left : (live m.registry.slots).Perm left
  seen : (sightings m.events ++ (marked m.registry.slots).map Entry.lapsed).Perm seen

variable {policy : Policy} {clock : Nat} {left : List (Entry σ ι)} {seen : List (Sighting ι)}
  {m m' : Machine σ ι}

theorem Settled.congr (h : m.Settled policy clock left seen) {left' : List (Entry σ ι)}
    {seen' : List (Sighting ι)} (hleft : left.Perm left') (hseen : seen.Perm seen') :
    m.Settled policy clock left' seen' :=
  { h with left := h.left.trans hleft, seen := h.seen.trans hseen }

theorem Settled.expires (h : m.Settled policy clock left seen) {ref : SlotRef} {e : Entry σ ι}
    {stack : List (Frame σ ι)} (hcompletes : m.Completes ref e (.error .timedOut) stack m')
    (hlive : e.isLive = false) (hcoherent : m'.Coherent) (hframes : ∀ f ∈ stack, f.Plain) :
    m'.Settled policy clock left seen := by
  obtain ⟨hslots, -⟩ := Registry.slots_of_remove? hcompletes.remove
  have hperm := perm_entries_remove? hslots
  have hkeys := (hperm.map Entry.key).nodup_iff.1 h.keys
  refine ⟨hcoherent, ?_, ?_, (List.nodup_cons.1 hkeys).2, ?_, ?_, ?_, ?_⟩
  · obtain ⟨program, hprogram, hstack⟩ := hcompletes.program
    rw [h.programs e (hperm.mem_iff.2 List.mem_cons_self)] at hprogram
    obtain rfl := Option.some.inj hprogram
    rw [hstack]
    exact List.forall_mem_cons.2 ⟨rfl, hframes⟩
  · exact fun e' he' => h.programs e' (hperm.mem_iff.2 (List.mem_cons_of_mem e he'))
  · rw [Registry.policy_of_remove? hcompletes.remove, h.policy]
  · rw [Registry.clock_of_remove? hcompletes.remove, h.clock]
  · have hleft := hperm.filter Entry.isLive
    rw [List.filter_cons_of_neg (by simp [hlive])] at hleft
    exact hleft.symm.trans h.left
  · obtain ⟨outstanding, now, hevents⟩ := hcompletes.events
    have hover := (hperm.filter fun e => !e.isLive).map Entry.lapsed
    rw [List.filter_cons_of_pos (by simp [hlive]), List.map_cons] at hover
    refine List.Perm.trans ?_ h.seen
    rw [hevents]
    exact List.perm_middle.symm.trans (hover.symm.append_left _)

theorem Settled.pops (h : m.Settled policy clock left seen) {f : Frame σ ι} {rest : List (Frame σ ι)}
    (hstack : m.stack = f :: rest) {events : List (Event ι)}
    (hevents : ∀ event ∈ events, ∃ caller outcome, event = .returned caller outcome)
    (hcoherent : Coherent ⟨m.registry, rest, events ++ m.events⟩) :
    Settled policy clock left seen ⟨m.registry, rest, events ++ m.events⟩ := by
  refine ⟨hcoherent, ?_, h.programs, h.keys, h.policy, h.clock, h.left, ?_⟩
  · intro g hg
    exact h.frames g (hstack ▸ List.mem_cons_of_mem f hg)
  · have hmute : sightings events = [] := by
      refine sightings_eq_nil fun event hevent => ?_
      obtain ⟨caller, outcome, rfl⟩ := hevents event hevent
      rfl
    rw [sightings_append, hmute]
    exact h.seen

theorem Settled.step [Link σ] (h : m.Settled policy clock left seen) (hstep : m.step = some m') :
    m'.Settled policy clock left seen := by
  obtain ⟨hcoherent, ⟨ref, e, stack, hlive, hcompletes, hstack⟩ |
      ⟨f, rest, events, htop, rfl, hevents⟩⟩ := step_of_plain h.coherent h.frames hstep
  · exact h.expires hcompletes hlive hcoherent hstack
  · exact h.pops htop hevents hcoherent

/-! ### Where an action starts -/

theorem act_of_answers [Link σ] (hm : m.Programs) (caller : Caller ι) {action : Action σ} {key : Key}
    {result : Except RequestError Response} (h : action.Answers key result) :
    (∃ ref, ∃ e : Entry σ ι, ∃ outcome, e.isLive = true ∧ e.key = key ∧
      m.Completes ref e result (.answering caller outcome :: m.stack) (m.act caller action)) ∨
    (find? m.registry.slots key = none ∧ ∃ r outcome, m.registry.Quiet action r ∧
      m.act caller action = { m with registry := r }.answer caller outcome) := by
  cases h with
  | delivers h =>
    obtain ⟨matched, stray, hact⟩ := act_of_delivers h m caller
    rw [hact]
    rename_i rest
    rcases respond_cases hm caller key rest matched stray with
      ⟨ref, e, hlive, hkey, hcompletes⟩ | ⟨hfind, hstray⟩
    · exact .inl ⟨ref, e, matched, hlive, hkey, hcompletes⟩
    · exact .inr ⟨hfind, _, stray, .stray action key hfind, hstray⟩
  | cancel =>
    rcases cancel_cases hm caller key with ⟨ref, e, hlive, hkey, hcompletes⟩ | ⟨hfind, hcancel⟩
    · exact .inl ⟨ref, e, _, hlive, hkey, hcompletes⟩
    · exact .inr ⟨hfind, m.registry, _, .ask _, hcancel⟩

variable {r : Registry σ ι}

theorem settled_quiet (hr : r.Tidy) {r' : Registry σ ι} {action : Action σ} (hquiet : r.Quiet action r')
    (outcome : Outcome)
    (hcoherent : Coherent (({ registry := r' } : Machine σ ι).answer .host outcome)) :
    Settled r.policy r.clock (entries r.slots) []
      (({ registry := r' } : Machine σ ι).answer .host outcome) := by
  obtain ⟨link, policy, ids, slots, clock⟩ := r'
  obtain rfl : slots = r.slots := hquiet.slots
  obtain ⟨rfl, rfl⟩ : policy = r.policy ∧ clock = r.clock := hquiet.policy_clock
  obtain ⟨hlive, hmarked⟩ := live_marked fun e he => hr.isLive he
  refine ⟨hcoherent, by simp [answer, record], hr.programs, hr.keys, rfl, rfl, ?_, ?_⟩
  · exact .of_eq hlive
  · show (([] : List (Sighting ι)) ++ (marked r.slots).map Entry.lapsed).Perm _
    rw [hmarked]
    exact .refl _

theorem settled_completes (hr : r.Tidy) {ref : SlotRef} {e : Entry σ ι}
    {result : Except RequestError Response} {outcome : Outcome} {m : Machine σ ι}
    (hcompletes : (⟨r, [], []⟩ : Machine σ ι).Completes ref e result [.answering .host outcome] m)
    (hcoherent : m.Coherent) :
    Settled r.policy r.clock (entries m.registry.slots) [.ended e.label e.key result] m := by
  have hperm : (entries r.slots).Perm (e :: entries m.registry.slots) :=
    perm_entries_remove? (Registry.slots_of_remove? hcompletes.remove).1
  have hmem : ∀ e' ∈ entries m.registry.slots, e' ∈ entries r.slots :=
    fun e' he' => hperm.mem_iff.2 (List.mem_cons_of_mem e he')
  have hkeys := (hperm.map Entry.key).nodup_iff.1 hr.keys
  obtain ⟨hlive, hmarked⟩ := live_marked fun e' he' => hr.isLive (hmem e' he')
  refine ⟨hcoherent, ?_, fun e' he' => hr.programs e' (hmem e' he'), (List.nodup_cons.1 hkeys).2,
    Registry.policy_of_remove? hcompletes.remove, Registry.clock_of_remove? hcompletes.remove,
    .of_eq hlive, ?_⟩
  · obtain ⟨program, hprogram, hstack⟩ := hcompletes.program
    rw [hr.programs e (hperm.mem_iff.2 List.mem_cons_self)] at hprogram
    obtain rfl := Option.some.inj hprogram
    rw [hstack]
    simp [Frame.Plain]
  · obtain ⟨outstanding, now, hevents⟩ := hcompletes.events
    rw [hevents, hmarked]
    exact .refl _

variable [Link σ]

theorem settled_sweep (hr : r.Tidy) (link : σ) (warnings : List Warning)
    (hcoherent : Coherent ((record ⟨r.sweep.1, [], []⟩ (warnings.map Event.warning ++ r.sweep.2.2)).push
      (.finishing .host r.sweep.2.1))) :
    Settled r.policy r.clock
      ((entries r.slots).flatMap fun e => (e.fareAt link r.clock r.policy.responseTimeout).1)
      ((entries r.slots).flatMap fun e => (e.fareAt link r.clock r.policy.responseTimeout).2)
      ((record ⟨r.sweep.1, [], []⟩ (warnings.map Event.warning ++ r.sweep.2.2)).push
        (.finishing .host r.sweep.2.1)) := by
  have hentries : entries r.sweep.1.slots =
      (entries r.slots).map fun e => (e.visit link r.clock r.policy.responseTimeout).entry :=
    entries_sweep ..
  have hsightings : sightings r.sweep.2.2 = (entries r.slots).flatMap fun e =>
      sightings (e.visit link r.clock r.policy.responseTimeout).events :=
    sightings_sweep ..
  -- A look changes neither the keys nor the programs, so the registry stays tidy.
  have hcore : (entries r.sweep.1.slots).map Entry.core = (entries r.slots).map Entry.core :=
    map_entries_sweep _ _ _ _ _ fun e link => e.core_visit link r.clock r.policy.responseTimeout
  have hkeys : (entries r.sweep.1.slots).map Entry.key = (entries r.slots).map Entry.key := by
    have hkeys := congrArg (List.map fun core => core.1.2.1) hcore
    rw [List.map_map, List.map_map] at hkeys
    exact hkeys
  obtain ⟨hleft, hseen⟩ := perm_fareAt link r.clock r.policy.responseTimeout (entries r.slots)
  refine ⟨hcoherent, by simp [push, record, Frame.Plain], fun e he => ?_, ?_, rfl, rfl, ?_, ?_⟩
  · have hmem : e.core ∈ (entries r.slots).map Entry.core := hcore ▸ List.mem_map_of_mem he
    obtain ⟨e₀, he₀, heq⟩ := List.mem_map.1 hmem
    rw [← (Entry.core_eq heq).2.2.1]
    exact hr.programs e₀ he₀
  · show ((entries r.sweep.1.slots).map Entry.key).Nodup
    rw [hkeys]
    exact hr.keys
  · show (live r.sweep.1.slots).Perm _
    rw [live, hentries]
    exact hleft
  · have hwarnings : sightings (warnings.map (Event.warning : Warning → Event ι)) = [] := by
      refine sightings_eq_nil fun event hevent => ?_
      obtain ⟨warning, -, rfl⟩ := List.mem_map.1 hevent
      rfl
    have hevents : (sightings ((warnings.map Event.warning ++ r.sweep.2.2).reverse ++ [])).Perm
        (sightings r.sweep.2.2) := by
      rw [List.append_nil, sightings, List.filterMap_reverse]
      refine (List.reverse_perm _).trans (.of_eq ?_)
      rw [← sightings, sightings_append, hwarnings, List.nil_append]
    refine (hevents.append_right _).trans ?_
    rw [hsightings]
    show (_ ++ (marked r.sweep.1.slots).map Entry.lapsed).Perm _
    rw [marked, hentries]
    exact hseen

theorem settled_update (hr : r.Tidy) (link : σ) (now : Nat) :
    Settled r.policy ((Action.update now : Action σ).clock r.clock)
      ((entries r.slots).flatMap fun e =>
        (e.fareAt link ((Action.update now : Action σ).clock r.clock) r.policy.responseTimeout).1)
      ((entries r.slots).flatMap fun e =>
        (e.fareAt link ((Action.update now : Action σ).clock r.clock) r.policy.responseTimeout).2)
      (update ⟨r, [], []⟩ .host now) := by
  have hcoherent : (update ⟨r, [], []⟩ .host now).Coherent :=
    ((act_cases hr.coherent.programs .host (.update now)).preserves hr.coherent).1
  have hset : (r.setClock now).1.slots = r.slots ∧ (r.setClock now).1.policy = r.policy ∧
      (r.setClock now).1.clock = (Action.update now : Action σ).clock r.clock := by
    unfold Registry.setClock
    dsimp only [Action.clock]
    split_ifs <;> exact ⟨rfl, rfl, rfl⟩
  obtain ⟨hslots, hpolicy, hclock⟩ := hset
  have htidy : (r.setClock now).1.Tidy := by
    refine ⟨⟨?_, ?_⟩, ?_⟩
    all_goals rw [hslots]
    · exact hr.ended
    · exact hr.programs
    · exact hr.keys
  have h := settled_sweep htidy link (r.setClock now).2 hcoherent
  rw [hslots, hpolicy, hclock] at h
  exact h

/-- Every action settles what becomes of each request. -/
theorem settled_start (hr : r.Tidy) (link : σ) (action : Action σ) :
    Settled r.policy (action.clock r.clock)
      ((entries r.slots).flatMap fun e =>
        (e.fare link r.clock r.policy.responseTimeout action).1)
      ((entries r.slots).flatMap fun e =>
        (e.fare link r.clock r.policy.responseTimeout action).2)
      (start ⟨r, [], []⟩ .host (.act action)) := by
  by_cases hupdate : ∃ now, action = .update now
  · obtain ⟨now, rfl⟩ := hupdate
    exact settled_update hr link now
  · have hcoherent : (act ⟨r, [], []⟩ .host action).Coherent :=
      ((act_cases hr.coherent.programs .host action).preserves hr.coherent).1
    have hclock : action.clock r.clock = r.clock := by
      cases action with
      | update now => exact absurd ⟨now, rfl⟩ hupdate
      | _ => rfl
    rw [hclock]
    show Settled _ _ _ _ (act ⟨r, [], []⟩ .host action)
    cases hanswer : action.answer? with
    | none =>
      -- What is neither an `update` nor an answer concerns no request.
      obtain ⟨hleft, hseen⟩ := flatMap_stays (entries r.slots) fun e _ =>
        Entry.fare_of_answer?_eq_none hanswer hupdate e link r.clock r.policy.responseTimeout
      rw [hleft, hseen]
      have hacts : Acts ⟨r, [], []⟩ .host action (act ⟨r, [], []⟩ .host action) :=
        act_cases hr.coherent.programs .host action
      generalize act ⟨r, [], []⟩ .host action = m at hacts hcoherent ⊢
      cases hacts with
      | completes ref e result outcome _ hanswers =>
        rw [Action.answers_iff, hanswer] at hanswers
        cases hanswers
      | update now => exact absurd ⟨now, rfl⟩ hupdate
      | quiet r' outcome hquiet => exact settled_quiet hr hquiet outcome hcoherent
    | some p =>
      obtain ⟨key, result⟩ := p
      have hfare := fun (e : Entry σ ι) =>
        Entry.fare_of_answer?_eq_some hanswer e link r.clock r.policy.responseTimeout
      have hstays : ∀ es : List (Entry σ ι), (∀ e ∈ es, e.key ≠ key) → ∀ e ∈ es,
          e.fare link r.clock r.policy.responseTimeout action = ([e], []) := by
        intro es hes e he
        rw [hfare, if_neg (hes e he)]
      rcases act_of_answers hr.coherent.programs .host (Action.answers_iff.2 hanswer) with
        ⟨ref, e, outcome, -, rfl, hcompletes⟩ | ⟨hfind, r', outcome, hquiet, hact⟩
      · have hperm := perm_entries_remove? (Registry.slots_of_remove? hcompletes.remove).1
        have hkeys := (hperm.map Entry.key).nodup_iff.1 hr.keys
        -- The keys are all different, so the request that ends is the only one of its key.
        have hothers : ∀ e' ∈ entries (act ⟨r, [], []⟩ .host action).registry.slots, e'.key ≠ e.key :=
          fun e' he' heq => (List.nodup_cons.1 hkeys).1 (heq ▸ List.mem_map_of_mem he')
        obtain ⟨hleft, hseen⟩ := flatMap_stays _ (hstays _ hothers)
        refine (settled_completes hr hcompletes hcoherent).congr ?_ ?_
        · refine List.Perm.trans ?_ (hperm.flatMap_right _).symm
          rw [List.flatMap_cons, hfare, if_pos rfl, hleft]
          exact .refl _
        · refine List.Perm.trans ?_ (hperm.flatMap_right _).symm
          rw [List.flatMap_cons, hfare, if_pos rfl, hseen]
          exact .refl _
      · have hothers : ∀ e ∈ entries r.slots, e.key ≠ key :=
          fun e he => find?_eq_none.1 hfind e he (hr.isLive he)
        obtain ⟨hleft, hseen⟩ := flatMap_stays _ (hstays _ hothers)
        rw [hleft, hseen]
        rw [hact] at hcoherent ⊢
        exact settled_quiet hr hquiet outcome hcoherent

end Machine

namespace Registry

variable [Link σ]

/-- **The product of the requests.** An action leaves of a tidy registry what it leaves of each of its
requests, and what is seen is what is seen of each. -/
theorem Tidy.perform_act {r : Registry σ ι} (hr : r.Tidy) (link : σ) (action : Action σ) :
    (r.perform (.act action)).registry.Tidy ∧
      (r.perform (.act action)).registry.policy = r.policy ∧
      (r.perform (.act action)).registry.clock = action.clock r.clock ∧
      (entries (r.perform (.act action)).registry.slots).Perm ((entries r.slots).flatMap fun e =>
        (e.fare link r.clock r.policy.responseTimeout action).1) ∧
      (sightings (r.perform (.act action)).events).Perm ((entries r.slots).flatMap fun e =>
        (e.fare link r.clock r.policy.responseTimeout action).2) := by
  have h := Machine.run_induct (fun m m' h hstep => Machine.Settled.step h hstep)
    (Machine.settled_start hr link action)
  have hended := h.coherent.ended_eq_nil (Machine.stack_run _)
  have htidy : (r.perform (.act action)).registry.Tidy := ⟨⟨hended, h.programs⟩, h.keys⟩
  obtain ⟨hlive, hmarked⟩ := live_marked fun e he => htidy.isLive he
  refine ⟨htidy, h.policy, h.clock, ?_, ?_⟩
  · rw [← hlive]
    exact h.left
  · have hseen := h.seen
    unfold perform at hmarked ⊢
    dsimp only at hmarked ⊢
    rw [hmarked, List.map_nil, List.append_nil] at hseen
    rw [sightings, List.filterMap_reverse]
    exact (List.reverse_perm _).trans hseen

end Registry

end PlatformMessaging

import Mathlib.Data.List.Chain
import PlatformMessaging.Proofs.Registry.Keys
import PlatformMessaging.Proofs.Registry.Schedule

/-!
# Bounded attempts

The message of a request is offered to the link once when the request is registered, and again only by
an `update`: at most as often as the policy has retries, each time the same bytes to the same endpoint,
and no sooner than a response timeout after the time before. Once the request is answered, given up or
out of time, it is not offered again (`Machine.Run.attempts_bounded`).

The invariant is `Machine.Metered`: the attempts made and the retries left add up, and the retry timer is
due no sooner than a response timeout after the last attempt, however late the clock was looked at. It
needs nothing of the link, of the programs or of how often the clock is set.

`Link.Takes` ties what is told of attempts to the link itself: the link is asked to send exactly what the
events tell of.
-/

namespace PlatformMessaging

open Slots

variable {σ ι : Type}

/-! ## What the link is asked -/

/-- The event tells that a message was offered to the link. -/
def Event.isAttempt : Event ι → Bool
  | .attempt .. => true
  | _ => false

/-- The link is asked to send the messages that events tell of, in order, and answers as they tell. -/
inductive Link.Takes [Link σ] : σ → List (Event ι) → σ → Prop where
  | done (link : σ) : Takes link [] link
  | attempt {link link' link'' : σ} {events : List (Event ι)} (label : ι) (key : Key) (msg : Bytes)
      (answer : Except LinkError Unit) (clock : Nat)
      (hsend : Link.send key.eid msg link = (answer, link')) (h : Takes link' events link'') :
      Takes link (.attempt label key msg answer clock :: events) link''
  | other {link link' : σ} {events : List (Event ι)} (event : Event ι) (hevent : event.isAttempt = false)
      (h : Takes link events link') : Takes link (event :: events) link'

namespace Link.Takes

variable [Link σ]

theorem append {link link' link'' : σ} {events events' : List (Event ι)}
    (h : Takes link events link') (h' : Takes link' events' link'') :
    Takes link (events ++ events') link'' := by
  induction h with
  | done link => exact h'
  | attempt label key msg answer clock hsend _ ih =>
    exact .attempt label key msg answer clock hsend (ih h')
  | other event hevent _ ih => exact .other event hevent (ih h')

theorem of_no_attempt {events : List (Event ι)} (link : σ)
    (h : ∀ event ∈ events, event.isAttempt = false) : Takes link events link := by
  induction events with
  | nil => exact .done link
  | cons event events ih =>
    obtain ⟨hevent, hevents⟩ := List.forall_mem_cons.1 h
    exact .other event hevent (ih hevents)

theorem warnings (link : σ) (warnings : List Warning) :
    Takes link (warnings.map (Event.warning : Warning → Event ι)) link := by
  refine of_no_attempt link fun event hevent => ?_
  obtain ⟨warning, -, rfl⟩ := List.mem_map.1 hevent
  rfl

end Link.Takes

section Takes

variable [Link σ]

theorem Entry.takes_visit (e : Entry σ ι) (link : σ) (now timeout : Nat) :
    Link.Takes link (e.visit link now timeout).events (e.visit link now timeout).link := by
  unfold visit
  split_ifs with hlive hexpired
  · exact .done link
  · dsimp only
    unfold resendEvents Transaction.poll
    -- The transaction is polled in four ways, of which one sends.
    split
    · exact .done link
    · split
      · exact .done link
      · exact .done link
      · exact .done link
      · exact .attempt _ _ _ _ _ rfl (.warnings _ _)
  · exact .done link

theorem Slots.takes_sweep (now timeout : Nat) (slots : List (Slot σ ι)) (i : Nat) (link : σ) :
    Link.Takes link (sweep now timeout i slots link).events (sweep now timeout i slots link).link := by
  induction slots generalizing i link with
  | nil => exact .done link
  | cons s rest ih =>
    unfold sweep
    split
    · exact ih (i + 1) link
    · rename_i e _
      exact (e.takes_visit link now timeout).append (ih (i + 1) _)

namespace Registry

omit [Link σ] in
theorem link_reclaim (r : Registry σ ι) (eid : EndpointId) (iid : InstanceId)
    (result : Except RequestError Key) : (r.reclaim eid iid result).link = r.link := by
  unfold reclaim
  split <;> rfl

theorem Sent.takes {r : Registry σ ι} {eid : EndpointId} {iid : InstanceId} {request : Request}
    {label : ι} {program : Program σ ι} {g : Registration σ ι}
    (h : r.Sent eid iid request label program g) : Link.Takes r.link g.events g.registry.link := by
  cases h with
  | duplicate => exact .done r.link
  | unencodable => exact .done r.link
  | refused msg e link _ _ hlink => exact .attempt _ _ _ _ _ hlink (.done link)
  | accepted msg link _ _ hlink => exact .attempt _ _ _ _ _ hlink (.other _ rfl (.done link))

theorem takes_register (r : Registry σ ι) (s : Submission ι) (program : Program σ ι) :
    Link.Takes r.link (r.register s program).events (r.register s program).registry.link := by
  have hdraws := r.draws_register s program
  generalize r.register s program = g at hdraws
  cases hdraws with
  | given iid _ => exact (r.send_cases ..).takes
  | exhausted e ids _ => exact .done r.link
  | drawn iid ids _ _ => exact (send_cases { r with ids := ids } ..).takes
  | lent iid ids g _ _ hsend =>
    subst hsend
    have htakes := (send_cases { r with ids := ids } s.eid iid s.request s.label program).takes
    dsimp only
    rwa [link_reclaim]

end Registry

end Takes

namespace Machine

variable [Link σ]

/-- The move uses or changes the link past the registry. -/
def Move.isOutside : Move σ ι → Bool
  | .call _ (.act (.transmit _ _)) => true
  | .call _ (.act (.adjust _)) => true
  | _ => false

theorem Completes.takes {m m₀ m' : Machine σ ι} {ref : SlotRef} {e : Entry σ ι}
    {result : Except RequestError Response} {stack : List (Frame σ ι)}
    (h : m₀.Completes ref e result stack m') (hregistry : m₀.registry = m.registry)
    (hevents : m₀.events = m.events) (move : Move σ ι) :
    Link.Takes m.registry.link (Step.events ⟨move, m, m'⟩) m'.registry.link := by
  obtain ⟨outstanding, clock, htells⟩ := h.events
  rw [Registry.link_of_remove? h.remove, hregistry,
    Step.events_eq [.completed e.label e.key result outstanding clock] (hevents ▸ htells)]
  exact .other _ rfl (.done _)

theorem link_act {m : Machine σ ι} (hm : m.Programs) (caller : Caller ι) {action : Action σ}
    (hmove : (Move.call caller (.act action) : Move σ ι).isOutside = false)
    (hupdate : ¬∃ now, action = .update now) :
    (m.act caller action).registry.link = m.registry.link := by
  cases action with
  | respond key rest => exact link_of_delivers (.respond key rest) hm caller
  | inbound eid msg =>
    by_cases hdelivers : ∃ key rest, (Action.inbound eid msg : Action σ).Delivers key rest
    · obtain ⟨key, rest, hdelivers⟩ := hdelivers
      exact link_of_delivers hdelivers hm caller
    · show (m.inbound caller eid msg).registry.link = m.registry.link
      unfold inbound
      split
      · rfl
      · rename_i h rest hdecode
        split_ifs with hrequest
        · rfl
        · exact absurd ⟨_, _, .inbound eid msg h rest hdecode (by simpa using hrequest)⟩ hdelivers
  | cancel key =>
    rcases cancel_cases hm caller key with ⟨ref, e, -, -, hcompletes⟩ | ⟨-, hcancel⟩
    · exact Registry.link_of_remove? hcompletes.remove
    · show (m.cancel caller key).registry.link = _
      rw [hcancel]
      rfl
  | update now => exact absurd ⟨now, rfl⟩ hupdate
  | transmit | adjust => cases hmove
  | _ => rfl

theorem Moves.takes {m m' : Machine σ ι} {move : Move σ ι} (hm : m.Coherent) (h : m.Moves move m')
    (hmove : move.isOutside = false) :
    Link.Takes m.registry.link (Step.events ⟨move, m, m'⟩) m'.registry.link := by
  cases h with
  | @call caller op m₀ hcalls =>
    obtain ⟨hregistry, hevents, -⟩ := hcalls.eq
    cases op with
    | register s program =>
      rw [Step.events_eq _ (hevents ▸ m₀.events_register caller s program), ← hregistry]
      exact (m₀.registry.takes_register s program).append (.other _ rfl (.done _))
    | act action =>
      by_cases hupdate : ∃ now, action = .update now
      · obtain ⟨now, rfl⟩ := hupdate
        have hlink : (m.registry.setClock now).1.link = m.registry.link := by
          rw [m.registry.setClock_fst]
        have htells : (m₀.start caller (.act (.update now))).events =
            ((m.registry.setClock now).2.map Event.warning ++
              (m.registry.setClock now).1.sweep.2.2).reverse ++ m.events := by
          rw [← hregistry, ← hevents]
          rfl
        rw [Step.events_eq _ htells, ← hlink]
        refine (Link.Takes.warnings _ _).append ?_
        show Link.Takes _ _ (m₀.registry.setClock now).1.sweep.1.link
        rw [hregistry]
        exact takes_sweep ..
      · have hprograms := (hm.calls hcalls).programs
        have hlink := link_act hprograms caller hmove hupdate
        have hacts := act_cases hprograms caller action
        show Link.Takes _ (Step.events ⟨_, m, m₀.act caller action⟩)
          (m₀.act caller action).registry.link
        generalize m₀.act caller action = m' at hlink hacts
        cases hacts with
        | completes ref e result outcome _ _ hcompletes =>
          exact hcompletes.takes hregistry hevents _
        | update now => exact absurd ⟨now, rfl⟩ hupdate
        | quiet r outcome hquiet =>
          rw [Step.events_eq [.returned caller outcome] (by simp [answer, record, hevents]), hlink,
            hregistry]
          exact .other _ rfl (.done _)
  | @expire caller ref refs rest hstack =>
    obtain ⟨e, -, hcompletes⟩ := completes_expire hm hstack
    exact hcompletes.takes rfl rfl _
  | settle hstack hpending events hevents =>
    rw [Step.events_eq events.reverse (by simp)]
    refine .of_no_attempt _ fun event hevent => ?_
    obtain ⟨caller, outcome, rfl⟩ := hevents event (List.mem_reverse.1 hevent)
    rfl

theorem Moves.answered {m m' : Machine σ ι} {move : Move σ ι} (hm : m.Coherent)
    (hkeyed : m.registry.Keyed) (h : m.Moves move m') {key : Key} (hanswers : move.answers key = true) :
    find? m'.registry.slots key = none := by
  cases h with
  | expire | settle => cases hanswers
  | @call caller op m₀ hcalls =>
    cases op with
    | register => cases hanswers
    | act action =>
      obtain ⟨⟨key', result⟩, hanswer, hkey⟩ := (Option.any_eq_true _ _).1 hanswers
      obtain rfl : key' = key := by simpa using hkey
      rw [← hcalls.eq.1] at hkeyed
      show find? (m₀.act caller action).registry.slots key' = none
      rcases act_of_answers (hm.calls hcalls).programs caller (Action.answers_iff.2 hanswer) with
        ⟨ref, e, outcome, hlive, rfl, hcompletes⟩ | ⟨hfind, r, outcome, hquiet, hact⟩
      · have hperm := perm_entries_remove? (Registry.slots_of_remove? hcompletes.remove).1
        have hkeys := (hperm.filter Entry.isLive).map Entry.key
        rw [List.filter_cons_of_pos hlive] at hkeys
        have hnot := (List.nodup_cons.1 (hkeys.nodup_iff.1 hkeyed.nodup)).1
        refine find?_eq_none.2 fun e' he' hlive' hkey' => hnot ?_
        exact hkey' ▸ List.mem_map_of_mem (mem_live.2 ⟨he', hlive'⟩)
      · rw [hact]
        show find? r.slots key' = none
        rwa [hquiet.slots]

end Machine

/-! ## The attempts of a request -/

/-- The message of a request is offered to the link. -/
def Sighting.isSent : Sighting ι → Bool
  | .sent .. => true
  | .ended .. => false

/-- An attempt follows another after a response timeout, unless the clock stands at its end. -/
def Policy.Spaced (p : Policy) (earlier later : Nat) : Prop :=
  later < Clock.top → earlier + p.responseTimeout ≤ later

theorem Policy.spaced_of_due {p : Policy} {last due clock : Nat}
    (hlast : Clock.add last p.responseTimeout ≤ due) (hdue : due ≤ clock) : p.Spaced last clock := by
  intro hclock
  unfold Clock.add at hlast
  omega

namespace Machine

variable [DecidableEq ι]

/-- The clock readings at which a message was offered to the link for the requests of a label. -/
def attempts (label : ι) (steps : List (Step σ ι)) : List Nat :=
  ((chronicle label steps).filter fun x => x.2.isSent).map Prod.fst

theorem attempts_append (label : ι) (a b : List (Step σ ι)) :
    attempts label (a ++ b) = attempts label a ++ attempts label b := by
  rw [attempts, chronicle_append, List.filter_append, List.map_append]
  rfl

theorem Step.Shows.attempts [Link σ] {u : Step σ ι} {label : ι} {seen : List (Sighting ι)}
    (h : u.Shows label seen) :
    attempts label [u] = (seen.filter Sighting.isSent).map fun _ => u.after.registry.clock := by
  rw [Machine.attempts, h.chronicle, List.filter_map, List.map_map]
  rfl

variable {p : Policy} {label : ι} {key : Key} {msg : Bytes} {r r' : Registry σ ι} {clocks : List Nat}
  {move : Move σ ι} {seen : List (Sighting ι)}

/-- No request of the label is outstanding. -/
def Over (label : ι) (r : Registry σ ι) : Prop :=
  ∀ e ∈ r.share label, e.isLive = false

/-- Where the request of a label stands after attempts at some clock readings: it waits, and each attempt
has taken one of its retries but the first, or it is over. -/
inductive Metered (p : Policy) (label : ι) (key : Key) (msg : Bytes) (r : Registry σ ι) :
    List Nat → Prop where
  | waits (clocks : List Nat) (last due expiry : Nat) (e : Entry σ ι) (hshare : r.share label = [e])
      (hwaits : e.Waits due expiry) (hkey : e.key = key) (hmsg : e.transaction.request = msg)
      (hcount : clocks.length + e.transaction.retriesLeft = p.retries)
      (hdue : Clock.add last p.responseTimeout ≤ due) (hspaced : (clocks ++ [last]).IsChain p.Spaced) :
      Metered p label key msg r (clocks ++ [last])
  | past (clocks : List Nat) (hover : Over label r) (hcount : clocks.length ≤ p.retries + 1)
      (hspaced : clocks.IsChain p.Spaced) : Metered p label key msg r clocks

theorem Metered.bounded (h : Metered p label key msg r clocks) :
    clocks.length ≤ p.retries + 1 ∧ clocks.IsChain p.Spaced := by
  cases h with
  | waits clocks last _ _ _ _ _ _ _ hcount _ hspaced =>
    refine ⟨?_, hspaced⟩
    rw [List.length_append, List.length_singleton]
    omega
  | past clocks _ hcount hspaced => exact ⟨hcount, hspaced⟩

theorem Metered.over_of (h : Metered p label key msg r clocks)
    (hover : (∃ e ∈ r.share label, e.isLive = false) ∨ find? r.slots key = none) : Over label r := by
  cases h with
  | past _ hover' => exact hover'
  | waits clocks last due expiry e hshare hwaits hkey =>
    exfalso
    rcases hover with ⟨e', he', hended⟩ | hfind
    · obtain rfl := List.mem_singleton.1 (hshare ▸ he')
      rw [hwaits.isLive] at hended
      cases hended
    · have hmem := (Registry.mem_share.1 (hshare ▸ List.mem_singleton_self e)).1
      exact find?_eq_none.1 hfind e hmem hwaits.isLive hkey

variable [Link σ]

theorem Over.fate (h : Over label r) (hfate : Fate label r move seen r') :
    Over label r' ∧ seen.filter Sighting.isSent = [] := by
  cases hfate with
  | spared _ _ hshare => exact ⟨fun e he => h e (hshare.mem_iff.1 he), rfl⟩
  | looked now clock _ _ hshare =>
    have hvisit : ∀ e ∈ r.share label, ∀ timeout, e.visit r.link clock timeout = ⟨e, r.link, false, []⟩ :=
      fun e he timeout => Entry.visit_of_ended (h e he) ..
    refine ⟨fun e he => ?_, List.filter_eq_nil_iff.2 fun x hx => ?_⟩
    · rw [hshare] at he
      obtain ⟨e₀, he₀, rfl⟩ := List.mem_map.1 he
      rw [hvisit e₀ he₀]
      exact h e₀ he₀
    · obtain ⟨e, he, hx⟩ := List.mem_flatMap.1 hx
      rw [hvisit e he] at hx
      cases hx
  | ended _ hshare _ =>
    exact ⟨fun e he => h e (hshare.mem_iff.2 (List.mem_cons_of_mem _ he)), rfl⟩

theorem Metered.looked {last due expiry clock : Nat} {e : Entry σ ι} (hwaits : e.Waits due expiry)
    (hlabel : e.label = label) (hkey : e.key = key) (hmsg : e.transaction.request = msg)
    (hcount : clocks.length + e.transaction.retriesLeft = p.retries)
    (hdue : Clock.add last p.responseTimeout ≤ due) (hspaced : (clocks ++ [last]).IsChain p.Spaced)
    (hshare : r'.share label = [(e.visit r.link clock p.responseTimeout).entry]) :
    Metered p label key msg r' (clocks ++ [last] ++
        ((sightings (e.visit r.link clock p.responseTimeout).events).filter Sighting.isSent).map
          fun _ => clock) ∧
      ∀ x ∈ sightings (e.visit r.link clock p.responseTimeout).events, x = .sent label key msg := by
  have hlooks := Entry.visit_looks hwaits r.link clock p.responseTimeout
  generalize e.visit r.link clock p.responseTimeout = v at hlooks hshare
  cases hlooks with
  | waits =>
    refine ⟨?_, by simp [sightings]⟩
    rw [show sightings ([] : List (Event ι)) = [] from rfl, List.filter_nil, List.map_nil,
      List.append_nil]
    exact .waits clocks last due expiry e hshare hwaits hkey hmsg hcount hdue hspaced
  | lapses =>
    refine ⟨?_, by simp [sightings]⟩
    rw [show sightings ([] : List (Event ι)) = [] from rfl, List.filter_nil, List.map_nil,
      List.append_nil]
    refine .past _ (fun e' he' => ?_) ?_ hspaced
    · rw [hshare] at he'
      obtain rfl := List.mem_singleton.1 he'
      exact e.isLive_terminate rfl
    · rw [List.length_append, List.length_singleton]
      omega
  | repeats left link' answer warnings hnow _ hleft =>
    -- A further attempt uses up a retry, and is made no earlier than the last one is due.
    have hseen : sightings (.attempt e.label e.key e.transaction.request answer clock ::
        warnings.map Event.warning) = [.sent label key msg] := by
      rw [← hlabel, ← hkey, ← hmsg]
      exact congrArg (List.cons _) (sightings_warnings warnings)
    rw [hseen]
    refine ⟨?_, fun x hx => List.mem_singleton.1 hx⟩
    show Metered p label key msg r' (clocks ++ [last] ++ [clock])
    refine .waits _ clock _ expiry _ hshare (hwaits.repeated left clock _) hkey hmsg ?_ (Nat.le_refl _) ?_
    · show (clocks ++ [last]).length + left = p.retries
      rw [List.length_append, List.length_singleton]
      omega
    · have hnext : p.Spaced last clock := p.spaced_of_due hdue hnow
      refine List.isChain_append.2 ⟨hspaced, List.isChain_singleton _, ?_⟩
      simpa using hnext

/-- Every fate keeps the account of attempts. One is made by an `update` only, and none after the end. -/
theorem Metered.fate (h : Metered p label key msg r clocks) (hpolicy : r.policy = p)
    (hfate : Fate label r move seen r') :
    Metered p label key msg r'
        (clocks ++ (seen.filter Sighting.isSent).map fun _ => r'.clock) ∧
      (∀ x ∈ seen, x.isSent = true → move.isUpdate = true ∧ x = .sent label key msg) ∧
      ((∃ x ∈ seen, x.isSent = false) → Over label r') := by
  obtain ⟨hbound, hchain⟩ := h.bounded
  cases h with
  | past clocks hover hcount hspaced =>
    obtain ⟨hover', hnone⟩ := hover.fate hfate
    refine ⟨?_, fun x hx hsent => ?_, fun _ => hover'⟩
    · rw [hnone, List.map_nil, List.append_nil]
      exact .past clocks hover' hcount hspaced
    · exact absurd hsent (List.filter_eq_nil_iff.1 hnone x hx)
  | waits clocks last due expiry e hshare hwaits hkey hmsg hcount hdue hspaced =>
    cases hfate with
    | spared _ _ hspared =>
      rw [hshare] at hspared
      rw [List.filter_nil, List.map_nil, List.append_nil]
      exact ⟨.waits clocks last due expiry e (List.perm_singleton.1 hspared) hwaits hkey hmsg hcount hdue
        hspaced, by simp, by simp⟩
    | ended _ hended _ =>
      rw [hshare] at hended
      have hnone := (List.cons.inj (List.perm_singleton.1 hended.symm)).2
      have hover : Over label r' := by
        intro e' he'
        rw [hnone] at he'
        cases he'
      refine ⟨?_, by simp [Sighting.isSent], fun _ => hover⟩
      show Metered p label key msg r' (clocks ++ [last] ++ [])
      rw [List.append_nil]
      exact .past _ hover hbound hchain
    | looked now clock _ hclock hlooked =>
      have hlabel := (Registry.mem_share.1 (hshare ▸ List.mem_singleton_self e)).2
      rw [hshare, hpolicy] at hlooked
      rw [hshare, hpolicy, List.flatMap_singleton, hclock]
      obtain ⟨hmetered, hsent⟩ :=
        Metered.looked hwaits hlabel hkey hmsg hcount hdue hspaced hlooked
      refine ⟨hmetered, fun x hx _ => ⟨rfl, hsent x hx⟩, ?_⟩
      rintro ⟨x, hx, hended⟩
      rw [hsent x hx] at hended
      cases hended

omit [Link σ] in
theorem Step.Opened.metered {t : Step σ ι} {program : Program σ ι}
    (h : t.Opened p label key msg program) :
    Metered p label key msg t.after.registry (attempts label [t]) := by
  have hattempt : attempts label [t] = [] ++ [t.before.registry.clock] := by
    rw [attempts, h.seen]
    rfl
  rw [hattempt]
  exact .waits [] _ _ _ _ h.share (Entry.opened_waits ..) rfl rfl (Nat.zero_add _) (Nat.le_refl _)
    (List.isChain_singleton _)

/-- What follows the registration of a request keeps the account of its attempts. -/
theorem Path.metered {m₀ m : Machine σ ι} {steps : List (Step σ ι)} (h : m₀.Path steps m)
    (hm₀ : m₀.Coherent) (hpolicy : m₀.registry.policy = p)
    (hmetered : Metered p label key msg m₀.registry clocks)
    (hsteps : ∀ u ∈ steps, u.move.registers label = false) :
    Metered p label key msg m.registry (clocks ++ attempts label steps) ∧
      ∀ u ∈ steps, (∀ x ∈ chronicle label [u], x.2.isSent = true →
          u.move.isUpdate = true ∧ x.2 = .sent label key msg) ∧
        ((∃ x ∈ chronicle label [u], x.2.isSent = false) → Over label u.after.registry) := by
  refine (h.follow hm₀ hsteps (P := fun steps m => m.registry.policy = p ∧
    Metered p label key msg m.registry (clocks ++ attempts label steps) ∧
    ∀ u ∈ steps, (∀ x ∈ chronicle label [u], x.2.isSent = true →
        u.move.isUpdate = true ∧ x.2 = .sent label key msg) ∧
      ((∃ x ∈ chronicle label [u], x.2.isSent = false) → Over label u.after.registry)) ?_ ?_).2
  · refine ⟨hpolicy, ?_, by simp⟩
    rw [show attempts label ([] : List (Step σ ι)) = [] from rfl, List.append_nil]
    exact hmetered
  · rintro earlier u seen - hu ⟨hpolicy, hmetered, hsent⟩
    obtain ⟨hmetered', hnew, hover⟩ := hmetered.fate hpolicy hu.fate
    refine ⟨hu.policy.trans hpolicy, ?_, fun v hv => ?_⟩
    · rw [attempts_append, hu.attempts, ← List.append_assoc]
      exact hmetered'
    · rcases List.mem_append.1 hv with hold | hlast
      · exact hsent v hold
      · obtain rfl := List.mem_singleton.1 hlast
        rw [hu.chronicle]
        refine ⟨fun x hx => ?_, ?_⟩
        · obtain ⟨y, hy, rfl⟩ := List.mem_map.1 hx
          exact hnew y hy
        · rintro ⟨x, hx, hended⟩
          obtain ⟨y, hy, rfl⟩ := List.mem_map.1 hx
          exact hover ⟨y, hy, hended⟩

theorem Path.attempts_eq_nil {m₀ m : Machine σ ι} {steps : List (Step σ ι)} (h : m₀.Path steps m)
    (hm₀ : m₀.Coherent) (hover : Over label m₀.registry)
    (hsteps : ∀ u ∈ steps, u.move.registers label = false) : attempts label steps = [] := by
  refine (h.follow hm₀ hsteps (P := fun steps m => Over label m.registry ∧
    attempts label steps = []) ⟨hover, rfl⟩ ?_).2
  rintro earlier u seen - hu ⟨hover, hnone⟩
  obtain ⟨hover', hseen⟩ := hover.fate hu.fate
  refine ⟨hover', ?_⟩
  rw [attempts_append, hnone, hu.attempts, hseen]
  rfl

/-! ## The result -/

/-- **Attempts are bounded and identical.** In any run of a new registry, take a registration that
succeeds, under a label that no other has. Its message, the encoding of the request under the instance ID
of its key, is offered to the link once by the registration, and later only by an `update` and under the
same key. All attempts together are at most one more than the retries, and each comes a response timeout
after the one before, unless the clock has come to its end. None is made once the key is answered or given
up, or the end of the request is told, or it is out of time, even if it waits to be finished. Whatever a
step tells of attempts is what the link is asked to send, to the endpoint of the key. -/
theorem Run.attempts_bounded {link : σ} {policy : Policy} {r : Registry σ ι}
    {warnings : List Warning} (hr : Registry.create link policy = .ok (r, warnings))
    {before after : List (Step σ ι)} {t : Step σ ι} {m : Machine σ ι}
    (h : Run r (before ++ t :: after) m) {s : Submission ι} {program : Program σ ι} {key : Key}
    (hopens : t.Opens s program key)
    (hapart : ∀ u ∈ before ++ after, u.move.registers s.label = false) :
    ∃ msg, s.request.encode key.iid = .ok msg ∧
      chronicle s.label [t] = [(t.before.registry.clock, .sent s.label key msg)] ∧
      (∀ u ∈ after, ∀ x ∈ chronicle s.label [u], x.2.isSent = true →
        u.move.isUpdate = true ∧ x.2 = .sent s.label key msg) ∧
      (attempts s.label (t :: after)).length ≤ policy.retries + 1 ∧
      (attempts s.label (t :: after)).IsChain
        (fun a b => b < Clock.top → a + policy.responseTimeout ≤ b) ∧
      (∀ earlier u later, after = earlier ++ u :: later →
        (u.move.answers key = true ∨
          (∃ clock result, (clock, .ended s.label key result) ∈ chronicle s.label [u]) ∨
          ∃ e ∈ entries u.after.registry.slots, e.label = s.label ∧ e.isLive = false) →
        attempts s.label later = []) ∧
      ∀ u ∈ before ++ t :: after, u.move.isOutside = false →
        Link.Takes u.before.registry.link u.events u.after.registry.link := by
  have hslots : r.slots = [] := by rw [Registry.create_eq hr]
  obtain ⟨hbefore, hafter⟩ := List.forall_mem_append.1 hapart
  obtain ⟨msg, hencode, hopened, hpath⟩ := h.opened hr hopens hbefore
  obtain ⟨hmetered, hsent⟩ :=
    hpath.metered hopened.coherent hopened.policy hopened.metered hafter
  rw [← attempts_append, List.singleton_append] at hmetered
  obtain ⟨hcount, hspaced⟩ := hmetered.bounded
  refine ⟨msg, hencode, hopened.seen, fun u hu => (hsent u hu).1, hcount, hspaced, ?_, ?_⟩
  · intro earlier u later hsplit hover
    subst hsplit
    rw [← List.cons_append, ← List.append_assoc] at h
    obtain ⟨hrun, hmoves, hlater⟩ := h.split
    obtain ⟨-, -, hearlier⟩ := hrun.split
    obtain ⟨hcoherent, hkeyed, -⟩ := hrun.keyed hslots
    obtain ⟨hfirst, hrest⟩ := List.forall_mem_append.1 hafter
    obtain ⟨hu, hrest⟩ := List.forall_mem_cons.1 hrest
    have hnow := (hearlier.move hmoves).metered hopened.coherent hopened.policy hopened.metered
      (List.forall_mem_append.2 ⟨hfirst, by simpa using hu⟩)
    refine hlater.attempts_eq_nil (hmoves.preserves hcoherent).1 ?_ hrest
    -- Each of the three leaves nothing of the label outstanding.
    rcases hover with hanswers | ⟨clock, result, hended⟩ | ⟨e, he, hlabel, hended⟩
    · exact hnow.1.over_of (.inr (hmoves.answered hcoherent hkeyed hanswers))
    · exact (hnow.2 u (by simp)).2 ⟨_, hended, rfl⟩
    · exact hnow.1.over_of (.inl ⟨e, Registry.mem_share.2 ⟨he, hlabel⟩, hended⟩)
  · intro u hu hmove
    obtain ⟨earlier, later, hsplit⟩ := List.append_of_mem hu
    rw [hsplit] at h
    obtain ⟨hrun, hmoves, -⟩ := h.split
    exact hmoves.takes (hrun.keyed hslots).1 hmove

/-- A request is sent again by an `update` and, when the answer to another one has a program that sets the
clock, a second time, which the link refuses. It runs out of time later. -/
theorem Run.attempts_bounded_refused :
    ∃ (r : Registry Outbox Nat) (before after : List (Step Outbox Nat)) (t : Step Outbox Nat)
      (m : Machine Outbox Nat),
      Registry.create {} { retries := 2, responseTimeout := 10, instanceExpiry := 100 } = .ok (r, []) ∧
      Run r (before ++ t :: after) m ∧ m.registry.outstanding = 0 ∧
      attempts 1 (t :: after) = [0, 12, 25] ∧ (attempts 1 (t :: after)).length ≤ 2 + 1 ∧
      (attempts 1 (t :: after)).IsChain (fun a b => b < Clock.top → a + 10 ≤ b) := by
  have hr : Registry.create ({} : Outbox) { retries := 2, responseTimeout := 10, instanceExpiry := 100 } =
      .ok ((⟨{}, { retries := 2, responseTimeout := 10, instanceExpiry := 100 }, {}, [], 0⟩ :
        Registry Outbox Nat), []) := rfl
  have h₁ := (Run.start (r := (⟨{}, { retries := 2, responseTimeout := 10, instanceExpiry := 100 }, {},
    [], 0⟩ : Registry Outbox Nat))).perform rfl
    (.register ⟨9, .given 3, ⟨0, 2, []⟩, 0⟩ (.act (.update 25) .done))
  have h₂ := h₁.perform (stack_run _) (.register ⟨9, .given 4, ⟨0, 2, []⟩, 1⟩ .done)
  have h₃ := h₂.perform (stack_run _) (.act (.update 12))
  have h₄ := h₃.perform (stack_run _) (.act (.adjust fun o => o.refuse (some .noSpace)))
  have h₅ := h₄.perform (stack_run _) (.act (.respond ⟨9, 3, 0, 2⟩ [0]))
  have h₆ := h₅.perform (stack_run _) (.act (.update 40))
  rw [List.append_assoc, List.append_assoc, List.append_assoc, List.append_assoc] at h₆
  obtain ⟨-, -, -, -, hcount, hspaced, -⟩ := Run.attempts_bounded hr h₆
    (Step.opens_start _ .host ⟨9, 4, 0, 2⟩ (by decide +kernel)) (by decide +kernel)
  exact ⟨_, _, _, _, _, hr, h₆, by decide +kernel, by decide +kernel, hcount, hspaced⟩

end Machine

end PlatformMessaging

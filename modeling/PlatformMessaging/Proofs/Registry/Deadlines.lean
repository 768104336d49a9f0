import PlatformMessaging.Proofs.Registry.Chronicle

/-!
# The interval until the next timer

Between operations, the interval that an `update` answers with is exact
(`Machine.Run.interval_exact`): until it is over an `update` has nothing to do but to set the clock, and
at its end some request is repeated or ends. So a host that waits for it neither wakes for nothing nor
too late.

* `Entry.visit_looks` inverts a look at the timers of a request that waits for its response. Every later
  fact about timers comes from it.
* `Registry.Timely` is the invariant, kept by every move (`Machine.Effect.timely`): each outstanding
  request waits with both timers armed, and while the clock can still advance, neither deadline has
  come. It needs no request to be looked at in time: a late look arms the timer from the clock then in
  force.
-/

namespace PlatformMessaging

open Slots

variable {σ ι : Type}

/-! ## The timers of a request -/

/-- The request waits for its response, its retry timer due at one reading and its expiry at another. -/
structure Entry.Waits (e : Entry σ ι) (due expiry : Nat) : Prop where
  state : e.transaction.state = .awaitingResponse
  timer : e.transaction.timer.deadline = some due
  backstop : e.expiry.deadline = some expiry

namespace Entry

theorem Waits.isLive {e : Entry σ ι} {due expiry : Nat} (h : e.Waits due expiry) :
    e.isLive = true := by
  rw [Entry.isLive, h.state]
  rfl

theorem Waits.timeouts {e : Entry σ ι} {due expiry : Nat} (h : e.Waits due expiry) (now : Nat) :
    e.timeouts now = [expiry - now, due - now] := by
  simp [Entry.timeouts, Transaction.remaining, Timer.remaining, h.timer, h.backstop]

theorem opened_waits (label : ι) (key : Key) (msg : Bytes) (policy : Policy) (clock : Nat)
    (program : Program σ ι) :
    (opened label key msg policy clock program).Waits (Clock.add clock policy.responseTimeout)
      (Clock.add clock policy.instanceExpiry) :=
  ⟨rfl, rfl, rfl⟩

/-- The request after another attempt, with so many retries left. -/
def repeated (e : Entry σ ι) (left now timeout : Nat) : Entry σ ι :=
  { e with transaction := { e.transaction with
      retriesLeft := left, timer := .arm now timeout, state := .awaitingResponse } }

theorem Waits.repeated {e : Entry σ ι} {due expiry : Nat} (h : e.Waits due expiry)
    (left now timeout : Nat) :
    (e.repeated left now timeout).Waits (Clock.add now timeout) expiry :=
  ⟨rfl, rfl, h.backstop⟩

/-- The ends of a look at the timers of a request that waits: nothing is due, or it ran out of time, or
it is sent again. -/
inductive Looks (e : Entry σ ι) (link : σ) (now timeout due expiry : Nat) : Visit σ ι → Prop where
  | waits (hdue : now < due) (hexpiry : now < expiry) :
      Looks e link now timeout due expiry ⟨e, link, false, []⟩
  | lapses (link' : σ) (hover : expiry ≤ now ∨ due ≤ now ∧ e.transaction.retriesLeft = 0) :
      Looks e link now timeout due expiry ⟨e.terminate .timedOut, link', true, []⟩
  | repeats (left : Nat) (link' : σ) (answer : Except LinkError Unit) (warnings : List Warning)
      (hdue : due ≤ now) (hexpiry : now < expiry) (hleft : e.transaction.retriesLeft = left + 1) :
      Looks e link now timeout due expiry ⟨e.repeated left now timeout, link', false,
        .attempt e.label e.key e.transaction.request answer now :: warnings.map Event.warning⟩

theorem visit_looks [Link σ] {e : Entry σ ι} {due expiry : Nat} (h : e.Waits due expiry) (link : σ)
    (now timeout : Nat) : e.Looks link now timeout due expiry (e.visit link now timeout) := by
  have hterminal : e.transaction.state.isTerminal = false := by rw [h.state]; rfl
  unfold visit
  rw [if_pos h.isLive]
  rcases Nat.lt_or_ge now expiry with hexpiry | hexpiry
  · rw [Timer.check_of_lt h.backstop hexpiry, if_neg (by simp)]
    unfold Transaction.poll
    rw [hterminal, if_neg Bool.false_ne_true]
    rcases Nat.lt_or_ge now due with hdue | hdue
    · rw [Timer.check_of_lt h.timer hdue]
      simp only [reduceCtorEq, ↓reduceIte]
      exact .waits hdue hexpiry
    · rw [Timer.check_of_le h.timer hdue]
      cases hleft : e.transaction.retriesLeft with
      | zero =>
        simp only [↓reduceIte]
        exact .lapses link (.inr ⟨hdue, hleft⟩)
      | succ left =>
        simp only [reduceCtorEq, ↓reduceIte]
        exact .repeats left _ _ _ hdue hexpiry hleft
  · rw [Timer.check_of_le h.backstop hexpiry, if_pos rfl]
    exact .lapses link (.inl hexpiry)

theorem Waits.visit [Link σ] {e : Entry σ ι} {due expiry : Nat} (h : e.Waits due expiry) {now : Nat}
    (hdue : now < due) (hexpiry : now < expiry) (link : σ) (timeout : Nat) :
    e.visit link now timeout = ⟨e, link, false, []⟩ := by
  have hlooks := visit_looks h link now timeout
  generalize e.visit link now timeout = v at hlooks
  cases hlooks with
  | waits => rfl
  | lapses link' hover => omega
  | repeats left link' answer warnings hover => omega

theorem visit_of_ended [Link σ] {e : Entry σ ι} (h : e.isLive = false) (link : σ)
    (now timeout : Nat) : e.visit link now timeout = ⟨e, link, false, []⟩ := by
  unfold visit
  rw [if_neg (by simp [h])]

theorem isLive_of_visit [Link σ] {e : Entry σ ι} {link : σ} {now timeout : Nat}
    (h : (e.visit link now timeout).entry.isLive = true) : e.isLive = true := by
  by_contra hended
  rw [visit_of_ended (by simpa using hended)] at h
  exact hended h

end Entry

/-! ## Timely registries -/

/-- A deadline that is a clock reading, and lies ahead while the clock can advance. -/
def Clock.Ahead (clock deadline : Nat) : Prop :=
  deadline ≤ top ∧ (clock < top → clock < deadline)

theorem Clock.add_ahead (clock : Nat) {time : Nat} (h : 0 < time) : Ahead clock (add clock time) := by
  unfold Ahead add
  omega

/-- The request waits with both deadlines ahead. -/
def Entry.Timely (e : Entry σ ι) (clock : Nat) : Prop :=
  ∃ due expiry, e.Waits due expiry ∧ Clock.Ahead clock due ∧ Clock.Ahead clock expiry

theorem Entry.Timely.visit [Link σ] {e : Entry σ ι} {clock : Nat} (h : e.Timely clock) (link : σ)
    (now : Nat) {timeout : Nat} (htimeout : 0 < timeout)
    (hlive : (e.visit link now timeout).entry.isLive = true) :
    (e.visit link now timeout).entry.Timely now := by
  obtain ⟨due, expiry, hwaits, hdue, hexpiry⟩ := h
  have hlooks := visit_looks hwaits link now timeout
  generalize e.visit link now timeout = v at hlooks hlive
  cases hlooks with
  | waits hdue' hexpiry' =>
    exact ⟨due, expiry, hwaits, ⟨hdue.1, fun _ => hdue'⟩, ⟨hexpiry.1, fun _ => hexpiry'⟩⟩
  | lapses link' hover =>
    rw [e.isLive_terminate rfl] at hlive
    cases hlive
  | repeats left link' answer warnings hdue' hexpiry' hleft =>
    exact ⟨Clock.add now timeout, expiry, hwaits.repeated left now timeout,
      Clock.add_ahead now htimeout, ⟨hexpiry.1, fun _ => hexpiry'⟩⟩

namespace Registry

/-- The times of the policy are not zero, and every outstanding request is timely. -/
structure Timely (r : Registry σ ι) : Prop where
  timeout : 0 < r.policy.responseTimeout
  expiry : 0 < r.policy.instanceExpiry
  clock : r.clock ≤ Clock.top
  live : ∀ e ∈ live r.slots, e.Timely r.clock

theorem create_timely {link : σ} {policy : Policy} {r : Registry σ ι} {warnings : List Warning}
    (h : Registry.create link policy = .ok (r, warnings)) : r.Timely := by
  obtain rfl := create_eq h
  have hnonzero : ¬(policy.responseTimeout = 0 ∨ policy.instanceExpiry = 0) := by
    intro hzero
    simp [create, Policy.validate, hzero] at h
  rw [not_or] at hnonzero
  exact ⟨Nat.pos_of_ne_zero hnonzero.1, Nat.pos_of_ne_zero hnonzero.2, Nat.zero_le _,
    by simp [Slots.live]⟩

end Registry

theorem Action.clock_update_le (now : Nat) {clock : Nat} (h : clock ≤ Clock.top) :
    (Action.update now : Action σ).clock clock ≤ Clock.top := by
  unfold Action.clock
  dsimp only
  split_ifs
  · exact h
  · exact Nat.min_le_right _ _

/-- Every move keeps the outstanding requests timely. -/
theorem Machine.Effect.timely [Link σ] {r r' : Registry σ ι} {move : Move σ ι}
    {events : List (Event ι)} (h : Effect r move events r') (hr : r.Timely) : r'.Timely := by
  have hpolicy := h.policy
  have hkeeps : r'.clock = r.clock → (∀ e ∈ entries r'.slots, e.isLive = true →
      e ∈ entries r.slots ∨ e.Timely r.clock) → r'.Timely := by
    intro hclock hlive
    refine ⟨hpolicy ▸ hr.timeout, hpolicy ▸ hr.expiry, hclock ▸ hr.clock, fun e he => ?_⟩
    obtain ⟨hmem, halive⟩ := mem_live.1 he
    rw [hclock]
    exact (hlive e hmem halive).elim (fun hold => hr.live e (mem_live.2 ⟨hold, halive⟩)) id
  cases h with
  | registers hregisters _ hclock =>
    refine hkeeps hclock fun e he _ => ?_
    cases hregisters with
    | fails error _ hslots _ => exact .inl (hslots ▸ he)
    | opens iid msg _ _ _ hslots _ =>
      rw [hslots] at he
      rcases List.mem_cons.1 ((perm_entries_insert _ r.slots).mem_iff.1 he) with rfl | hold
      · exact .inr ⟨_, _, Entry.opened_waits .., Clock.add_ahead _ hr.timeout,
          Clock.add_ahead _ hr.expiry⟩
      · exact .inl hold
  | looks now =>
    have hclock : (Action.update now : Action σ).clock r.clock ≤ Clock.top :=
      Action.clock_update_le now hr.clock
    have hclock' : (r.setClock now).1.sweep.1.clock = (Action.update now : Action σ).clock r.clock :=
      congrArg Registry.clock (r.setClock_fst now)
    refine ⟨hpolicy ▸ hr.timeout, hpolicy ▸ hr.expiry, hclock' ▸ hclock, fun e he => ?_⟩
    obtain ⟨hmem, hlive⟩ := mem_live.1 he
    rw [r.entries_look] at hmem
    obtain ⟨e₀, he₀, rfl⟩ := List.mem_map.1 hmem
    rw [hclock']
    exact (hr.live e₀ (mem_live.2 ⟨he₀, Entry.isLive_of_visit hlive⟩)).visit r.link _ hr.timeout hlive
  | ends hremove _ =>
    refine hkeeps (Registry.clock_of_remove? hremove) fun e he _ => .inl ?_
    have hperm := perm_entries_remove? (Registry.slots_of_remove? hremove).1
    exact hperm.mem_iff.2 (List.mem_cons_of_mem _ he)
  | rests _ hslots _ hclock _ => exact hkeeps hclock fun e he _ => .inl (hslots ▸ he)

theorem Machine.Run.timely [Link σ] {link : σ} {policy : Policy} {r : Registry σ ι}
    {warnings : List Warning} (hr : Registry.create link policy = .ok (r, warnings))
    {steps : List (Step σ ι)} {m : Machine σ ι} (h : Run r steps m) :
    m.Coherent ∧ m.registry.Timely := by
  have hslots : r.slots = [] := by rw [Registry.create_eq hr]
  refine h.induct (P := fun _ m => m.Coherent ∧ m.registry.Timely) ?_ ?_
  · exact ⟨coherent_start r hslots, Registry.create_timely hr⟩
  · rintro steps m v m' ⟨hm, htimely⟩ hmoves
    exact ⟨(hmoves.preserves hm).1, (hmoves.effect hm).timely htimely⟩

/-! ## The next timer -/

namespace Registry

theorem nextTimeout_eq_top {r : Registry σ ι} (h : Slots.live r.slots = []) :
    r.nextTimeout = Clock.top := by
  simp [nextTimeout, h]

theorem nextTimeout_le {r : Registry σ ι} {e : Entry σ ι} (he : e ∈ Slots.live r.slots)
    {time : Nat} (htime : time ∈ e.timeouts r.clock) : r.nextTimeout ≤ time := by
  have hmem : time ∈ (Slots.live r.slots).flatMap fun e => e.timeouts r.clock :=
    List.mem_flatMap.2 ⟨e, he, htime⟩
  unfold nextTimeout
  cases hmin : ((Slots.live r.slots).flatMap fun e => e.timeouts r.clock).min? with
  | none =>
    rw [List.min?_eq_none_iff.1 hmin] at hmem
    cases hmem
  | some least => exact (List.min?_eq_some_iff.1 hmin).2 time hmem

theorem Timely.next_le {r : Registry σ ι} (hr : r.Timely) (hclock : r.clock < Clock.top)
    {e : Entry σ ι} (he : e ∈ Slots.live r.slots) {due expiry : Nat} (hwaits : e.Waits due expiry) :
    r.clock < due ∧ r.clock < expiry ∧ r.clock + r.nextTimeout ≤ due ∧
      r.clock + r.nextTimeout ≤ expiry := by
  obtain ⟨due', expiry', hwaits', ⟨-, hdue⟩, ⟨-, hexpiry⟩⟩ := hr.live e he
  obtain rfl := Option.some.inj (hwaits'.timer.symm.trans hwaits.timer)
  obtain rfl := Option.some.inj (hwaits'.backstop.symm.trans hwaits.backstop)
  have hdue := hdue hclock
  have hexpiry := hexpiry hclock
  have hnext : r.nextTimeout ≤ due' - r.clock := nextTimeout_le he (by simp [hwaits.timeouts])
  have hnext' : r.nextTimeout ≤ expiry' - r.clock := nextTimeout_le he (by simp [hwaits.timeouts])
  omega

theorem Timely.exists_due {r : Registry σ ι} (hr : r.Timely) (hclock : r.clock < Clock.top)
    (hlive : Slots.live r.slots ≠ []) :
    ∃ e ∈ Slots.live r.slots, ∃ due expiry, e.Waits due expiry ∧ 0 < r.nextTimeout ∧
      r.clock + r.nextTimeout ≤ Clock.top ∧
      (due = r.clock + r.nextTimeout ∨ expiry = r.clock + r.nextTimeout) := by
  have hmem : r.nextTimeout ∈ (Slots.live r.slots).flatMap fun e => e.timeouts r.clock := by
    unfold nextTimeout
    cases hmin : ((Slots.live r.slots).flatMap fun e => e.timeouts r.clock).min? with
    | none =>
      exfalso
      obtain ⟨e, he⟩ := List.exists_mem_of_ne_nil _ hlive
      obtain ⟨due, expiry, hwaits, -⟩ := hr.live e he
      have hnone := List.flatMap_eq_nil_iff.1 (List.min?_eq_none_iff.1 hmin) e he
      rw [hwaits.timeouts] at hnone
      cases hnone
    | some least => exact (List.min?_eq_some_iff.1 hmin).1
  obtain ⟨e, he, htime⟩ := List.mem_flatMap.1 hmem
  obtain ⟨due, expiry, hwaits, ⟨hdueTop, hdue⟩, ⟨hexpiryTop, hexpiry⟩⟩ := hr.live e he
  have hdue := hdue hclock
  have hexpiry := hexpiry hclock
  rw [hwaits.timeouts, List.mem_cons, List.mem_singleton] at htime
  refine ⟨e, he, due, expiry, hwaits, ?_⟩
  rcases htime with htime | htime
  · exact ⟨by omega, by omega, .inr (by omega)⟩
  · exact ⟨by omega, by omega, .inl (by omega)⟩

theorem Timely.nextTimeout_pos {r : Registry σ ι} (hr : r.Timely) (hclock : r.clock < Clock.top) :
    0 < r.nextTimeout := by
  by_cases hlive : Slots.live r.slots = []
  · rw [nextTimeout_eq_top hlive]
    decide
  · obtain ⟨e, -, due, expiry, -, hpos, -⟩ := hr.exists_due hclock hlive
    exact hpos

end Registry

/-! ## Updates before the next timer -/

theorem Slots.sweep_quiet [Link σ] (now timeout : Nat) (slots : List (Slot σ ι)) (i : Nat) (link : σ)
    (h : ∀ e ∈ entries slots, ∀ link, e.visit link now timeout = ⟨e, link, false, []⟩) :
    sweep now timeout i slots link = ⟨slots, link, [], []⟩ := by
  induction slots generalizing i with
  | nil => rfl
  | cons s rest ih =>
    have hrest : ∀ e ∈ entries rest, ∀ link, e.visit link now timeout = ⟨e, link, false, []⟩ := by
      intro e he
      refine h e ?_
      rw [entries_cons]
      exact List.mem_append_right _ he
    obtain ⟨generation, entry⟩ := s
    cases entry with
    | none =>
      unfold sweep
      dsimp only
      rw [ih (i + 1) hrest]
    | some e =>
      have he : e ∈ entries (⟨generation, some e⟩ :: rest) :=
        mem_entries.2 ⟨_, List.mem_cons_self, rfl⟩
      unfold sweep
      dsimp only
      rw [h e he, ih (i + 1) hrest]
      rfl

namespace Registry

/-- An `update` before the next timer sets the clock and answers, with a warning if the reading lies
back, and does nothing else. -/
theorem Timely.perform_early [Link σ] {r : Registry σ ι} (hr : r.Timely) (hclock : r.clock < Clock.top)
    {t : Nat} (ht : t ≤ Clock.top) (hearly : t < r.clock + r.nextTimeout) :
    r.perform (.act (.update t)) =
      ⟨.interval { r with clock := max r.clock t }.nextTimeout,
        (r.setClock t).2.map Event.warning ++
          [.returned .host (.interval { r with clock := max r.clock t }.nextTimeout)],
        { r with clock := max r.clock t }⟩ := by
  have hset : (r.setClock t).1 = { r with clock := max r.clock t } := by
    rw [setClock_fst]
    unfold Action.clock
    dsimp only
    split_ifs <;> congr 1 <;> omega
  have hpos := hr.nextTimeout_pos hclock
  have hquiet : ∀ e ∈ entries r.slots, ∀ link,
      e.visit link (max r.clock t) r.policy.responseTimeout = ⟨e, link, false, []⟩ := by
    intro e he link
    by_cases hlive : e.isLive = true
    · obtain ⟨due, expiry, hwaits, -⟩ := hr.live e (mem_live.2 ⟨he, hlive⟩)
      obtain ⟨-, -, hdue, hexpiry⟩ := hr.next_le hclock (mem_live.2 ⟨he, hlive⟩) hwaits
      exact hwaits.visit (by omega) (by omega) link _
    · exact Entry.visit_of_ended (by simpa using hlive) link _ _
  have hsweep : ({ r with clock := max r.clock t } : Registry σ ι).sweep =
      ({ r with clock := max r.clock t }, [], []) := by
    unfold sweep
    dsimp only
    rw [sweep_quiet _ _ _ _ _ hquiet]
  have hstart : Machine.start ⟨r, [], []⟩ .host (.act (.update t)) =
      ⟨{ r with clock := max r.clock t }, [.finishing .host []],
        ((r.setClock t).2.map Event.warning).reverse⟩ := by
    show Machine.update ⟨r, [], []⟩ .host t = _
    unfold Machine.update
    dsimp only
    rw [hset, hsweep]
    simp [Machine.record, Machine.push]
  unfold perform
  rw [hstart, Machine.run_of_step rfl, Machine.run_of_stack_eq_nil rfl]
  simp [Machine.answer, Machine.record]

end Registry

/-! ## The update at the next timer -/

namespace Machine

variable [Link σ]

theorem exists_moves_of_step {m m' : Machine σ ι} (h : m.step = some m') : ∃ v, m.Moves v m' := by
  rcases hstack : m.stack with _ | ⟨f, rest⟩
  · rw [step_of_stack_eq_nil hstack] at h
    cases h
  · exact ⟨f.move, moves_of_step hstack h⟩

theorem mem_sightings_run {m : Machine σ ι} (hm : m.Coherent) {x : Sighting ι}
    (hx : x ∈ sightings m.events) : x ∈ sightings m.run.events := by
  refine (run_induct (P := fun m => m.Coherent ∧ x ∈ sightings m.events) ?_ ⟨hm, hx⟩).2
  rintro m m' ⟨hm, hx⟩ hstep
  obtain ⟨v, hmoves⟩ := exists_moves_of_step hstep
  obtain ⟨events, hevents, -⟩ := hmoves.tells hm
  refine ⟨(hmoves.preserves hm).1, ?_⟩
  rw [hevents, sightings_append]
  exact List.mem_append_right _ hx

theorem Moves.lapses {m m' : Machine σ ι} {v : Move σ ι} (hm : m.Coherent) (h : m.Moves v m')
    {e : Entry σ ι} (he : e ∈ entries m.registry.slots) (hended : e.isLive = false) :
    e ∈ entries m'.registry.slots ∨ e.lapsed ∈ sightings m'.events := by
  obtain ⟨events, hevents, heffect⟩ := h.tells hm
  generalize m'.registry = r' at heffect ⊢
  cases heffect with
  | registers hregisters _ _ =>
    left
    cases hregisters with
    | fails error _ hslots _ => exact hslots ▸ he
    | opens iid msg _ _ _ hslots _ =>
      rw [hslots]
      exact (perm_entries_insert _ m.registry.slots).mem_iff.2 (List.mem_cons_of_mem _ he)
  | looks now =>
    left
    rw [m.registry.entries_look]
    refine List.mem_map.2 ⟨e, he, ?_⟩
    rw [Entry.visit_of_ended hended]
  | @ends _ _ ref e' result outstanding clock hremove hends =>
    have hperm := perm_entries_remove? (Registry.slots_of_remove? hremove).1
    rcases List.mem_cons.1 (hperm.mem_iff.1 he) with rfl | hrest
    · right
      cases hends with
      | answers hlive _ =>
        rw [hended] at hlive
        cases hlive
      | expires _ hresult =>
        rw [hevents, hresult, sightings_append]
        exact List.mem_append_left _ (List.mem_singleton_self _)
    · exact .inl hrest
  | rests _ hslots _ _ _ => exact .inl (hslots ▸ he)

theorem lapsed_mem_sightings_run {m : Machine σ ι} (hm : m.Coherent) {e : Entry σ ι}
    (he : e ∈ entries m.registry.slots) (hended : e.isLive = false) :
    e.lapsed ∈ sightings m.run.events := by
  have hrun := run_induct (m := m) (P := fun m => m.Coherent ∧
    (e ∈ entries m.registry.slots ∨ e.lapsed ∈ sightings m.events)) ?_ ⟨hm, .inl he⟩
  · obtain ⟨hcoherent, hmem | hseen⟩ := hrun
    · rw [← live_eq_entries (hcoherent.ended_eq_nil (stack_run m))] at hmem
      rw [(mem_live.1 hmem).2] at hended
      cases hended
    · exact hseen
  · rintro m m' ⟨hm, hlapses⟩ hstep
    obtain ⟨v, hmoves⟩ := exists_moves_of_step hstep
    refine ⟨(hmoves.preserves hm).1, hlapses.elim (fun hmem => hmoves.lapses hm hmem hended) ?_⟩
    intro hseen
    obtain ⟨events, hevents, -⟩ := hmoves.tells hm
    right
    rw [hevents, sightings_append]
    exact List.mem_append_right _ hseen

end Machine

namespace Registry

/-- An `update` at the next timer repeats or ends a request. -/
theorem Timely.perform_due [Link σ] {r : Registry σ ι} (hr : r.Timely)
    (hrest : Machine.Coherent (⟨r, [], []⟩ : Machine σ ι)) (hclock : r.clock < Clock.top)
    (hlive : Slots.live r.slots ≠ []) :
    r.clock + r.nextTimeout ≤ Clock.top ∧ ∃ e ∈ Slots.live r.slots,
      .sent e.label e.key e.transaction.request ∈
          sightings (r.perform (.act (.update (r.clock + r.nextTimeout)))).events ∨
        e.lapsed ∈ sightings (r.perform (.act (.update (r.clock + r.nextTimeout)))).events := by
  obtain ⟨e, he, due, expiry, hwaits, -, htop, hat⟩ := hr.exists_due hclock hlive
  refine ⟨htop, e, he, ?_⟩
  generalize hnow : r.clock + r.nextTimeout = now at htop hat
  have hset : (Action.update now : Action σ).clock r.clock = now := by
    unfold Action.clock
    dsimp only
    rw [if_neg (by omega), Nat.min_eq_left htop]
  have hstart : (Machine.start ⟨r, [], []⟩ .host (.act (.update now))).Coherent :=
    ((Machine.Moves.call (.host _ rfl)).preserves hrest).1
  have hreport : sightings (r.perform (.act (.update now))).events =
      (sightings (Machine.start ⟨r, [], []⟩ .host (.act (.update now))).run.events).reverse :=
    List.filterMap_reverse
  rw [hreport, List.mem_reverse, List.mem_reverse]
  have hmem := (mem_live.1 he).1
  have hlooks := Entry.visit_looks hwaits r.link now r.policy.responseTimeout
  generalize hvisit : e.visit r.link now r.policy.responseTimeout = v at hlooks
  -- The request with the earliest timer is due at this reading, so it does not wait on.
  cases hlooks with
  | waits hdue hexpiry => omega
  | lapses link' hover =>
    right
    have hlapsed : (e.terminate .timedOut).lapsed = e.lapsed := by
      rw [Entry.lapsed, e.key_terminate]
      rfl
    rw [← hlapsed]
    refine Machine.lapsed_mem_sightings_run hstart ?_ (e.isLive_terminate rfl)
    show e.terminate .timedOut ∈ entries (r.setClock now).1.sweep.1.slots
    rw [r.entries_look, hset]
    exact List.mem_map.2 ⟨e, hmem, by rw [hvisit]⟩
  | repeats left link' answer warnings hdue hexpiry hleft =>
    left
    refine Machine.mem_sightings_run hstart ?_
    show _ ∈ sightings (((r.setClock now).2.map Event.warning ++
      (r.setClock now).1.sweep.2.2).reverse ++ [])
    rw [List.append_nil, sightings, List.filterMap_reverse, List.mem_reverse, ← sightings,
      r.sightings_look, hset]
    refine List.mem_flatMap.2 ⟨e, hmem, ?_⟩
    rw [hvisit]
    exact List.mem_cons_self

end Registry

/-! ## What an update answers -/

namespace Machine

variable [Link σ]

theorem Acts.stack {m m' : Machine σ ι} {caller : Caller ι} {action : Action σ}
    (h : m.Acts caller action m') : ∃ above, m'.stack = above ++ m.stack := by
  cases h with
  | completes ref e result outcome _ _ h =>
    obtain ⟨program, -, hstack⟩ := h.program
    exact ⟨[_, _], hstack⟩
  | update now =>
    obtain ⟨refs, hstack, -⟩ := (m.sweeps_update caller now).stack
    exact ⟨[_], hstack⟩
  | quiet r outcome h => exact ⟨[], rfl⟩

theorem stack_step {m m' : Machine σ ι} (hm : m.Coherent) {f : Frame σ ι} {rest : List (Frame σ ι)}
    (hstack : m.stack = f :: rest) (hstep : m.step = some m') : ∃ above, m'.stack = above ++ rest := by
  have hmoves := moves_of_step hstack hstep
  generalize f.move = v at hmoves
  cases hmoves with
  | @call caller op m₀ hcalls =>
    have hstack₀ : ∃ above, m₀.stack = above ++ rest := by
      cases hcalls with
      | host _ hnil => exact absurd (hnil.symm.trans hstack) (by simp)
      | act hrunning =>
        obtain ⟨-, rfl⟩ := List.cons.inj (hrunning.symm.trans hstack)
        exact ⟨[_], rfl⟩
      | register hrunning =>
        obtain ⟨-, rfl⟩ := List.cons.inj (hrunning.symm.trans hstack)
        exact ⟨[_], rfl⟩
    obtain ⟨above, hstack₀⟩ := hstack₀
    cases op with
    | register s program => exact ⟨above, hstack₀⟩
    | act action =>
      obtain ⟨new, hnew⟩ := (act_cases (hm.calls hcalls).programs caller action).stack
      refine ⟨new ++ above, ?_⟩
      rw [List.append_assoc, ← hstack₀]
      exact hnew
  | expire hfinishing =>
    obtain ⟨e, -, hcompletes⟩ := completes_expire hm hfinishing
    obtain ⟨-, rfl⟩ := List.cons.inj (hfinishing.symm.trans hstack)
    obtain ⟨program, -, hnew⟩ := hcompletes.program
    exact ⟨[_, _], hnew⟩
  | settle hsettling _ events _ =>
    obtain ⟨-, rfl⟩ := List.cons.inj (hsettling.symm.trans hstack)
    exact ⟨[], rfl⟩

/-- The host waits for an `update` to end, or was just answered with the time until the next timer. -/
def Updates (m : Machine σ ι) : Prop :=
  (∃ above refs, m.stack = above ++ [.finishing .host refs]) ∨
    ∃ events, m.stack = [] ∧
      m.events = .returned .host (.interval m.registry.nextTimeout) :: events

theorem Updates.step {m m' : Machine σ ι} (hm : m.Coherent) (h : m.Updates)
    (hstep : m.step = some m') : m'.Updates := by
  rcases h with ⟨_ | ⟨f, above⟩, refs, hstack⟩ | ⟨events, hstack, -⟩
  · cases refs with
    | nil =>
      unfold Machine.step at hstep
      rw [hstack] at hstep
      obtain rfl := Option.some.inj hstep
      exact .inr ⟨_, rfl, rfl⟩
    | cons ref refs =>
      obtain ⟨e, -, hcompletes⟩ := completes_expire hm hstack
      obtain ⟨program, -, hnew⟩ := hcompletes.program
      unfold Machine.step at hstep
      rw [hstack] at hstep
      obtain rfl := Option.some.inj hstep
      exact .inl ⟨[_], refs, hnew⟩
  · obtain ⟨new, hnew⟩ := stack_step hm hstack hstep
    exact .inl ⟨new ++ above, refs, hnew.trans (List.append_assoc ..).symm⟩
  · rw [step_of_stack_eq_nil hstack] at hstep
    cases hstep

end Machine

theorem Registry.outcome_update [Link σ] {r : Registry σ ι}
    (hrest : Machine.Coherent (⟨r, [], []⟩ : Machine σ ι)) (t : Nat) :
    (r.perform (.act (.update t))).outcome =
      .interval (r.perform (.act (.update t))).registry.nextTimeout := by
  have hstart : (Machine.start ⟨r, [], []⟩ .host (.act (.update t))).Coherent :=
    ((Machine.Moves.call (.host _ rfl)).preserves hrest).1
  have hrun := Machine.run_induct (P := fun m => m.Coherent ∧ m.Updates) ?_
    ⟨hstart, .inl ⟨[], _, rfl⟩⟩
  · obtain ⟨-, ⟨above, refs, hstack⟩ | ⟨events, -, hevents⟩⟩ := hrun
    · rw [Machine.stack_run] at hstack
      simp at hstack
    · unfold perform
      dsimp only
      rw [hevents]
  · rintro m m' ⟨hm, hupdates⟩ hstep
    obtain ⟨v, hmoves⟩ := Machine.exists_moves_of_step hstep
    exact ⟨(hmoves.preserves hm).1, hupdates.step hm hstep⟩

namespace Machine

/-- **The interval is exact.** Whenever nothing is under way after a run of a new registry and the clock
is not at its top, every outstanding request awaits its response with both timers armed at later
readings, and an `update` answers with `nextTimeout`. That interval is not zero, and `Clock.top` if
nothing is outstanding. An `update` before it is over only sets the clock, unless it goes back; one at
its end, which the clock can reach, repeats or ends an outstanding request. -/
theorem Run.interval_exact [Link σ] {link : σ} {policy : Policy} {r : Registry σ ι}
    {warnings : List Warning} (hr : Registry.create link policy = .ok (r, warnings))
    {steps : List (Step σ ι)} {m : Machine σ ι} (h : Run r steps m) (hstack : m.stack = [])
    (hclock : m.registry.clock < Clock.top) :
    (∀ e ∈ live m.registry.slots, ∃ due expiry, e.Waits due expiry ∧
      m.registry.clock < due ∧ m.registry.clock < expiry) ∧
    (∀ t, (m.registry.perform (.act (.update t))).outcome =
      .interval (m.registry.perform (.act (.update t))).registry.nextTimeout) ∧
    1 ≤ m.registry.nextTimeout ∧
    (m.registry.outstanding = 0 → m.registry.nextTimeout = Clock.top) ∧
    (∀ t ≤ Clock.top, t < m.registry.clock + m.registry.nextTimeout →
      (m.registry.perform (.act (.update t))).registry =
        { m.registry with clock := max m.registry.clock t } ∧
      sightings (m.registry.perform (.act (.update t))).events = []) ∧
    (0 < m.registry.outstanding →
      m.registry.clock + m.registry.nextTimeout ≤ Clock.top ∧
      ∃ e ∈ live m.registry.slots,
        .sent e.label e.key e.transaction.request ∈ sightings (m.registry.perform
          (.act (.update (m.registry.clock + m.registry.nextTimeout)))).events ∨
        .ended e.label e.key (.error .timedOut) ∈ sightings (m.registry.perform
          (.act (.update (m.registry.clock + m.registry.nextTimeout)))).events) := by
  obtain ⟨hcoherent, htimely⟩ := h.timely hr
  have hrest : Coherent (⟨m.registry, [], []⟩ : Machine σ ι) := by
    refine ⟨?_, hcoherent.programs⟩
    rw [hcoherent.ended_eq_nil hstack]
    exact .refl _
  refine ⟨fun e he => ?_, Registry.outcome_update hrest, htimely.nextTimeout_pos hclock, ?_, ?_, ?_⟩
  · obtain ⟨due, expiry, hwaits, -⟩ := htimely.live e he
    obtain ⟨hdue, hexpiry, -⟩ := htimely.next_le hclock he hwaits
    exact ⟨due, expiry, hwaits, hdue, hexpiry⟩
  · intro hnone
    exact Registry.nextTimeout_eq_top (List.length_eq_zero_iff.1 hnone)
  · intro t ht hearly
    rw [htimely.perform_early hclock ht hearly]
    refine ⟨rfl, ?_⟩
    rw [sightings_append, sightings_warnings]
    rfl
  · intro hsome
    exact htimely.perform_due hrest hclock (List.length_pos_iff.1 hsome)

/-- The program of a request that is answered registers another and calls `update` with a later reading,
at which a third is repeated late. The next timer is that of the second. -/
theorem Run.interval_exact_nested :
    ∃ (r : Registry Outbox Nat) (steps : List (Step Outbox Nat)) (m : Machine Outbox Nat),
      Registry.create {} {} = .ok (r, []) ∧ Run r steps m ∧ m.stack = [] ∧
      m.registry.clock = 2500 ∧ m.registry.nextTimeout = 1499 ∧
      sightings (m.registry.perform (.act (.update 3998))).events = [] ∧
      ∃ e ∈ live m.registry.slots,
        .sent e.label e.key e.transaction.request ∈
          sightings (m.registry.perform (.act (.update 3999))).events ∨
        .ended e.label e.key (.error .timedOut) ∈
          sightings (m.registry.perform (.act (.update 3999))).events := by
  have hr : Registry.create ({} : Outbox) {} =
      .ok ((⟨{}, {}, {}, [], 0⟩ : Registry Outbox Nat), []) := rfl
  have h₁ := (Run.start (r := (⟨{}, {}, {}, [], 0⟩ : Registry Outbox Nat))).perform rfl
    (.register ⟨9, .given 3, ⟨0, 2, []⟩, 0⟩
      (.register ⟨9, .given 5, ⟨0, 2, []⟩, 2⟩ .done (.act (.update 2500) .done)))
  have h₂ := h₁.perform (stack_run _) (.register ⟨9, .given 4, ⟨0, 2, []⟩, 1⟩ .done)
  have h₃ := h₂.perform (stack_run _) (.act (.update 1999))
  have h₄ := h₃.perform (stack_run _) (.act (.respond ⟨9, 3, 0, 2⟩ [0]))
  obtain ⟨-, -, -, -, hearly, hdue⟩ := h₄.interval_exact hr (stack_run _) (by decide +kernel)
  exact ⟨_, _, _, hr, h₄, stack_run _, by decide +kernel, by decide +kernel,
    (hearly 3998 (by decide) (by decide +kernel)).2, (hdue (by decide +kernel)).2⟩

end Machine

end PlatformMessaging

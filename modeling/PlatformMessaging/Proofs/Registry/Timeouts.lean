import PlatformMessaging.Proofs.Registry.Deadlines

/-!
# Requests run out of time within bounds

However late or seldom the clock is set, and whatever programs do meanwhile, a request that is
registered does not run out of time before its attempts or its expiry allow, and the first look at the
timers from its expiry on ends it (`Machine.Run.timed_out_in_bounds`).

For the lower bound, each attempt is paced (`Entry.Paced`): the retry timer is armed from a reading no
earlier than the previous deadline, so that the `n`th deadline is at least `n` response timeouts after
the registration. The upper bound is that the expiry is armed once and looked at first. Both are kept by
every fate that the requests of a label can have (`Machine.Awaited.fate`).
-/

namespace PlatformMessaging

open Slots

variable {σ ι : Type}

/-- The earliest reading at which a request may be out of time that was registered at a reading. -/
def Policy.earliest (p : Policy) (opened : Nat) : Nat :=
  min (Clock.add opened p.retryWindow) (Clock.add opened p.instanceExpiry)

theorem Policy.earliest_le_top (p : Policy) (opened : Nat) : p.earliest opened ≤ Clock.top :=
  Nat.le_trans (Nat.min_le_left _ _) (Clock.add_le_top _ _)

theorem Clock.add_mul_succ_le {opened time n now : Nat} (h : add opened (mul time n) ≤ now) :
    add opened (mul time (n + 1)) ≤ add now time := by
  unfold add mul at *
  rw [Nat.mul_succ]
  omega

namespace Entry

/-- The attempts so far, the one under way included, have each waited a whole response timeout when the
retry timer is due. -/
structure Paced (e : Entry σ ι) (p : Policy) (opened due : Nat) : Prop where
  left : e.transaction.retriesLeft ≤ p.retries
  due : Clock.add opened (Clock.mul p.responseTimeout
    (p.retries - e.transaction.retriesLeft + 1)) ≤ due

theorem opened_paced (label : ι) (key : Key) (msg : Bytes) (p : Policy) (clock : Nat)
    (program : Program σ ι) :
    (opened label key msg p clock program).Paced p clock (Clock.add clock p.responseTimeout) := by
  refine ⟨Nat.le_refl _, ?_⟩
  show Clock.add clock (Clock.mul p.responseTimeout (p.retries - p.retries + 1)) ≤ _
  rw [Nat.sub_self, Nat.zero_add]
  unfold Clock.add Clock.mul
  omega

theorem Paced.repeated {e : Entry σ ι} {p : Policy} {opened due : Nat} (h : e.Paced p opened due)
    {left now : Nat} (hleft : e.transaction.retriesLeft = left + 1) (hdue : due ≤ now) :
    (e.repeated left now p.responseTimeout).Paced p opened (Clock.add now p.responseTimeout) := by
  obtain ⟨hretries, hpaced⟩ := h
  rw [hleft] at hretries hpaced
  refine ⟨Nat.le_of_succ_le hretries, ?_⟩
  show Clock.add opened (Clock.mul p.responseTimeout (p.retries - left + 1)) ≤ _
  have hcount : p.retries - (left + 1) + 1 = p.retries - left := by omega
  rw [hcount] at hpaced
  exact Clock.add_mul_succ_le (Nat.le_trans hpaced hdue)

theorem Paced.visit [Link σ] {e : Entry σ ι} {p : Policy} {opened due : Nat}
    (h : e.Paced p opened due) (hwaits : e.Waits due (Clock.add opened p.instanceExpiry)) (link : σ)
    (now : Nat) :
    (now < Clock.add opened p.instanceExpiry ∧ ∃ due',
      (e.visit link now p.responseTimeout).entry.Waits due' (Clock.add opened p.instanceExpiry) ∧
      (e.visit link now p.responseTimeout).entry.Paced p opened due') ∨
    (p.earliest opened ≤ now ∧ (e.visit link now p.responseTimeout).entry.isLive = false) := by
  have hlooks := visit_looks hwaits link now p.responseTimeout
  generalize e.visit link now p.responseTimeout = v at hlooks
  cases hlooks with
  | waits _ hexpiry => exact .inl ⟨hexpiry, due, hwaits, h⟩
  | lapses link' hover =>
    refine .inr ⟨?_, e.isLive_terminate rfl⟩
    rcases hover with hexpiry | ⟨hdue, hnone⟩
    · exact Nat.le_trans (Nat.min_le_right _ _) hexpiry
    · have hwindow := h.due
      rw [hnone] at hwindow
      exact Nat.le_trans (Nat.min_le_left _ _) (Nat.le_trans hwindow hdue)
  | repeats left link' answer warnings hdue hexpiry hleft =>
    exact .inl ⟨hexpiry, _, hwaits.repeated left now _, h.repeated hleft hdue⟩

theorem ended_notMem_visit [Link σ] (e : Entry σ ι) (link : σ) (now timeout : Nat) {label : ι}
    {key : Key} {result : Except RequestError Response} :
    .ended label key result ∉ sightings (e.visit link now timeout).events := by
  intro hmem
  obtain ⟨event, hevent, hsighting⟩ := List.mem_filterMap.1 hmem
  have hquiet := Machine.isQuiet_of_mem_visit e link now timeout hevent
  cases event with
  | completed => exact hquiet
  | _ => cases hsighting

end Entry

namespace Machine

/-- The requests of a label, outstanding or ended, as far as the policy and the reading at which they
were registered tell. -/
structure Awaited [DecidableEq ι] (p : Policy) (opened : Nat) (label : ι) (r : Registry σ ι) :
    Prop where
  live : ∀ e ∈ r.share label, e.isLive = true →
    ∃ due, e.Waits due (Clock.add opened p.instanceExpiry) ∧ e.Paced p opened due
  ended : ∀ e ∈ r.share label, e.isLive = false → p.earliest opened ≤ r.clock

variable [Link σ] [DecidableEq ι] {p : Policy} {opened : Nat} {label : ι} {r r' : Registry σ ι}
  {move : Move σ ι} {seen : List (Sighting ι)}

theorem Awaited.fate (h : Awaited p opened label r) (hpolicy : r.policy = p)
    (hfate : Fate label r move seen r') :
    Awaited p opened label r' ∧
      ∀ key, .ended label key (.error .timedOut) ∈ seen → p.earliest opened ≤ r'.clock := by
  cases hfate with
  | spared _ hclock hshare =>
    refine ⟨⟨fun e he => h.live e (hshare.mem_iff.1 he), fun e he hended => ?_⟩, by simp⟩
    exact hclock ▸ h.ended e (hshare.mem_iff.1 he) hended
  | looked now clock hnow hclock hshare =>
    have hle : ∀ bound ≤ Clock.top, bound ≤ r.clock → bound ≤ clock := by
      intro bound htop hbound
      rw [hnow]
      unfold Action.clock
      dsimp only
      split_ifs <;> omega
    have hvisit : ∀ e ∈ r'.share label, (e.isLive = true →
        ∃ due, e.Waits due (Clock.add opened p.instanceExpiry) ∧ e.Paced p opened due) ∧
        (e.isLive = false → p.earliest opened ≤ r'.clock) := by
      intro e he
      rw [hshare] at he
      obtain ⟨e₀, he₀, rfl⟩ := List.mem_map.1 he
      rw [hpolicy, hclock]
      by_cases hlive : e₀.isLive = true
      · obtain ⟨due, hwaits, hpaced⟩ := h.live e₀ he₀ hlive
        rcases hpaced.visit hwaits r.link clock with ⟨-, due', hwaits', hpaced'⟩ | ⟨hover, hended⟩
        · exact ⟨fun _ => ⟨due', hwaits', hpaced'⟩, fun hended => by simp [hwaits'.isLive] at hended⟩
        · exact ⟨fun hlive => by simp [hended] at hlive, fun _ => hover⟩
      · have hended : e₀.isLive = false := by simpa using hlive
        rw [Entry.visit_of_ended hended]
        exact ⟨fun hlive' => absurd hlive' hlive,
          fun _ => hle _ (p.earliest_le_top opened) (h.ended e₀ he₀ hended)⟩
    refine ⟨⟨fun e he => (hvisit e he).1, fun e he => (hvisit e he).2⟩, fun key hmem => ?_⟩
    obtain ⟨e, -, hmem⟩ := List.mem_flatMap.1 hmem
    exact absurd hmem (e.ended_notMem_visit _ _ _)
  | @ended _ _ e result hclock hshare hends =>
    have hold : ∀ e' ∈ r'.share label, e' ∈ r.share label :=
      fun e' he' => hshare.mem_iff.2 (List.mem_cons_of_mem _ he')
    refine ⟨⟨fun e' he' => h.live e' (hold e' he'), fun e' he' hended => ?_⟩, fun key hmem => ?_⟩
    · exact hclock ▸ h.ended e' (hold e' he') hended
    -- Only a request that was marked ends for want of time, and the bound held when it was.
    · obtain ⟨-, -, rfl⟩ := Sighting.ended.inj (List.mem_singleton.1 hmem)
      exact hclock ▸ h.ended e (hshare.mem_iff.2 List.mem_cons_self) hends.isLive_of_timedOut

theorem Awaited.before_expiry (h : Awaited p opened label r) (hpolicy : r.policy = p)
    (hfate : Fate label r move seen r')
    (hr : move.isUpdate = false →
      ∀ e ∈ r.share label, e.isLive = true → r.clock < Clock.add opened p.instanceExpiry) :
    ∀ e ∈ r'.share label, e.isLive = true → r'.clock < Clock.add opened p.instanceExpiry := by
  intro e he hlive
  cases hfate with
  | spared hmove hclock hshare => exact hclock ▸ hr hmove e (hshare.mem_iff.1 he) hlive
  | looked now clock hnow hclock hshare =>
    rw [hshare] at he
    obtain ⟨e₀, he₀, rfl⟩ := List.mem_map.1 he
    rw [hpolicy] at hlive
    obtain ⟨due, hwaits, hpaced⟩ := h.live e₀ he₀ (Entry.isLive_of_visit hlive)
    rcases hpaced.visit hwaits r.link clock with ⟨hexpiry, -⟩ | ⟨-, hended⟩
    · exact hclock ▸ hexpiry
    · rw [hended] at hlive
      cases hlive
  | ended hclock hshare hends =>
    exact hclock ▸ hr hends.isUpdate e (hshare.mem_iff.2 (List.mem_cons_of_mem _ he)) hlive

omit [Link σ] in
theorem Step.Opened.awaited {t : Step σ ι} {key : Key} {msg : Bytes} {program : Program σ ι}
    (h : t.Opened p label key msg program) :
    Awaited p t.before.registry.clock label t.after.registry := by
  refine ⟨fun e he _ => ?_, fun e he hended => ?_⟩
  · rw [h.share] at he
    obtain rfl := List.mem_singleton.1 he
    exact ⟨_, Entry.opened_waits .., Entry.opened_paced ..⟩
  · rw [h.share] at he
    obtain rfl := List.mem_singleton.1 he
    cases hended

/-- What follows the registration of a request keeps to its bounds. -/
theorem Path.awaited {m₀ m : Machine σ ι} {steps : List (Step σ ι)} (h : m₀.Path steps m)
    (hm₀ : m₀.Coherent) (hpolicy : m₀.registry.policy = p)
    (hawaited : Awaited p opened label m₀.registry)
    (hsteps : ∀ u ∈ steps, u.move.registers label = false) :
    (∀ key clock, (clock, .ended label key (.error .timedOut)) ∈ chronicle label steps →
      p.earliest opened ≤ clock) ∧
    ((∃ u ∈ steps, u.move.isUpdate = true) → ∀ e ∈ m.registry.share label, e.isLive = true →
      m.registry.clock < Clock.add opened p.instanceExpiry) := by
  refine (h.follow hm₀ hsteps (P := fun steps m => (m.registry.policy = p ∧
    Awaited p opened label m.registry) ∧
    (∀ key clock, (clock, .ended label key (.error .timedOut)) ∈ chronicle label steps →
      p.earliest opened ≤ clock) ∧
    ((∃ u ∈ steps, u.move.isUpdate = true) → ∀ e ∈ m.registry.share label, e.isLive = true →
      m.registry.clock < Clock.add opened p.instanceExpiry)) ?_ ?_).2
  · exact ⟨⟨hpolicy, hawaited⟩, by simp [chronicle], by simp⟩
  · rintro earlier u seen - hu ⟨⟨hpolicy, hawaited⟩, hearliest, hlooked⟩
    obtain ⟨hawaited', hseen⟩ := hawaited.fate hpolicy hu.fate
    refine ⟨⟨hu.policy.trans hpolicy, hawaited'⟩, fun key clock hmem => ?_, fun hupdate => ?_⟩
    · rw [chronicle_append, hu.chronicle] at hmem
      rcases List.mem_append.1 hmem with hold | hnew
      · exact hearliest key clock hold
      · obtain ⟨x, hx, heq⟩ := List.mem_map.1 hnew
        obtain ⟨rfl, rfl⟩ := Prod.mk.inj heq
        exact hseen key hx
    · refine hawaited.before_expiry hpolicy hu.fate fun hmove => hlooked ?_
      obtain ⟨v, hv, hisUpdate⟩ := hupdate
      rcases List.mem_append.1 hv with hold | hlast
      · exact ⟨v, hold, hisUpdate⟩
      · obtain rfl := List.mem_singleton.1 hlast
        rw [hmove] at hisUpdate
        cases hisUpdate

/-! ## The result -/

theorem Run.called_of_absent {r : Registry σ ι} (hr : r.slots = []) {before after : List (Step σ ι)}
    {t : Step σ ι} {m : Machine σ ι} (h : Run r (before ++ t :: after) m) (hstack : m.stack = [])
    {s : Submission ι} {program : Program σ ι} {key : Key} (hopens : t.Opens s program key)
    (hcalled : t.called = []) (hbefore : ∀ u ∈ before, u.move.registers s.label = false)
    (habsent : ∀ e ∈ live m.registry.slots, e.label ≠ s.label) :
    (s.label, key, some program) ∈ after.flatMap Step.called := by
  obtain ⟨hcoherent, hperm⟩ := h.balanced hr
  have hregistered : (s.label, key, some program) ∈
      (before ++ t :: after).flatMap Step.registered :=
    List.mem_flatMap.2 ⟨t, by simp, hopens.mem_registered⟩
  rcases List.mem_append.1 (hperm.mem_iff.1 hregistered) with hmem | hmem
  · rw [List.flatMap_append, List.flatMap_cons, hcalled] at hmem
    rcases List.mem_append.1 hmem with hmem | hmem
    · exfalso
      obtain ⟨-, hperm⟩ := h.split.1.balanced hr
      exact notMem_registered hbefore rfl (hperm.mem_iff.2 (List.mem_append_left _ hmem))
    · exact hmem
  · exfalso
    obtain ⟨e, he, hname⟩ := List.mem_map.1 hmem
    rw [← live_eq_entries (hcoherent.ended_eq_nil hstack)] at he
    exact habsent e he (congrArg Prod.fst hname)

/-- **Timeouts are neither early nor lost.** In any run of a new registry, take a registration that
succeeds, under a label that no other has. Its end for want of time is not told before the clock has
come to the retry window after the registration, or to its expiry if that is earlier. After any `update`
since, it is not outstanding once the clock has come to its expiry, and when nothing is under way then,
its program has been called. -/
theorem Run.timed_out_in_bounds {link : σ} {policy : Policy} {r : Registry σ ι}
    {warnings : List Warning} (hr : Registry.create link policy = .ok (r, warnings))
    {before after : List (Step σ ι)} {t : Step σ ι} {m : Machine σ ι}
    (h : Run r (before ++ t :: after) m) {s : Submission ι} {program : Program σ ι} {key : Key}
    (hopens : t.Opens s program key)
    (hapart : ∀ u ∈ before ++ after, u.move.registers s.label = false) :
    (∀ key' clock, (clock, .ended s.label key' (.error .timedOut)) ∈ chronicle s.label after →
      min (Clock.add t.before.registry.clock policy.retryWindow)
        (Clock.add t.before.registry.clock policy.instanceExpiry) ≤ clock) ∧
    ((∃ u ∈ after, u.move.isUpdate = true) →
      Clock.add t.before.registry.clock policy.instanceExpiry ≤ m.registry.clock →
      (∀ e ∈ live m.registry.slots, e.label ≠ s.label) ∧
      (m.stack = [] → (s.label, key, some program) ∈ after.flatMap Step.called)) := by
  obtain ⟨hbefore, hafter⟩ := List.forall_mem_append.1 hapart
  obtain ⟨msg, -, hopened, hpath⟩ := h.opened hr hopens hbefore
  obtain ⟨hearliest, hlooked⟩ :=
    hpath.awaited hopened.coherent hopened.policy hopened.awaited hafter
  refine ⟨hearliest, fun hupdate hclock => ?_⟩
  have habsent : ∀ e ∈ live m.registry.slots, e.label ≠ s.label := by
    intro e he hlabel
    obtain ⟨hmem, hlive⟩ := mem_live.1 he
    have hlt := hlooked hupdate e (Registry.mem_share.2 ⟨hmem, hlabel⟩) hlive
    exact absurd hclock (Nat.not_le.2 hlt)
  refine ⟨habsent, fun hstack => ?_⟩
  exact h.called_of_absent (by rw [Registry.create_eq hr]) hstack hopens hopened.called hbefore habsent

/-- The first of two requests is answered after its first attempt ran out, and its program sets the clock
past the expiry of the second, which ends within that operation. -/
theorem Run.timed_out_in_bounds_nested :
    ∃ (r : Registry Outbox Nat) (before after : List (Step Outbox Nat)) (t : Step Outbox Nat)
      (m : Machine Outbox Nat),
      Registry.create {} { retries := 1, responseTimeout := 10, instanceExpiry := 15 } =
        .ok (r, [.expiryWithinRetries 15 20]) ∧
      Run r (before ++ t :: after) m ∧ m.stack = [] ∧
      (30, .ended 1 ⟨9, 4, 0, 2⟩ (.error .timedOut)) ∈ chronicle 1 after ∧
      min (Clock.add t.before.registry.clock 20) (Clock.add t.before.registry.clock 15) ≤ 30 ∧
      (1, ⟨9, 4, 0, 2⟩, some .done) ∈ after.flatMap Step.called := by
  have hr : Registry.create ({} : Outbox) { retries := 1, responseTimeout := 10, instanceExpiry := 15 } =
      .ok ((⟨{}, { retries := 1, responseTimeout := 10, instanceExpiry := 15 }, {}, [], 0⟩ :
        Registry Outbox Nat), [.expiryWithinRetries 15 20]) := rfl
  have h₁ := (Run.start (r := (⟨{}, { retries := 1, responseTimeout := 10, instanceExpiry := 15 }, {},
    [], 0⟩ : Registry Outbox Nat))).perform rfl
    (.register ⟨9, .given 3, ⟨0, 2, []⟩, 0⟩ (.act (.update 30) .done))
  have h₂ := h₁.perform (stack_run _) (.register ⟨9, .given 4, ⟨0, 2, []⟩, 1⟩ .done)
  have h₃ := h₂.perform (stack_run _) (.act (.update 12))
  have h₄ := h₃.perform (stack_run _) (.act (.respond ⟨9, 3, 0, 2⟩ [0]))
  rw [List.append_assoc, List.append_assoc] at h₄
  obtain ⟨hearliest, hlast⟩ := Run.timed_out_in_bounds hr h₄
    (Step.opens_start _ .host ⟨9, 4, 0, 2⟩ (by decide +kernel)) (by decide +kernel)
  exact ⟨_, _, _, _, _, hr, h₄, stack_run _, by decide +kernel,
    hearliest ⟨9, 4, 0, 2⟩ 30 (by decide +kernel),
    (hlast (by decide +kernel) (by decide +kernel)).2 (stack_run _)⟩

end Machine

end PlatformMessaging

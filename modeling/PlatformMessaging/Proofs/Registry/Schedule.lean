import Mathlib.Data.Nat.Find
import PlatformMessaging.Proofs.Registry.Timeouts

/-!
# The schedule of a request under a punctual host

A host is punctual if it calls `update` no later than the interval that the last one answered with, and
the programs leave the clock alone (`Machine.Step.punctual`). Then a request that nobody answers is sent
at the multiples of the response timeout after its registration and at no other readings, and ends at
the first of its expiry and the end of its last attempt (`Machine.Run.punctual_schedule`).

The argument is that no deadline is passed over: an `update` that is not late finds the clock at the
earlier of the two deadlines or before both. So the request is always in one of three stages
(`Machine.Scheduled`), it waits after its `k`th attempt, or is marked at the very reading at which it
ran out, or is over; and every fate that the requests of its label can have leads from one stage to
the next (`Machine.Scheduled.fate`).
-/

namespace PlatformMessaging

open Slots

variable {σ ι : Type}

/-! ## Attempts by policy -/

namespace Policy

/-- The last attempt that is made before the expiry, the first being number 0. -/
def lastAttempt (p : Policy) : Nat :=
  Nat.findGreatest (fun k => k = 0 ∨ k * p.responseTimeout < p.instanceExpiry) p.retries

/-- When a request that was registered at a reading runs out of time. -/
def lapsesAt (p : Policy) (opened : Nat) : Nat :=
  min (opened + (p.retries + 1) * p.responseTimeout) (opened + p.instanceExpiry)

/-- The first attempts of a request that was registered at a reading, each a response timeout after
the one before. -/
def attempts (p : Policy) (opened : Nat) (label : ι) (key : Key) (msg : Bytes) (n : Nat) :
    List (Nat × Sighting ι) :=
  (List.range n).map fun k => (opened + k * p.responseTimeout, .sent label key msg)

theorem attempts_succ (p : Policy) (opened : Nat) (label : ι) (key : Key) (msg : Bytes) (n : Nat) :
    p.attempts opened label key msg (n + 1) = p.attempts opened label key msg n ++
      [(opened + n * p.responseTimeout, .sent label key msg)] := by
  simp [attempts, List.range_succ]

theorem lastAttempt_eq {p : Policy} {k : Nat} (hretries : k ≤ p.retries)
    (hbefore : k * p.responseTimeout < p.instanceExpiry)
    (hlast : k = p.retries ∨ p.instanceExpiry ≤ (k + 1) * p.responseTimeout) : p.lastAttempt = k := by
  refine Nat.findGreatest_eq_iff.2 ⟨hretries, fun _ => .inr hbefore, fun n hkn hn => ?_⟩
  rintro (rfl | hn')
  · exact absurd hkn (Nat.not_lt_zero k)
  · rcases hlast with rfl | hlast
    · omega
    · have hle : (k + 1) * p.responseTimeout ≤ n * p.responseTimeout := Nat.mul_le_mul_right _ hkn
      omega

/-- An expiry that comes with the end of an attempt leaves no time for another. -/
example : lastAttempt { retries := 2, responseTimeout := 10, instanceExpiry := 20 } = 1 := by decide

theorem le_lastAttempt {p : Policy} {k : Nat} (hretries : k ≤ p.retries)
    (hbefore : k * p.responseTimeout < p.instanceExpiry) : k ≤ p.lastAttempt :=
  Nat.le_findGreatest hretries (.inr hbefore)

theorem window_lt_of_validate {p : Policy} (h : p.validate = .ok []) :
    p.retryWindow < p.instanceExpiry := by
  unfold validate at h
  split_ifs at h with hzero hsize hshort
  · simp at h
  · exact Nat.lt_of_not_le hshort

theorem schedule_of_validate {p : Policy} (h : p.validate = .ok []) {opened : Nat}
    (hexpiry : opened + p.instanceExpiry ≤ Clock.top) :
    p.lastAttempt = p.retries ∧
      p.lapsesAt opened = opened + (p.retries + 1) * p.responseTimeout ∧
      p.lapsesAt opened < opened + p.instanceExpiry := by
  have hwindow : (p.retries + 1) * p.responseTimeout < p.instanceExpiry := by
    have hlt := window_lt_of_validate h
    unfold retryWindow Clock.mul at hlt
    rw [Nat.mul_comm]
    omega
  have hlast : p.retries * p.responseTimeout ≤ (p.retries + 1) * p.responseTimeout :=
    Nat.mul_le_mul_right _ (Nat.le_succ _)
  refine ⟨lastAttempt_eq (Nat.le_refl _) (by omega) (.inl rfl), ?_⟩
  unfold lapsesAt
  omega

theorem validate_expireAfterRetries {p : Policy} (htimeout : p.responseTimeout ≠ 0)
    (hsize : p.maxRecordSize ≠ 0) (hparts : p.maxParts ≠ 0) (hwindow : p.retryWindow < Clock.top) :
    p.expireAfterRetries.validate = .ok [] := by
  have hlt : p.expireAfterRetries.retryWindow < p.expireAfterRetries.instanceExpiry := by
    show p.retryWindow < Clock.add p.retryWindow p.responseTimeout
    unfold Clock.add
    omega
  have hexpiry : p.expireAfterRetries.instanceExpiry ≠ 0 := Nat.ne_of_gt (Nat.zero_lt_of_lt hlt)
  unfold validate
  rw [if_neg (by simpa [expireAfterRetries] using ⟨htimeout, hexpiry⟩),
    if_neg (by simpa [expireAfterRetries] using ⟨hsize, hparts⟩), if_neg (Nat.not_le.2 hlt)]

end Policy

theorem Registry.validate_of_create {link : σ} {p : Policy} {r : Registry σ ι} {warnings : List Warning}
    (h : Registry.create link p = .ok (r, warnings)) : p.validate = .ok warnings := by
  unfold create at h
  split at h
  · cases h
  · rename_i hvalid
    rw [hvalid, (Prod.mk.inj (Except.ok.inj h)).2]

namespace Machine

/-! ## Punctual hosts -/

/-- The step is no `update`, or one that the host makes with a clock that does not go back, and before
the interval until the next timer is over or at its end. -/
def Step.punctual (u : Step σ ι) : Bool :=
  match u.move with
  | .call .host (.act (.update now)) =>
    u.before.registry.clock ≤ now && now ≤ u.before.registry.clock + u.before.registry.nextTimeout
  | .call (.callback _ _) (.act (.update _)) => false
  | _ => true

/-- The step delivers a response to a key, or gives it up. -/
def Move.answers (key : Key) : Move σ ι → Bool
  | .call _ (.act action) => action.answer?.any fun p => p.1 = key
  | _ => false

theorem Move.Ends.answers_of_isLive {move : Move σ ι} {e : Entry σ ι} {result : Except RequestError Response}
    (h : move.Ends e result) (hlive : e.isLive = true) : move.answers e.key = true := by
  cases h with
  | answers _ hanswers =>
    rw [Action.answers_iff] at hanswers
    simp [Move.answers, hanswers]
  | expires hended _ =>
    rw [hlive] at hended
    cases hended

theorem Step.punctual_update [Link σ] {u : Step σ ι} (h : u.punctual = true)
    (hcoherent : u.before.Coherent) (hmoves : u.before.Moves u.move u.after) {caller : Caller ι}
    {now : Nat} (hmove : u.move = .call caller (.act (.update now))) :
    ended 0 u.before.registry.slots = [] ∧ u.before.registry.clock ≤ now ∧
      now ≤ u.before.registry.clock + u.before.registry.nextTimeout := by
  unfold Step.punctual at h
  rw [hmove] at h hmoves
  cases caller with
  | callback label index => cases h
  | host =>
    simp only [Bool.and_eq_true, decide_eq_true_eq] at h
    refine ⟨hcoherent.ended_eq_nil ?_, h⟩
    generalize u.after = m' at hmoves
    cases hmoves with
    | call hcalls =>
      cases hcalls with
      | host _ hstack => exact hstack

/-! ## The stages of a request -/

variable [DecidableEq ι] {p : Policy} {opened : Nat} {label : ι} {key : Key} {msg : Bytes}
  {r r' : Registry σ ι} {seen : List (Nat × Sighting ι)}

/-- Where the request of a label stands, with what has been seen of it since it was registered. -/
inductive Scheduled (p : Policy) (opened : Nat) (label : ι) (key : Key) (msg : Bytes)
    (r : Registry σ ι) : List (Nat × Sighting ι) → Prop where
  | waits (k : Nat) (e : Entry σ ι) (hshare : r.share label = [e])
      (hwaits : e.Waits (opened + (k + 1) * p.responseTimeout) (opened + p.instanceExpiry))
      (hleft : e.transaction.retriesLeft + k = p.retries) (hkey : e.key = key)
      (hmsg : e.transaction.request = msg) (hfrom : opened + k * p.responseTimeout ≤ r.clock)
      (hdue : r.clock < opened + (k + 1) * p.responseTimeout)
      (hexpiry : r.clock < opened + p.instanceExpiry) :
      Scheduled p opened label key msg r (p.attempts opened label key msg (k + 1))
  | lapsed (e : Entry σ ι) (hshare : r.share label = [e]) (hended : e.isLive = false)
      (hkey : e.key = key) (hclock : r.clock = p.lapsesAt opened) :
      Scheduled p opened label key msg r (p.attempts opened label key msg (p.lastAttempt + 1))
  | gone (hshare : r.share label = []) (hclock : p.lapsesAt opened ≤ r.clock) :
      Scheduled p opened label key msg r (p.attempts opened label key msg (p.lastAttempt + 1) ++
        [(p.lapsesAt opened, .ended label key (.error .timedOut))])

theorem Scheduled.looked_waiting [Link σ] {k : Nat} {e : Entry σ ι} {clock : Nat}
    (hwaits : e.Waits (opened + (k + 1) * p.responseTimeout) (opened + p.instanceExpiry))
    (hleft : e.transaction.retriesLeft + k = p.retries) (hlabel : e.label = label)
    (hkey : e.key = key) (hmsg : e.transaction.request = msg)
    (hfrom : opened + k * p.responseTimeout ≤ r.clock) (hexpiry : r.clock < opened + p.instanceExpiry)
    (hback : r.clock ≤ clock) (hdue : clock ≤ opened + (k + 1) * p.responseTimeout)
    (hexp : clock ≤ opened + p.instanceExpiry) (htimeout : 0 < p.responseTimeout)
    (htop : opened + (p.retries + 1) * p.responseTimeout ≤ Clock.top) (hclock : r'.clock = clock)
    (hshare : r'.share label = [(e.visit r.link clock p.responseTimeout).entry]) :
    Scheduled p opened label key msg r' (p.attempts opened label key msg (k + 1) ++
      (sightings (e.visit r.link clock p.responseTimeout).events).map (Prod.mk r'.clock)) := by
  have hk : k ≤ p.retries := by omega
  have hbefore : k * p.responseTimeout < p.instanceExpiry := by omega
  have hnext : (k + 1 + 1) * p.responseTimeout = (k + 1) * p.responseTimeout + p.responseTimeout :=
    Nat.succ_mul ..
  have hlast : (k + 1) * p.responseTimeout ≤ (p.retries + 1) * p.responseTimeout :=
    Nat.mul_le_mul_right _ (by omega)
  have hlooks := Entry.visit_looks hwaits r.link clock p.responseTimeout
  generalize e.visit r.link clock p.responseTimeout = v at hlooks hshare
  cases hlooks with
  | waits hdue' hexpiry' =>
    rw [show sightings ([] : List (Event ι)) = [] from rfl, List.map_nil, List.append_nil]
    exact .waits k e hshare hwaits hleft hkey hmsg (by omega) (by omega) (by omega)
  | lapses link' hover =>
    -- The clock stands at the expiry, which leaves no time for another attempt, or at the end of the
    -- last one.
    have hlastAttempt : p.lastAttempt = k :=
      Policy.lastAttempt_eq hk hbefore (hover.elim (fun _ => .inr (by omega)) fun _ => .inl (by omega))
    have hat : clock = p.lapsesAt opened := by
      unfold Policy.lapsesAt
      rcases hover with hover | ⟨hover, hnone⟩
      · omega
      · obtain rfl : k = p.retries := by omega
        omega
    rw [show sightings ([] : List (Event ι)) = [] from rfl, List.map_nil, List.append_nil,
      ← hlastAttempt]
    exact .lapsed _ hshare (e.isLive_terminate rfl) ((e.key_terminate _).trans hkey)
      (hclock.trans hat)
  | repeats left link' answer warnings hdue' hexpiry' hretries =>
    have hat : clock = opened + (k + 1) * p.responseTimeout := by omega
    have hlast' : (k + 1 + 1) * p.responseTimeout ≤ (p.retries + 1) * p.responseTimeout :=
      Nat.mul_le_mul_right _ (by omega)
    -- The retry is armed from the deadline itself, so it stays on the multiples of the timeout.
    have harm : Clock.add clock p.responseTimeout = opened + (k + 1 + 1) * p.responseTimeout := by
      rw [Clock.add_eq (by omega)]
      omega
    have hsent : sightings (.attempt e.label e.key e.transaction.request answer clock ::
        warnings.map Event.warning) = [.sent label key msg] := by
      rw [← hlabel, ← hkey, ← hmsg]
      exact congrArg (List.cons _) (sightings_warnings warnings)
    rw [hsent, List.map_singleton, hclock, hat, ← Policy.attempts_succ]
    refine .waits (k + 1) _ hshare (harm ▸ hwaits.repeated left clock _) ?_ hkey hmsg ?_ ?_ ?_
    · show left + (k + 1) = p.retries
      omega
    all_goals omega

theorem Scheduled.spared (h : Scheduled p opened label key msg r seen) (hclock : r'.clock = r.clock)
    (hshare : (r'.share label).Perm (r.share label)) :
    Scheduled p opened label key msg r' seen := by
  cases h with
  | waits k e hold hwaits hleft hkey hmsg hfrom hdue hexp =>
    rw [hold] at hshare
    rw [← hclock] at hfrom hdue hexp
    exact .waits k e (List.perm_singleton.1 hshare) hwaits hleft hkey hmsg hfrom hdue hexp
  | lapsed e hold hended hkey hat =>
    rw [hold] at hshare
    exact .lapsed e (List.perm_singleton.1 hshare) hended hkey (hclock.trans hat)
  | gone hold hat =>
    rw [hold] at hshare
    exact .gone hshare.eq_nil (hclock ▸ hat)

/-- A look at the timers that is not late, while nothing is marked, leads to the next stage or leaves it
as it is. -/
theorem Scheduled.looked [Link σ] (h : Scheduled p opened label key msg r seen)
    (hpolicy : r.policy = p) (hr : r.Timely) (hexpiry : opened + p.instanceExpiry ≤ Clock.top)
    (hwindow : opened + (p.retries + 1) * p.responseTimeout ≤ Clock.top) {clock now : Nat}
    (hnow : clock = (Action.update now : Action σ).clock r.clock) (hrest : ended 0 r.slots = [])
    (hback : r.clock ≤ now) (hnext : now ≤ r.clock + r.nextTimeout) (hclock : r'.clock = clock)
    (hshare : r'.share label = (r.share label).map fun e =>
      (e.visit r.link clock p.responseTimeout).entry) :
    Scheduled p opened label key msg r' (seen ++ ((r.share label).flatMap fun e =>
      sightings (e.visit r.link clock p.responseTimeout).events).map (Prod.mk r'.clock)) := by
  have hset : clock = min now Clock.top := by
    rw [hnow]
    unfold Action.clock
    dsimp only
    rw [if_neg (Nat.not_lt.2 hback)]
  cases h with
  | waits k e hold hwaits hleft hkey hmsg hfrom hdue hexp =>
    obtain ⟨hentry, hlabel⟩ := Registry.mem_share.1 (hold ▸ List.mem_singleton_self e)
    obtain ⟨-, -, hdue', hexpiry'⟩ :=
      hr.next_le (by omega) (mem_live.2 ⟨hentry, hwaits.isLive⟩) hwaits
    rw [hold] at hshare
    rw [hold, List.flatMap_singleton]
    exact Scheduled.looked_waiting hwaits hleft hlabel hkey hmsg hfrom hexp (by omega) (by omega)
      (by omega) (hpolicy ▸ hr.timeout) hwindow hclock hshare
  | lapsed e hold hmarked hkey hat =>
    exfalso
    have hmem : e ∈ r.share label := hold ▸ List.mem_singleton_self e
    have hlive : e ∈ live r.slots := live_eq_entries hrest ▸ (Registry.mem_share.1 hmem).1
    rw [(mem_live.1 hlive).2] at hmarked
    cases hmarked
  | gone hold hat =>
    rw [hold] at hshare
    rw [hold, List.flatMap_nil, List.map_nil, List.append_nil]
    have hlapse : p.lapsesAt opened ≤ Clock.top := Nat.le_trans (Nat.min_le_right _ _) hexpiry
    exact .gone hshare (by omega)

theorem Scheduled.ended (h : Scheduled p opened label key msg r seen) (hclock : r'.clock = r.clock)
    {move : Move σ ι} {e : Entry σ ι} {result : Except RequestError Response}
    (hshare : (r.share label).Perm (e :: r'.share label)) (hends : move.Ends e result)
    (hanswers : move.answers key = true → ∀ e ∈ r.share label, e.isLive = false) :
    Scheduled p opened label key msg r' (seen ++ [(r'.clock, .ended label e.key result)]) := by
  cases h with
  | waits k e' hold hwaits hleft hkey hmsg hfrom hdue hexp =>
    exfalso
    have hmem : e ∈ r.share label := hshare.mem_iff.2 List.mem_cons_self
    obtain rfl := List.mem_singleton.1 (hold ▸ hmem)
    have hmarked := hanswers (hkey ▸ hends.answers_of_isLive hwaits.isLive) e hmem
    rw [hwaits.isLive] at hmarked
    cases hmarked
  | lapsed e' hold hmarked hkey hat =>
    rw [hold] at hshare
    obtain ⟨rfl, hnone⟩ := List.cons.inj (List.perm_singleton.1 hshare.symm)
    have hresult : result = .error .timedOut := by
      cases hends with
      | answers hlive _ =>
        rw [hmarked] at hlive
        cases hlive
      | expires _ hresult => exact hresult
    rw [hresult, hkey, hclock, hat]
    exact .gone hnone (Nat.le_of_eq (hclock.trans hat).symm)
  | gone hold hat =>
    rw [hold] at hshare
    exact absurd hshare.symm.eq_nil (List.cons_ne_nil _ _)

/-- Every fate keeps to the schedule, if an `update` is punctual and nobody answers the request. -/
theorem Scheduled.fate [Link σ] (h : Scheduled p opened label key msg r seen) (hpolicy : r.policy = p)
    (hr : r.Timely) (hexpiry : opened + p.instanceExpiry ≤ Clock.top)
    (hwindow : opened + (p.retries + 1) * p.responseTimeout ≤ Clock.top) {move : Move σ ι}
    {shown : List (Sighting ι)} (hfate : Fate label r move shown r')
    (hpunctual : ∀ caller now, move = .call caller (.act (.update now)) →
      Slots.ended 0 r.slots = [] ∧ r.clock ≤ now ∧ now ≤ r.clock + r.nextTimeout)
    (hanswers : move.answers key = true → ∀ e ∈ r.share label, e.isLive = false) :
    Scheduled p opened label key msg r' (seen ++ shown.map (Prod.mk r'.clock)) := by
  cases hfate with
  | spared _ hclock hshare =>
    rw [List.map_nil, List.append_nil]
    exact h.spared hclock hshare
  | looked now clock hnow hclock hshare =>
    obtain ⟨hrest, hback, hnext⟩ := hpunctual _ now rfl
    rw [hpolicy] at hshare ⊢
    exact h.looked hpolicy hr hexpiry hwindow hnow hrest hback hnext hclock hshare
  | ended hclock hshare hends => exact h.ended hclock hshare hends hanswers

theorem Step.Opened.scheduled [Link σ] {t : Step σ ι} {program : Program σ ι}
    (h : t.Opened p label key msg program) (hr : t.after.registry.Timely)
    (hexpiry : t.before.registry.clock + p.instanceExpiry ≤ Clock.top)
    (hwindow : t.before.registry.clock + (p.retries + 1) * p.responseTimeout ≤ Clock.top) :
    Scheduled p t.before.registry.clock label key msg t.after.registry (chronicle label [t]) := by
  have htimeout : 0 < p.responseTimeout := h.policy ▸ hr.timeout
  have hpositive : 0 < p.instanceExpiry := h.policy ▸ hr.expiry
  have hfirst : (0 + 1) * p.responseTimeout ≤ (p.retries + 1) * p.responseTimeout :=
    Nat.mul_le_mul_right _ (by omega)
  have hwaits := Entry.opened_waits label key msg p t.before.registry.clock program
  rw [Clock.add_eq hexpiry, Clock.add_eq (by omega)] at hwaits
  have hattempt : chronicle label [t] = p.attempts t.before.registry.clock label key msg (0 + 1) := by
    rw [h.seen]
    simp [Policy.attempts]
  rw [hattempt]
  rw [← Nat.one_mul p.responseTimeout] at hwaits
  exact .waits 0 _ h.share hwaits rfl rfl rfl (by rw [h.clock]; omega) (by rw [h.clock]; omega)
    (by rw [h.clock]; omega)

theorem Scheduled.pending (h : Scheduled p opened label key msg r seen) (hr : r.Timely)
    (hexpiry : opened + p.instanceExpiry ≤ Clock.top) (hclock : r.clock < p.lapsesAt opened) :
    (∃ e ∈ live r.slots, e.label = label) ∧
      (∃ k ≤ p.lastAttempt, seen = p.attempts opened label key msg (k + 1) ∧
        opened + k * p.responseTimeout ≤ r.clock ∧
        r.clock < opened + (k + 1) * p.responseTimeout) ∧
      0 < r.nextTimeout ∧ r.clock + r.nextTimeout ≤ p.lapsesAt opened := by
  cases h with
  | waits k e hshare hwaits hleft hkey hmsg hfrom hdue hexp =>
    obtain ⟨hentry, hlabel⟩ := Registry.mem_share.1 (hshare ▸ List.mem_singleton_self e)
    have hlive : e ∈ live r.slots := mem_live.2 ⟨hentry, hwaits.isLive⟩
    have htop : r.clock < Clock.top := by omega
    obtain ⟨-, -, hdue', hexpiry'⟩ := hr.next_le htop hlive hwaits
    have hlast : (k + 1) * p.responseTimeout ≤ (p.retries + 1) * p.responseTimeout :=
      Nat.mul_le_mul_right _ (by omega)
    refine ⟨⟨e, hlive, hlabel⟩, ⟨k, ?_, rfl, hfrom, hdue⟩, hr.nextTimeout_pos htop, ?_⟩
    · exact Policy.le_lastAttempt (by omega) (by omega)
    · unfold Policy.lapsesAt
      omega
  | lapsed e _ _ _ hat => exact absurd hat (Nat.ne_of_lt hclock)
  | gone _ hat => exact absurd hat (Nat.not_le.2 hclock)

theorem Scheduled.past (h : Scheduled p opened label key msg r seen)
    (hclock : p.lapsesAt opened ≤ r.clock) :
    (∀ e ∈ live r.slots, e.label ≠ label) ∧
      (seen = p.attempts opened label key msg (p.lastAttempt + 1) ++
          [(p.lapsesAt opened, .ended label key (.error .timedOut))] ∨
        (∃ e ∈ entries r.slots, e.isLive = false) ∧ r.clock = p.lapsesAt opened ∧
          seen = p.attempts opened label key msg (p.lastAttempt + 1)) := by
  have hshare : ∀ e ∈ live r.slots, e.label = label → e ∈ r.share label ∧ e.isLive = true :=
    fun e he hlabel => ⟨Registry.mem_share.2 ⟨(mem_live.1 he).1, hlabel⟩, (mem_live.1 he).2⟩
  cases h with
  | waits k e _ _ hleft _ _ _ hdue hexp =>
    exfalso
    have hlast : (k + 1) * p.responseTimeout ≤ (p.retries + 1) * p.responseTimeout :=
      Nat.mul_le_mul_right _ (by omega)
    unfold Policy.lapsesAt at hclock
    omega
  | lapsed e hold hended _ hat =>
    refine ⟨fun e' he' hlabel => ?_, .inr ⟨⟨e, ?_, hended⟩, hat, rfl⟩⟩
    · obtain ⟨hmem, hlive⟩ := hshare e' he' hlabel
      obtain rfl := List.mem_singleton.1 (hold ▸ hmem)
      rw [hended] at hlive
      cases hlive
    · exact (Registry.mem_share.1 (hold ▸ List.mem_singleton_self e)).1
  | gone hold _ =>
    refine ⟨fun e he hlabel => ?_, .inl rfl⟩
    have hmem := (hshare e he hlabel).1
    rw [hold] at hmem
    cases hmem

/-- What follows the registration of a request keeps to its schedule. -/
theorem Path.scheduled [Link σ] {m₀ m : Machine σ ι} {steps : List (Step σ ι)} (h : m₀.Path steps m)
    (hm₀ : m₀.Coherent) (htimely : m₀.registry.Timely) (hpolicy : m₀.registry.policy = p)
    (hscheduled : Scheduled p opened label key msg m₀.registry seen)
    (hexpiry : opened + p.instanceExpiry ≤ Clock.top)
    (hwindow : opened + (p.retries + 1) * p.responseTimeout ≤ Clock.top)
    (hsteps : ∀ u ∈ steps, u.move.registers label = false)
    (hpunctual : ∀ u ∈ steps, u.punctual = true)
    (hanswers : ∀ u ∈ steps, u.move.answers key = true →
      ∀ e ∈ live u.before.registry.slots, e.label ≠ label) :
    m.registry.Timely ∧ Scheduled p opened label key msg m.registry (seen ++ chronicle label steps) := by
  refine (h.follow hm₀ hsteps (P := fun steps m => m.registry.policy = p ∧ m.registry.Timely ∧
    Scheduled p opened label key msg m.registry (seen ++ chronicle label steps)) ?_ ?_).2
  · refine ⟨hpolicy, htimely, ?_⟩
    rw [show chronicle label ([] : List (Step σ ι)) = [] from rfl, List.append_nil]
    exact hscheduled
  · rintro earlier u shown hu hshows ⟨hpolicy, htimely, hscheduled⟩
    refine ⟨hshows.policy.trans hpolicy, (hshows.moves.effect hshows.coherent).timely htimely, ?_⟩
    rw [chronicle_append, hshows.chronicle, ← List.append_assoc]
    refine hscheduled.fate hpolicy htimely hexpiry hwindow hshows.fate ?_ ?_
    · intro caller now hmove
      exact Step.punctual_update (hpunctual u hu) hshows.coherent hshows.moves hmove
    · intro hanswered e he
      obtain ⟨hmem, hlabel⟩ := Registry.mem_share.1 he
      by_contra hlive
      exact hanswers u hu hanswered e (mem_live.2 ⟨hmem, by simpa using hlive⟩) hlabel

/-! ## The result -/

/-- **The schedule is exact.** In any run of a new registry, take a registration that succeeds, under a
label that no other has. If every `update` since is punctual and nobody answers the request, then before
it runs out of time it is outstanding, the attempts seen are those whose reading the clock has come to,
and the next timer is ahead and not beyond. From then on all attempts up to the last before the expiry
are seen and, when nothing is under way, its end for want of time, at the reading at which it ran out.
If the policy is accepted without a warning, the last attempt is that of the last retry, and the request
runs out when that has waited, before its expiry. Policies that expire after their retries are. -/
theorem Run.punctual_schedule [Link σ] {link : σ} {policy : Policy} {r : Registry σ ι}
    {warnings : List Warning} (hr : Registry.create link policy = .ok (r, warnings))
    {before after : List (Step σ ι)} {t : Step σ ι} {m : Machine σ ι}
    (h : Run r (before ++ t :: after) m) {s : Submission ι} {program : Program σ ι} {key : Key}
    (hopens : t.Opens s program key)
    (hapart : ∀ u ∈ before ++ after, u.move.registers s.label = false)
    (hpunctual : ∀ u ∈ after, u.punctual = true)
    (hanswers : ∀ u ∈ after, u.move.answers key = true →
      ∀ e ∈ live u.before.registry.slots, e.label ≠ s.label)
    {opened : Nat} (hopened : t.before.registry.clock = opened)
    (hexpiry : opened + policy.instanceExpiry ≤ Clock.top)
    (hwindow : opened + (policy.retries + 1) * policy.responseTimeout ≤ Clock.top) :
    ∃ msg, s.request.encode key.iid = .ok msg ∧
      (m.registry.clock < policy.lapsesAt opened →
        (∃ e ∈ live m.registry.slots, e.label = s.label) ∧
        (∃ k ≤ policy.lastAttempt,
          chronicle s.label (t :: after) = policy.attempts opened s.label key msg (k + 1) ∧
          opened + k * policy.responseTimeout ≤ m.registry.clock ∧
          m.registry.clock < opened + (k + 1) * policy.responseTimeout) ∧
        0 < m.registry.nextTimeout ∧
        m.registry.clock + m.registry.nextTimeout ≤ policy.lapsesAt opened) ∧
      (policy.lapsesAt opened ≤ m.registry.clock →
        (∀ e ∈ live m.registry.slots, e.label ≠ s.label) ∧
        (chronicle s.label (t :: after) =
            policy.attempts opened s.label key msg (policy.lastAttempt + 1) ++
              [(policy.lapsesAt opened, .ended s.label key (.error .timedOut))] ∨
          m.stack ≠ [] ∧ m.registry.clock = policy.lapsesAt opened ∧
            chronicle s.label (t :: after) =
              policy.attempts opened s.label key msg (policy.lastAttempt + 1))) ∧
      (warnings = [] → policy.lastAttempt = policy.retries ∧
        policy.lapsesAt opened = opened + (policy.retries + 1) * policy.responseTimeout ∧
        policy.lapsesAt opened < opened + policy.instanceExpiry) ∧
      ∀ p : Policy, p.responseTimeout ≠ 0 → p.maxRecordSize ≠ 0 → p.maxParts ≠ 0 →
        p.retryWindow < Clock.top → p.expireAfterRetries.validate = .ok [] := by
  subst hopened
  obtain ⟨hbefore, hafter⟩ := List.forall_mem_append.1 hapart
  obtain ⟨msg, hencode, hregistered, hpath⟩ := h.opened hr hopens hbefore
  obtain ⟨hrun, hmoves, -⟩ := h.split
  obtain ⟨hcoherent, htimely⟩ := hrun.timely hr
  have htimely' := (hmoves.effect hcoherent).timely htimely
  obtain ⟨hlast, hscheduled⟩ := hpath.scheduled hregistered.coherent htimely' hregistered.policy
    (hregistered.scheduled htimely' hexpiry hwindow) hexpiry hwindow hafter hpunctual hanswers
  rw [← chronicle_append, List.singleton_append] at hscheduled
  refine ⟨msg, hencode, hscheduled.pending hlast hexpiry, fun hclock => ?_, fun hnone => ?_,
    fun p htimeout hsize hparts => Policy.validate_expireAfterRetries htimeout hsize hparts⟩
  · obtain ⟨habsent, hdone | ⟨⟨e, he, hended⟩, hat, hseen⟩⟩ := hscheduled.past hclock
    · exact ⟨habsent, .inl hdone⟩
    -- It is marked, and its end not told yet: the `update` that marked it is still under way.
    · refine ⟨habsent, .inr ⟨fun hstack => ?_, hat, hseen⟩⟩
      have hrest := (hpath.coherent hregistered.coherent).ended_eq_nil hstack
      rw [← live_eq_entries hrest] at he
      rw [(mem_live.1 he).2] at hended
      cases hended
  · exact Policy.schedule_of_validate (hnone ▸ Registry.validate_of_create hr) hexpiry

/-- A request that is registered beside one that is sent again and then answered, whose program registers
a third. It is sent a second time, and its expiry comes before that attempt has waited. -/
theorem Run.punctual_schedule_expiring :
    ∃ (r : Registry Outbox Nat) (before after : List (Step Outbox Nat)) (t : Step Outbox Nat)
      (m : Machine Outbox Nat),
      Registry.create {} { retries := 1, responseTimeout := 10, instanceExpiry := 15 } =
        .ok (r, [.expiryWithinRetries 15 20]) ∧
      Run r (before ++ t :: after) m ∧ m.stack = [] ∧ m.registry.outstanding = 1 ∧
      chronicle 1 (t :: after) =
        [(4, .sent 1 ⟨9, 4, 0, 2⟩ [0x84, 0, 2]), (14, .sent 1 ⟨9, 4, 0, 2⟩ [0x84, 0, 2]),
          (19, .ended 1 ⟨9, 4, 0, 2⟩ (.error .timedOut))] := by
  have hr : Registry.create ({} : Outbox) { retries := 1, responseTimeout := 10, instanceExpiry := 15 } =
      .ok ((⟨{}, { retries := 1, responseTimeout := 10, instanceExpiry := 15 }, {}, [], 0⟩ :
        Registry Outbox Nat), [.expiryWithinRetries 15 20]) := rfl
  have h₁ := (Run.start (r := (⟨{}, { retries := 1, responseTimeout := 10, instanceExpiry := 15 }, {},
    [], 0⟩ : Registry Outbox Nat))).perform rfl
    (.register ⟨9, .given 3, ⟨0, 2, []⟩, 0⟩ (.register ⟨9, .given 5, ⟨0, 2, []⟩, 2⟩ .done .done))
  have h₂ := h₁.perform (stack_run _) (.act (.update 4))
  have h₃ := h₂.perform (stack_run _) (.register ⟨9, .given 4, ⟨0, 2, []⟩, 1⟩ .done)
  have h₄ := h₃.perform (stack_run _) (.act (.update 10))
  have h₅ := h₄.perform (stack_run _) (.act (.respond ⟨9, 3, 0, 2⟩ [0]))
  have h₆ := h₅.perform (stack_run _) (.act (.update 14))
  have h₇ := h₆.perform (stack_run _) (.act (.update 19))
  rw [List.append_assoc, List.append_assoc, List.append_assoc, List.append_assoc] at h₇
  obtain ⟨msg, hencode, -, hpast, -⟩ := Run.punctual_schedule hr h₇
    (Step.opens_start _ .host ⟨9, 4, 0, 2⟩ (by decide +kernel)) (by decide +kernel)
    (by decide +kernel) (by decide +kernel) (show _ = 4 by decide +kernel) (by decide) (by decide)
  obtain rfl : [0x84, 0, 2] = msg := Except.ok.inj hencode
  obtain ⟨-, hdone | ⟨hstack, -⟩⟩ := hpast (by decide +kernel)
  · exact ⟨_, _, _, _, _, hr, h₇, stack_run _, by decide +kernel, hdone⟩
  · exact absurd (stack_run _) hstack

end Machine

end PlatformMessaging

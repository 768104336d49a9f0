import Mathlib.Data.List.Induction
import PlatformMessaging.Proofs.Registry.Independence

/-!
# The chronicle of a request

What a run shows of the requests of a label, in order and with the clock readings then in force, is
their `Machine.chronicle`. Programs may do anything here, and may set the clock themselves. Labels only
tell registrations apart: nothing that happens depends on them.

* `Machine.Moves.effect` inverts a move: a registration, a look at all timers, the end of one request,
  or nothing that concerns requests.
* `Machine.Effect.fate` is the share of a label in it: the requests of the label are spared, are looked
  at, or one of them ends.
* `Machine.Run.split`: a run goes on from each of its steps, so that what holds of a request when it is
  registered can be followed from there (`Machine.Path`).
-/

namespace PlatformMessaging

open Slots

variable {σ ι : Type}

namespace Machine

/-! ## What a move does -/

/-- Why a move ends a request with a result: an action answers it while it is outstanding, or it had run
out of time. -/
inductive Move.Ends (e : Entry σ ι) (result : Except RequestError Response) : Move σ ι → Prop where
  | answers {caller : Caller ι} {action : Action σ} (hlive : e.isLive = true)
      (hanswers : action.Answers e.key result) : Ends e result (.call caller (.act action))
  | expires {caller : Caller ι} {ref : SlotRef} (hlive : e.isLive = false)
      (hresult : result = .error .timedOut) : Ends e result (.expire caller ref)

/-- The move sets the clock and looks at all timers. -/
def Move.isUpdate : Move σ ι → Bool
  | .call _ (.act (.update _)) => true
  | _ => false

theorem Move.Ends.isUpdate {move : Move σ ι} {e : Entry σ ι} {result : Except RequestError Response}
    (h : move.Ends e result) : move.isUpdate = false := by
  cases h with
  | expires => rfl
  | answers _ hanswers =>
    generalize e.key = key at hanswers
    cases hanswers with
    | cancel => rfl
    | delivers hdelivers => cases hdelivers <;> rfl

theorem Move.Ends.isLive_of_timedOut {move : Move σ ι} {e : Entry σ ι}
    (h : move.Ends e (.error .timedOut)) : e.isLive = false := by
  generalize hresult : (.error .timedOut : Except RequestError Response) = result at h
  cases h with
  | expires hlive _ => exact hlive
  | answers _ hanswers =>
    exfalso
    generalize e.key = key at hanswers
    cases hanswers with
    | cancel => cases hresult
    | @delivers action key rest hdelivers =>
      cases rest with
      | nil => cases hresult
      | cons code data => cases hresult

/-- All that a move can do to the requests of a registry, with the events that tell of it and the
registry that it leaves. -/
inductive Effect [Link σ] (r : Registry σ ι) : Move σ ι → List (Event ι) → Registry σ ι → Prop where
  | registers {caller : Caller ι} {s : Submission ι} {program : Program σ ι}
      {g : Registry.Registration σ ι} (hregisters : r.Registers s program g)
      (hpolicy : g.registry.policy = r.policy) (hclock : g.registry.clock = r.clock) :
      Effect r (.call caller (.register s program)) (told caller g) g.registry
  | looks {caller : Caller ι} (now : Nat) :
      Effect r (.call caller (.act (.update now)))
        ((r.setClock now).2.map Event.warning ++ (r.setClock now).1.sweep.2.2)
        (r.setClock now).1.sweep.1
  | ends {move : Move σ ι} {r' : Registry σ ι} {ref : SlotRef} {e : Entry σ ι}
      {result : Except RequestError Response} {outstanding clock : Nat}
      (hremove : r.remove? ref = some (e, r')) (hends : move.Ends e result) :
      Effect r move [.completed e.label e.key result outstanding clock] r'
  | rests {move : Move σ ι} {r' : Registry σ ι} {events : List (Event ι)}
      (hmove : move.isUpdate = false) (hslots : r'.slots = r.slots) (hpolicy : r'.policy = r.policy)
      (hclock : r'.clock = r.clock)
      (hevents : ∀ event ∈ events, ∃ caller outcome, event = .returned caller outcome) :
      Effect r move events r'

theorem Completes.tells [Link σ] {m m₀ m' : Machine σ ι} {ref : SlotRef} {e : Entry σ ι}
    {result : Except RequestError Response} {stack : List (Frame σ ι)}
    (h : m₀.Completes ref e result stack m') (hregistry : m₀.registry = m.registry)
    (hevents : m₀.events = m.events) {move : Move σ ι} (hends : move.Ends e result) :
    ∃ events, m'.events = events.reverse ++ m.events ∧
      Effect m.registry move events m'.registry := by
  obtain ⟨outstanding, clock, htells⟩ := h.events
  exact ⟨[.completed e.label e.key result outstanding clock], hevents ▸ htells,
    .ends (hregistry ▸ h.remove) hends⟩

theorem Moves.tells [Link σ] {m m' : Machine σ ι} {move : Move σ ι} (hm : m.Coherent)
    (h : m.Moves move m') :
    ∃ events, m'.events = events.reverse ++ m.events ∧
      Effect m.registry move events m'.registry := by
  cases h with
  | @call caller op m₀ hcalls =>
    obtain ⟨hregistry, hevents, -⟩ := hcalls.eq
    cases op with
    | register s program =>
      obtain ⟨hregisters, hpolicy, hclock⟩ := m.registry.registers_register s program
      refine ⟨told caller (m.registry.register s program), ?_, ?_⟩
      · rw [← hregistry, ← hevents]
        exact m₀.events_register caller s program
      · show Effect m.registry _ _ (m₀.registry.register s program).registry
        rw [hregistry]
        exact .registers hregisters hpolicy hclock
    | act action =>
      by_cases hupdate : ∃ now, action = .update now
      · obtain ⟨now, rfl⟩ := hupdate
        refine ⟨(m.registry.setClock now).2.map Event.warning ++
          (m.registry.setClock now).1.sweep.2.2, ?_, ?_⟩
        · rw [← hevents, ← hregistry]
          rfl
        · show Effect m.registry _ _ (m₀.registry.setClock now).1.sweep.1
          rw [hregistry]
          exact .looks now
      · have hmove : (Move.call caller (.act action) : Move σ ι).isUpdate = false := by
          cases action with
          | update now => exact absurd ⟨now, rfl⟩ hupdate
          | _ => rfl
        generalize hm' : m₀.start caller (.act action) = m' at *
        have hacts : m₀.Acts caller action m' := hm' ▸ act_cases (hm.calls hcalls).programs caller action
        cases hacts with
        | completes ref e result outcome hlive hanswers hcompletes =>
          exact hcompletes.tells hregistry hevents (.answers hlive hanswers)
        | update now => exact absurd ⟨now, rfl⟩ hupdate
        | quiet r outcome hquiet =>
          obtain ⟨hpolicy, hclock⟩ := hquiet.policy_clock
          refine ⟨[.returned caller outcome], by simp [answer, record, hevents], ?_⟩
          exact .rests hmove (hregistry ▸ hquiet.slots) (hregistry ▸ hpolicy) (hregistry ▸ hclock)
            (by simp)
  | @expire caller ref refs rest hstack =>
    obtain ⟨e, hlive, hcompletes⟩ := completes_expire hm hstack
    exact hcompletes.tells rfl rfl (.expires hlive rfl)
  | settle hstack hpending events hevents =>
    refine ⟨events.reverse, by simp, ?_⟩
    exact .rests rfl rfl rfl rfl fun event hevent => hevents event (List.mem_reverse.1 hevent)

theorem Moves.effect [Link σ] {m m' : Machine σ ι} {move : Move σ ι} (hm : m.Coherent)
    (h : m.Moves move m') : Effect m.registry move (Step.events ⟨move, m, m'⟩) m'.registry := by
  obtain ⟨events, hevents, heffect⟩ := h.tells hm
  rwa [Step.events_eq events hevents]

end Machine

/-! ## What a look at all timers does -/

theorem sightings_warnings (warnings : List Warning) :
    sightings (warnings.map (Event.warning : Warning → Event ι)) = [] := by
  refine sightings_eq_nil fun event hevent => ?_
  obtain ⟨warning, -, rfl⟩ := List.mem_map.1 hevent
  rfl

namespace Registry

theorem setClock_fst (r : Registry σ ι) (now : Nat) :
    (r.setClock now).1 = { r with clock := (Action.update now : Action σ).clock r.clock } := by
  unfold setClock Action.clock
  dsimp only
  split_ifs <;> rfl

theorem entries_look [Link σ] (r : Registry σ ι) (now : Nat) :
    entries (r.setClock now).1.sweep.1.slots = (entries r.slots).map fun e =>
      (e.visit r.link ((Action.update now : Action σ).clock r.clock)
        r.policy.responseTimeout).entry := by
  rw [setClock_fst]
  exact entries_sweep ..

theorem sightings_look [Link σ] (r : Registry σ ι) (now : Nat) :
    sightings ((r.setClock now).2.map Event.warning ++ (r.setClock now).1.sweep.2.2) =
      (entries r.slots).flatMap fun e => sightings (e.visit r.link
        ((Action.update now : Action σ).clock r.clock) r.policy.responseTimeout).events := by
  rw [sightings_append, sightings_warnings, List.nil_append, setClock_fst]
  exact sightings_sweep ..

end Registry

/-! ## What a move does to the requests of a label -/

namespace Registry

variable [DecidableEq ι]

/-- The requests of a label, outstanding or ended. -/
def share (r : Registry σ ι) (label : ι) : List (Entry σ ι) :=
  (entries r.slots).filter fun e => e.label = label

theorem mem_share {r : Registry σ ι} {label : ι} {e : Entry σ ι} :
    e ∈ r.share label ↔ e ∈ entries r.slots ∧ e.label = label := by
  simp [share]

theorem Registers.spares {r : Registry σ ι} {s : Submission ι} {program : Program σ ι}
    {g : Registration σ ι} (h : r.Registers s program g) {label : ι}
    (hne : s.label ≠ label) :
    (g.registry.share label).Perm (r.share label) ∧
      ((sightings g.events).filter fun x => x.label = label) = [] := by
  cases h with
  | fails error _ hslots hseen =>
    refine ⟨.of_eq (by rw [share, share, hslots]), List.filter_eq_nil_iff.2 fun x hx => ?_⟩
    rw [decide_eq_true_eq, hseen x hx]
    exact hne
  | opens iid msg _ _ _ hslots hseen =>
    rw [share, share, hslots, hseen]
    refine ⟨((perm_entries_insert _ r.slots).filter _).trans (.of_eq ?_), ?_⟩
    · exact List.filter_cons_of_neg (by simp [Entry.opened, hne])
    · simp [Sighting.label, hne]

end Registry

theorem Entry.label_of_mem_visit [Link σ] (e : Entry σ ι) (link : σ) (now timeout : Nat)
    {x : Sighting ι} (hx : x ∈ sightings (e.visit link now timeout).events) : x.label = e.label := by
  by_cases hlive : e.isLive = true
  · rcases visit_cases hlive link now timeout with ⟨link', hvisit⟩ | hvisit
    · rw [hvisit] at hx
      cases hx
    · rw [hvisit, sightings_resendEvents] at hx
      split_ifs at hx
      · obtain rfl := List.mem_singleton.1 hx
        rfl
      · cases hx
  · unfold visit at hx
    rw [if_neg hlive] at hx
    cases hx

namespace Machine

theorem sightings_told (caller : Caller ι) (g : Registry.Registration σ ι) :
    sightings (told caller g) = sightings g.events := by
  rw [told, sightings_append]
  exact List.append_nil _

/-- The move registers a request of the label, or tries to. -/
def Move.registers [DecidableEq ι] (label : ι) : Move σ ι → Bool
  | .call _ (.register s _) => s.label = label
  | _ => false

/-- All that a move can do to the requests of a label that it does not register, with what it shows of
them: they are spared, an `update` looks at each of them, or one of them ends. -/
inductive Fate [Link σ] [DecidableEq ι] (label : ι) (r : Registry σ ι) :
    Move σ ι → List (Sighting ι) → Registry σ ι → Prop where
  | spared {move : Move σ ι} {r' : Registry σ ι} (hmove : move.isUpdate = false)
      (hclock : r'.clock = r.clock) (hshare : (r'.share label).Perm (r.share label)) :
      Fate label r move [] r'
  | looked {caller : Caller ι} {r' : Registry σ ι} (now clock : Nat)
      (hnow : clock = (Action.update now : Action σ).clock r.clock) (hclock : r'.clock = clock)
      (hshare : r'.share label = (r.share label).map fun e =>
        (e.visit r.link clock r.policy.responseTimeout).entry) :
      Fate label r (.call caller (.act (.update now))) ((r.share label).flatMap fun e =>
        sightings (e.visit r.link clock r.policy.responseTimeout).events) r'
  | ended {move : Move σ ι} {r' : Registry σ ι} {e : Entry σ ι}
      {result : Except RequestError Response} (hclock : r'.clock = r.clock)
      (hshare : (r.share label).Perm (e :: r'.share label)) (hends : move.Ends e result) :
      Fate label r move [.ended label e.key result] r'

theorem Effect.policy [Link σ] {r r' : Registry σ ι} {move : Move σ ι} {events : List (Event ι)}
    (h : Effect r move events r') : r'.policy = r.policy := by
  cases h with
  | registers _ hpolicy _ => exact hpolicy
  | looks now =>
    show (r.setClock now).1.policy = r.policy
    rw [r.setClock_fst]
  | ends hremove _ => exact Registry.policy_of_remove? hremove
  | rests _ _ hpolicy _ _ => exact hpolicy

theorem Effect.fate [Link σ] [DecidableEq ι] {r r' : Registry σ ι} {move : Move σ ι}
    {events : List (Event ι)} (h : Effect r move events r') {label : ι}
    (hlabel : move.registers label = false) :
    Fate label r move ((sightings events).filter fun x => x.label = label) r' := by
  cases h with
  | @registers caller s program g hregisters hpolicy hclock =>
    have hne : s.label ≠ label := by simpa [Move.registers] using hlabel
    obtain ⟨hshare, hseen⟩ := hregisters.spares hne
    rw [sightings_told, hseen]
    exact .spared rfl hclock hshare
  | looks now =>
    rw [r.sightings_look, filter_flatMap_label label fun e _ x hx => e.label_of_mem_visit _ _ _ hx]
    refine .looked now _ rfl (congrArg Registry.clock (r.setClock_fst now)) ?_
    rw [Registry.share, r.entries_look, List.filter_map]
    refine congrArg _ (List.filter_congr fun e _ => ?_)
    simp [(Entry.core_eq (e.core_visit r.link _ r.policy.responseTimeout)).1]
  | @ends _ _ ref e result outstanding clock hremove hends =>
    have hperm := (perm_entries_remove? (Registry.slots_of_remove? hremove).1).filter
      fun e => e.label = label
    have hclock := Registry.clock_of_remove? hremove
    by_cases he : e.label = label
    · rw [List.filter_cons_of_pos (by simpa using he)] at hperm
      subst he
      simpa [sightings, Event.sighting?, Sighting.label] using Fate.ended hclock hperm hends
    · rw [List.filter_cons_of_neg (by simpa using he)] at hperm
      simpa [sightings, Event.sighting?, Sighting.label, he] using
        Fate.spared hends.isUpdate hclock hperm.symm
  | rests hmove hslots hpolicy hclock hevents =>
    have hseen : sightings events = [] := by
      refine sightings_eq_nil fun event hevent => ?_
      obtain ⟨caller, outcome, rfl⟩ := hevents event hevent
      rfl
    rw [hseen]
    refine .spared hmove hclock ?_
    rw [Registry.share, hslots]
    exact .refl _

/-! ## Following a run from one of its steps -/

/-- The steps that lead from a machine to another. -/
inductive Path [Link σ] (m₀ : Machine σ ι) : List (Step σ ι) → Machine σ ι → Prop where
  | refl : Path m₀ [] m₀
  | move {steps : List (Step σ ι)} {m m' : Machine σ ι} {v : Move σ ι} (h : Path m₀ steps m)
      (hmoves : m.Moves v m') : Path m₀ (steps ++ [⟨v, m, m'⟩]) m'

theorem Path.coherent [Link σ] {m₀ m : Machine σ ι} {steps : List (Step σ ι)} (h : Path m₀ steps m)
    (hm₀ : m₀.Coherent) : m.Coherent := by
  induction h with
  | refl => exact hm₀
  | move _ hmoves ih => exact (hmoves.preserves ih).1

theorem Run.last [Link σ] {r : Registry σ ι} {steps : List (Step σ ι)} {t : Step σ ι}
    {m : Machine σ ι} (h : Run r (steps ++ [t]) m) :
    Run r steps t.before ∧ t.before.Moves t.move t.after ∧ t.after = m := by
  generalize hsteps : steps ++ [t] = all at h
  cases h with
  | start => simp at hsteps
  | call op h hstack =>
    obtain ⟨rfl, ht⟩ := List.append_inj' hsteps rfl
    obtain rfl := List.singleton_inj.1 ht
    exact ⟨h, .call (.host op hstack), rfl⟩
  | step h hstack hstep =>
    obtain ⟨rfl, ht⟩ := List.append_inj' hsteps rfl
    obtain rfl := List.singleton_inj.1 ht
    exact ⟨h, moves_of_step hstack hstep, rfl⟩

/-- A run goes on from each of its steps. -/
theorem Run.split [Link σ] {r : Registry σ ι} {before after : List (Step σ ι)} {t : Step σ ι}
    {m : Machine σ ι} (h : Run r (before ++ t :: after) m) :
    Run r before t.before ∧ t.before.Moves t.move t.after ∧ t.after.Path after m := by
  induction after using List.reverseRecOn generalizing m with
  | nil =>
    obtain ⟨hrun, hmoves, rfl⟩ := h.last
    exact ⟨hrun, hmoves, .refl⟩
  | append_singleton after u ih =>
    rw [← List.cons_append, ← List.append_assoc] at h
    obtain ⟨hrun, hlast, rfl⟩ := h.last
    obtain ⟨hbefore, hmoves, hpath⟩ := ih hrun
    exact ⟨hbefore, hmoves, hpath.move hlast⟩

/-! ## Requests that are registered once -/

def Step.Opens (t : Step σ ι) (s : Submission ι) (program : Program σ ι) (key : Key) : Prop :=
  ∃ caller, t.move = .call caller (.register s program) ∧
    .returned caller (.registered (.ok key)) ∈ t.events

theorem Step.opens_start [Link σ] (m : Machine σ ι) (caller : Caller ι) {s : Submission ι}
    {program : Program σ ι} (key : Key) (h : (m.registry.register s program).result = .ok key) :
    Step.Opens ⟨.call caller (.register s program), m, m.start caller (.register s program)⟩ s program
      key := by
  refine ⟨caller, rfl, ?_⟩
  rw [Step.events_eq _ (m.events_register caller s program), told, h]
  exact List.mem_append_right _ (List.mem_singleton_self _)

variable [DecidableEq ι]

/-- What the steps show of the requests of a label, in order, each time with the clock reading in
force. -/
def chronicle (label : ι) (steps : List (Step σ ι)) : List (Nat × Sighting ι) :=
  steps.flatMap fun t =>
    ((sightings t.events).filter fun x => x.label = label).map (Prod.mk t.after.registry.clock)

theorem chronicle_append (label : ι) (a b : List (Step σ ι)) :
    chronicle label (a ++ b) = chronicle label a ++ chronicle label b :=
  List.flatMap_append

theorem chronicle_singleton (label : ι) (t : Step σ ι) :
    chronicle label [t] =
      ((sightings t.events).filter fun x => x.label = label).map
        (Prod.mk t.after.registry.clock) :=
  List.flatMap_singleton _ _

/-- A step that registers nothing under a label, with what it shows of the requests of the label. -/
structure Step.Shows [Link σ] (u : Step σ ι) (label : ι) (seen : List (Sighting ι)) : Prop where
  coherent : u.before.Coherent
  moves : u.before.Moves u.move u.after
  fate : Fate label u.before.registry u.move seen u.after.registry
  policy : u.after.registry.policy = u.before.registry.policy
  chronicle : chronicle label [u] = seen.map (Prod.mk u.after.registry.clock)

/-- What holds at the start of a path, and is kept by every step that registers nothing under a label,
holds at its end if all its steps are such. -/
theorem Path.follow [Link σ] {m₀ m : Machine σ ι} {steps : List (Step σ ι)} (h : m₀.Path steps m)
    (hm₀ : m₀.Coherent) {label : ι} (hsteps : ∀ u ∈ steps, u.move.registers label = false)
    {P : List (Step σ ι) → Machine σ ι → Prop} (start : P [] m₀)
    (move : ∀ (earlier : List (Step σ ι)) (u : Step σ ι) (seen : List (Sighting ι)), u ∈ steps →
      u.Shows label seen → P earlier u.before → P (earlier ++ [u]) u.after) : P steps m := by
  induction h with
  | refl => exact start
  | @move steps m m' v hpath hmoves ih =>
    have hm := hpath.coherent hm₀
    have heffect := hmoves.effect hm
    have hlast : (⟨v, m, m'⟩ : Step σ ι) ∈ steps ++ [⟨v, m, m'⟩] := by simp
    refine move steps ⟨v, m, m'⟩ _ hlast
      ⟨hm, hmoves, heffect.fate (hsteps _ hlast), heffect.policy, chronicle_singleton ..⟩ ?_
    exact ih (fun u hu => hsteps u (List.mem_append_left _ hu))
      fun earlier u seen hu => move earlier u seen (List.mem_append_left _ hu)

omit [DecidableEq ι] in
theorem Step.Opens.mem_registered {t : Step σ ι} {s : Submission ι} {program : Program σ ι} {key : Key}
    (h : t.Opens s program key) : (s.label, key, some program) ∈ t.registered := by
  obtain ⟨caller, hmove, hreturned⟩ := h
  unfold Step.registered
  rw [hmove]
  exact List.mem_filterMap.2 ⟨_, hreturned, rfl⟩

omit [DecidableEq ι] in
theorem Step.exists_registers_of_mem {t : Step σ ι} {name : ι × Key × Option (Program σ ι)}
    (h : name ∈ t.registered) :
    ∃ caller s program, t.move = .call caller (.register s program) ∧ s.label = name.1 := by
  unfold Step.registered at h
  split at h
  · rename_i caller s program hmove
    obtain ⟨event, -, heq⟩ := List.mem_filterMap.1 h
    split at heq
    · exact ⟨caller, s, program, hmove, congrArg Prod.fst (Option.some.inj heq)⟩
    · cases heq
  · cases h

theorem notMem_registered {steps : List (Step σ ι)} {label : ι}
    (hsteps : ∀ t ∈ steps, t.move.registers label = false) {name : ι × Key × Option (Program σ ι)}
    (hname : name.1 = label) : name ∉ steps.flatMap Step.registered := by
  intro hmem
  obtain ⟨t, ht, hmem⟩ := List.mem_flatMap.1 hmem
  obtain ⟨caller, s, program, hmove, hlabel⟩ := Step.exists_registers_of_mem hmem
  have hapart := hsteps t ht
  rw [hmove] at hapart
  simp [Move.registers, hlabel, hname] at hapart

theorem Run.share_eq_nil [Link σ] {r : Registry σ ι} {steps : List (Step σ ι)} {m : Machine σ ι}
    (hr : r.slots = []) (h : Run r steps m) {label : ι}
    (hsteps : ∀ t ∈ steps, t.move.registers label = false) : m.registry.share label = [] := by
  obtain ⟨-, hperm⟩ := h.balanced hr
  refine List.filter_eq_nil_iff.2 fun e he hlabel => ?_
  have hmem : e.name ∈ steps.flatMap Step.registered :=
    hperm.mem_iff.2 (List.mem_append_right _ (List.mem_map_of_mem he))
  exact notMem_registered hsteps (of_decide_eq_true hlabel) hmem

/-- After a step that registers a request, it is the only one of its label, and its message has been
offered to the link. -/
structure Step.Opened (t : Step σ ι) (p : Policy) (label : ι) (key : Key) (msg : Bytes)
    (program : Program σ ι) : Prop where
  coherent : t.after.Coherent
  policy : t.after.registry.policy = p
  clock : t.after.registry.clock = t.before.registry.clock
  share : t.after.registry.share label =
    [.opened label key msg p t.before.registry.clock program]
  seen : chronicle label [t] = [(t.before.registry.clock, .sent label key msg)]
  called : t.called = []

theorem Moves.opened [Link σ] {m m' : Machine σ ι} {v : Move σ ι} (hm : m.Coherent)
    (h : m.Moves v m') {s : Submission ι} {program : Program σ ι} {key : Key}
    (hopens : Step.Opens ⟨v, m, m'⟩ s program key) (hshare : m.registry.share s.label = []) :
    ∃ msg, s.request.encode key.iid = .ok msg ∧
      Step.Opened ⟨v, m, m'⟩ m.registry.policy s.label key msg program := by
  obtain ⟨caller, rfl, hreturned⟩ := hopens
  have hcoherent := (h.preserves hm).1
  obtain ⟨hregisters, hpolicy, hclock⟩ := m.registry.registers_register s program
  obtain ⟨htold, hafter⟩ := h.registration
  have hresult : (m.registry.register s program).result = .ok key := by
    rw [htold] at hreturned
    rcases List.mem_append.1 hreturned with hquiet | hlast
    · exact ((m.registry.adds_register s program).quiet _ hquiet).elim
    · obtain ⟨-, hanswer⟩ := Event.returned.inj (List.mem_singleton.1 hlast)
      exact (Outcome.registered.inj hanswer).symm
  have hmute : ∀ event ∈ told caller (m.registry.register s program), event.IsMute :=
    fun event => isMute_of_mem_told
  generalize m.registry.register s program = g at *
  cases hregisters with
  | fails error hfails _ _ =>
    rw [hresult] at hfails
    cases hfails
  | opens iid msg hopens hencode _ hslots hsent =>
    obtain rfl := Except.ok.inj (hresult.symm.trans hopens)
    refine ⟨msg, hencode, hcoherent, hafter ▸ hpolicy, hafter ▸ hclock, ?_, ?_, ?_⟩
    · have hperm := (perm_entries_insert (.opened s.label ⟨s.eid, iid, s.request.typ, s.request.cmd⟩
        msg m.registry.policy m.registry.clock program) m.registry.slots).filter
          fun e => e.label = s.label
      rw [List.filter_cons_of_pos (by simp [Entry.opened]), ← hslots] at hperm
      rw [Registry.share] at hshare
      rw [hshare] at hperm
      rw [Registry.share, hafter]
      exact List.perm_singleton.1 hperm
    · rw [chronicle_singleton, htold, sightings_told, hsent, hafter, hclock]
      simp [Sighting.label]
    · exact Step.called_eq_nil fun event hevent => hmute event (htold ▸ hevent)

/-- A run in which a request is registered goes on from there with that request only under its
label. -/
theorem Run.opened [Link σ] {link : σ} {policy : Policy} {r : Registry σ ι} {warnings : List Warning}
    (hr : Registry.create link policy = .ok (r, warnings)) {before after : List (Step σ ι)}
    {t : Step σ ι} {m : Machine σ ι} (h : Run r (before ++ t :: after) m) {s : Submission ι}
    {program : Program σ ι} {key : Key} (hopens : t.Opens s program key)
    (hbefore : ∀ u ∈ before, u.move.registers s.label = false) :
    ∃ msg, s.request.encode key.iid = .ok msg ∧ t.Opened policy s.label key msg program ∧
      t.after.Path after m := by
  have hr' := Registry.create_eq hr
  obtain ⟨hrun, hmoves, hpath⟩ := h.split
  have hslots : r.slots = [] := by rw [hr']
  have hpolicy : t.before.registry.policy = policy := by
    refine hrun.induct (P := fun _ m => m.Coherent ∧ m.registry.policy = policy) ?_ ?_ |>.2
    · exact ⟨coherent_start r hslots, by rw [hr']⟩
    · rintro steps m v m' ⟨hm, hpolicy⟩ hmoves
      exact ⟨(hmoves.preserves hm).1, (hmoves.effect hm).policy.trans hpolicy⟩
  obtain ⟨msg, hencode, hopened⟩ := hmoves.opened (hrun.balanced hslots).1 hopens
    (hrun.share_eq_nil hslots hbefore)
  exact ⟨msg, hencode, hpolicy ▸ hopened, hpath⟩

end Machine

end PlatformMessaging

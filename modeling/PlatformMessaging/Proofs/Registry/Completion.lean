import PlatformMessaging.Link.Outbox
import PlatformMessaging.Proofs.Registry.Runs

/-!
# Every request is completed once

`Machine.Run.calls_registered_once`: over any run of a new registry, with any link and any programs,
the programs of completed requests are those of registered requests, each of them once; when nothing
is under way, what is registered and not completed is outstanding. Every result comes from an
`update`, from the cancellation of the request's key, or from a response to it.

An `update` first marks what ran out of time and finishes it afterwards, while programs run in
between that may fill emptied slots, complete other requests or start an `update` of their own.
The invariant is `Machine.Coherent`: the references that the `update`s under way have yet to finish
are those to the ended requests in the slots, each once. Hence nobody empties the slot of another
one's reference, and nothing that was marked is lost.

The count goes from move to move (`Step.Balanced`): what is registered and what was in the slots is
what is completed and what is left in them.
-/

namespace PlatformMessaging

open Slots

variable {σ ι : Type}

/-- The event does not tell of the end of a request. -/
def Event.IsMute : Event ι → Prop
  | .completed .. => False
  | _ => True

theorem Event.IsQuiet.isMute {event : Event ι} (h : event.IsQuiet) : event.IsMute := by
  cases event with
  | completed => exact h
  | _ => trivial

theorem Event.isMute_of_eq {event : Event ι} {caller : Caller ι} {outcome : Outcome}
    (h : event = .returned caller outcome) : event.IsMute := by
  rw [h]
  trivial

namespace Machine

/-! ## What a step tells -/

namespace Step

def events (s : Step σ ι) : List (Event ι) :=
  (s.after.events.take (s.after.events.length - s.before.events.length)).reverse

/-- The request that a step registered with success, if any. -/
def registered (s : Step σ ι) : List (ι × Key × Option (Program σ ι)) :=
  match s.move with
  | .call _ (.register submission program) => s.events.filterMap fun
    | .returned _ (.registered (.ok key)) => some (submission.label, key, some program)
    | _ => none
  | _ => []

/-- The request that a step completed, if any, with the program that starts. -/
def called (s : Step σ ι) : List (ι × Key × Option (Program σ ι)) :=
  s.events.filterMap fun
    | .completed label key _ _ _ => some (label, key, s.after.stack.head?.bind fun
      | .running _ 0 program => some program
      | _ => none)
    | _ => none

/-- After the earlier steps of a run, the step is why the request of a key ended with a result: it
ran out of time and an `update` that had found so finishes it, or it is given up under its key, or a
response to it is delivered. -/
def Explains (earlier : List (Step σ ι)) (s : Step σ ι) (key : Key)
    (result : Except RequestError Response) : Prop :=
  (result = .error .timedOut ∧ ∃ caller ref, s.move = .expire caller ref ∧
    ∃ t ∈ earlier, ∃ now refs, t.move = .call caller (.act (.update now)) ∧
      t.after.stack.head? = some (.finishing caller refs) ∧ ref ∈ refs) ∨
  (result = .error .cancelled ∧ ∃ caller, s.move = .call caller (.act (.cancel key))) ∨
  ∃ caller action rest, s.move = .call caller (.act action) ∧ action.Delivers key rest ∧
    result = key.read rest

theorem events_eq {s : Step σ ι} (events : List (Event ι))
    (h : s.after.events = events.reverse ++ s.before.events) : s.events = events := by
  unfold Step.events
  rw [h, List.length_append, Nat.add_sub_cancel]
  simp

end Step

/-! ## The invariant -/

/-- What is left to finish are the ended requests, each once, and every request has its program. -/
structure Coherent (m : Machine σ ι) : Prop where
  pending : m.pending.Perm (ended 0 m.registry.slots)
  programs : m.Programs

/-- The requests in the slots, outstanding or ended. -/
def names (m : Machine σ ι) : List (ι × Key × Option (Program σ ι)) :=
  (entries m.registry.slots).map Entry.name

/-- What a step registers and what was in the slots is what it completes and what is left in
them. -/
def Step.Balanced (s : Step σ ι) : Prop :=
  (s.registered ++ s.before.names).Perm (s.called ++ s.after.names)

theorem programs_iff {m : Machine σ ι} :
    m.Programs ↔ ∀ name ∈ m.names, name.2.2.isSome = true := by
  constructor
  · intro h name hname
    obtain ⟨e, he, rfl⟩ := List.mem_map.1 hname
    exact h e he
  · intro h e he
    exact h e.name (List.mem_map.2 ⟨e, he, rfl⟩)

theorem Programs.mono {m m' : Machine σ ι} (hm : m.Programs) (h : m'.names ⊆ m.names) :
    m'.Programs := by
  rw [programs_iff] at hm ⊢
  exact fun name hname => hm name (h hname)

theorem Programs.congr {m m' : Machine σ ι} (hm : m.Programs) (h : m'.names = m.names) :
    m'.Programs := by
  apply hm.mono
  rw [h]
  exact List.Subset.refl _

theorem coherent_start (r : Registry σ ι) (hr : r.slots = []) :
    Coherent (⟨r, [], []⟩ : Machine σ ι) := by
  refine ⟨?_, ?_⟩
  · show ([] : List SlotRef).Perm (ended 0 r.slots)
    rw [hr]
    exact List.Perm.refl _
  · intro e he
    rw [hr] at he
    cases he

theorem Coherent.calls {m m' : Machine σ ι} {caller : Caller ι} {op : Operation σ ι}
    (hm : m.Coherent) (h : m.Calls caller op m') : m'.Coherent := by
  obtain ⟨hregistry, -, hpending⟩ := h.eq
  refine ⟨?_, ?_⟩
  · rw [hpending, hregistry]
    exact hm.pending
  · unfold Programs
    rw [hregistry]
    exact hm.programs

theorem Coherent.ended_eq_nil {m : Machine σ ι} (hm : m.Coherent) (hstack : m.stack = []) :
    ended 0 m.registry.slots = [] := by
  have hpending := hm.pending
  unfold Machine.pending at hpending
  rw [hstack] at hpending
  exact List.nil_perm.1 hpending

/-! ## What each kind of move does to it -/

theorem Completes.names {m m' : Machine σ ι} {ref : SlotRef} {e : Entry σ ι}
    {result : Except RequestError Response} {stack : List (Frame σ ι)}
    (h : m.Completes ref e result stack m') : m.names.Perm (e.name :: m'.names) := by
  obtain ⟨hremove, -⟩ := Registry.slots_of_remove? h.remove
  exact (perm_entries_remove? hremove).map Entry.name

theorem Completes.pending {m m' : Machine σ ι} {ref : SlotRef} {e : Entry σ ι}
    {result : Except RequestError Response} {stack : List (Frame σ ι)}
    (h : m.Completes ref e result stack m') : m'.pending = stack.flatMap Frame.pending := by
  obtain ⟨program, -, hstack⟩ := h.program
  unfold Machine.pending
  rw [hstack]
  rfl

theorem Completes.step {m m' : Machine σ ι} {ref : SlotRef} {e : Entry σ ι}
    {result : Except RequestError Response} {stack : List (Frame σ ι)}
    (h : m.Completes ref e result stack m') (s : Step σ ι) (hbefore : s.before.events = m.events)
    (hafter : s.after = m') :
    s.registered = [] ∧ s.called = [e.name] ∧
      ∀ label key res n c, .completed label key res n c ∈ s.events → key = e.key ∧ res = result := by
  obtain ⟨outstanding, clock, hevents⟩ := h.events
  obtain ⟨program, hprogram, hstack⟩ := h.program
  have hs : s.events = [.completed e.label e.key result outstanding clock] := by
    apply Step.events_eq
    rw [hafter, hevents, hbefore]
    rfl
  refine ⟨?_, ?_, ?_⟩
  · unfold Step.registered
    rw [hs]
    split <;> rfl
  · unfold Step.called
    rw [hs, hafter, hstack]
    simp [Entry.name, hprogram]
  · intro label key res n c hmem
    rw [hs] at hmem
    simp only [List.mem_singleton, Event.completed.injEq] at hmem
    exact ⟨hmem.2.1, hmem.2.2.1⟩

theorem Completes.balanced {m m' : Machine σ ι} {ref : SlotRef} {e : Entry σ ι}
    {result : Except RequestError Response} {stack : List (Frame σ ι)}
    (h : m.Completes ref e result stack m') (move : Move σ ι) : Step.Balanced ⟨move, m, m'⟩ := by
  obtain ⟨hregistered, hcalled, -⟩ := h.step ⟨move, m, m'⟩ rfl rfl
  unfold Step.Balanced
  rw [hregistered, hcalled]
  exact h.names

theorem Completes.coherent {m m' : Machine σ ι} {ref : SlotRef} {e : Entry σ ι}
    {result : Except RequestError Response} {stack : List (Frame σ ι)} (hm : m.Coherent)
    (h : m.Completes ref e result stack m')
    (hstack : m.pending.Perm (if e.isLive then stack.flatMap Frame.pending
      else ref :: stack.flatMap Frame.pending)) : m'.Coherent := by
  obtain ⟨hremove, -⟩ := Registry.slots_of_remove? h.remove
  have hended := perm_ended_remove? hremove
  have hpending := hstack.symm.trans (hm.pending.trans hended)
  refine ⟨?_, hm.programs.mono fun name hname => ?_⟩
  · rw [h.pending]
    by_cases hlive : e.isLive = true
    · rwa [if_pos hlive, if_pos hlive] at hpending
    · rw [if_neg hlive, if_neg hlive] at hpending
      exact hpending.cons_inv
  · exact h.names.mem_iff.2 (List.mem_cons_of_mem _ hname)

theorem Step.called_eq_nil {s : Step σ ι} (h : ∀ event ∈ s.events, event.IsMute) :
    s.called = [] := by
  refine List.filterMap_eq_nil_iff.2 fun event hevent => ?_
  have hmute := h event hevent
  cases event with
  | completed => exact hmute.elim
  | _ => rfl

theorem Step.balanced_of_names {s : Step σ ι} (hregistered : s.registered = [])
    (hcalled : s.called = []) (h : s.after.names = s.before.names) : s.Balanced := by
  unfold Step.Balanced
  rw [hregistered, hcalled, h]

theorem Acts.preserves [Link σ] {m m' : Machine σ ι} {caller : Caller ι} {action : Action σ}
    (hm : m.Coherent) (h : m.Acts caller action m') :
    m'.Coherent ∧ Step.Balanced ⟨.call caller (.act action), m, m'⟩ := by
  cases h with
  | completes ref e result outcome hlive hanswers h =>
    refine ⟨h.coherent hm ?_, h.balanced _⟩
    rw [if_pos hlive]
    exact List.Perm.refl _
  | update now =>
    have h := m.sweeps_update caller now
    obtain ⟨refs, hstack, hended⟩ := h.stack
    obtain ⟨events, hevents, hquiet⟩ := h.events
    have hnames : (m.update caller now).names = m.names := h.names
    refine ⟨⟨?_, hm.programs.congr hnames⟩,
      Step.balanced_of_names rfl (Step.called_eq_nil ?_) hnames⟩
    · have hpending : (m.update caller now).pending = refs ++ m.pending := by
        unfold pending
        rw [hstack]
        rfl
      rw [hpending]
      exact (hm.pending.append_left refs).trans hended.symm
    · intro event hevent
      rw [Step.events_eq events hevents] at hevent
      exact (hquiet event hevent).isMute
  | quiet r outcome h =>
    have hnames : ({ m with registry := r }.answer caller outcome).names = m.names := by
      show (entries r.slots).map Entry.name = _
      rw [h.slots]
      rfl
    refine ⟨⟨?_, hm.programs.congr hnames⟩,
      Step.balanced_of_names rfl (Step.called_eq_nil ?_) hnames⟩
    · show m.pending.Perm (ended 0 r.slots)
      rw [h.slots]
      exact hm.pending
    · intro event hevent
      rw [Step.events_eq [.returned caller outcome] rfl] at hevent
      exact Event.isMute_of_eq (List.mem_singleton.1 hevent)

/-- What a registration tells, its answer last. -/
def told (caller : Caller ι) (g : Registry.Registration σ ι) : List (Event ι) :=
  g.events ++ [.returned caller (.registered g.result)]

theorem events_register [Link σ] (m : Machine σ ι) (caller : Caller ι) (submission : Submission ι)
    (program : Program σ ι) :
    (m.register caller submission program).events =
      (told caller (m.registry.register submission program)).reverse ++ m.events := by
  simp [register, answer, record, told]

theorem Moves.registration [Link σ] {m m' : Machine σ ι} {caller : Caller ι} {submission : Submission ι}
    {program : Program σ ι} (h : m.Moves (.call caller (.register submission program)) m') :
    Step.events ⟨.call caller (.register submission program), m, m'⟩ =
        told caller (m.registry.register submission program) ∧
      m'.registry = (m.registry.register submission program).registry := by
  cases h with
  | @call _ _ m₀ hcalls =>
    obtain ⟨hregistry, hevents, -⟩ := hcalls.eq
    rw [Step.events_eq _ (hevents ▸ m₀.events_register caller submission program), hregistry]
    exact ⟨rfl, hregistry ▸ rfl⟩

theorem isMute_of_mem_told [Link σ] {m : Machine σ ι} {caller : Caller ι}
    {submission : Submission ι} {program : Program σ ι} {event : Event ι}
    (h : event ∈ told caller (m.registry.register submission program)) : event.IsMute := by
  rcases List.mem_append.1 h with h | h
  · exact ((m.registry.adds_register submission program).quiet event h).isMute
  · exact Event.isMute_of_eq (List.mem_singleton.1 h)

theorem step_register [Link σ] (m : Machine σ ι) (caller : Caller ι) (submission : Submission ι)
    (program : Program σ ι) (s : Step σ ι)
    (hs : s = ⟨.call caller (.register submission program), m,
      m.register caller submission program⟩) :
    s.registered = (m.registry.register submission program).result.toOption.toList.map
        (fun key => (submission.label, key, some program)) ∧
      s.called = [] := by
  have hevents : s.events = told caller (m.registry.register submission program) := by
    apply Step.events_eq
    rw [hs]
    exact m.events_register caller submission program
  constructor
  · have hquiet : (m.registry.register submission program).events.filterMap (fun
        | .returned _ (.registered (.ok key)) => some (submission.label, key, some program)
        | _ => none) = [] := by
      refine List.filterMap_eq_nil_iff.2 fun event hevent => ?_
      have h := (m.registry.adds_register submission program).quiet event hevent
      cases event with
      | returned => exact h.elim
      | _ => rfl
    have hmove : s.move = .call caller (.register submission program) := by rw [hs]
    unfold Step.registered
    rw [hmove]
    dsimp only
    rw [hevents, told, List.filterMap_append, hquiet]
    cases (m.registry.register submission program).result <;> rfl
  · refine Step.called_eq_nil fun event hevent => ?_
    rw [hevents] at hevent
    exact isMute_of_mem_told hevent

theorem preserves_register [Link σ] {m : Machine σ ι} (hm : m.Coherent) (caller : Caller ι)
    (submission : Submission ι) (program : Program σ ι) :
    (m.register caller submission program).Coherent ∧
      Step.Balanced ⟨.call caller (.register submission program), m,
        m.register caller submission program⟩ := by
  obtain ⟨hregistered, hcalled⟩ := step_register m caller submission program _ rfl
  have hslots' : (m.register caller submission program).registry.slots =
      (m.registry.register submission program).registry.slots := rfl
  have hpending : (m.register caller submission program).pending = m.pending := rfl
  rcases (m.registry.adds_register submission program).slots with
    ⟨e, hresult, hlive, hname, hslots⟩ | ⟨error, hresult, hslots⟩
  · have hnames : (m.register caller submission program).names.Perm (e.name :: m.names) := by
      unfold names
      rw [hslots', hslots]
      exact (perm_entries_insert e m.registry.slots).map Entry.name
    refine ⟨⟨?_, ?_⟩, ?_⟩
    · rw [hpending, hslots', hslots, ended_insert hlive]
      exact hm.pending
    · rw [programs_iff]
      intro name hmem
      rcases List.mem_cons.1 (hnames.mem_iff.1 hmem) with rfl | hold
      · rw [hname]
        rfl
      · exact programs_iff.1 hm.programs name hold
    · unfold Step.Balanced
      rw [hregistered, hcalled, hresult]
      show ((submission.label, e.key, some program) :: m.names).Perm _
      rw [← hname]
      exact hnames.symm
  · have hnames : (m.register caller submission program).names = m.names := by
      unfold names
      rw [hslots', hslots]
    refine ⟨⟨?_, hm.programs.congr hnames⟩, Step.balanced_of_names ?_ hcalled hnames⟩
    · rw [hpending, hslots', hslots]
      exact hm.pending
    · rw [hregistered, hresult]
      rfl

/-! ## Runs -/

theorem completes_expire {m : Machine σ ι} (hm : m.Coherent) {caller : Caller ι} {ref : SlotRef}
    {refs : List SlotRef} {rest : List (Frame σ ι)}
    (hstack : m.stack = .finishing caller (ref :: refs) :: rest) :
    ∃ e : Entry σ ι, e.isLive = false ∧
      m.Completes ref e (.error .timedOut) (.finishing caller refs :: rest)
        ({ m with stack := .finishing caller refs :: rest }.finish ref (.error .timedOut)) := by
  have hmem : ref ∈ ended 0 m.registry.slots := by
    refine hm.pending.mem_iff.1 ?_
    unfold pending
    rw [hstack]
    exact List.mem_cons_self
  obtain ⟨e, slots, hremove, hlive⟩ := exists_remove?_of_mem_ended hmem
  have hentry : e ∈ entries m.registry.slots :=
    (perm_entries_remove? hremove).mem_iff.2 List.mem_cons_self
  obtain ⟨program, hprogram⟩ := Option.isSome_iff_exists.1 (hm.programs e hentry)
  have hremove' : m.registry.remove? ref =
      some (e, { m.registry with
        slots := slots
        ids := m.registry.ids.release e.key.eid e.key.iid }) := by
    simp [Registry.remove?, hremove]
  refine ⟨e, hlive, ?_⟩
  rw [finish_of_remove? (m := { m with stack := .finishing caller refs :: rest }) _ hremove' hprogram]
  exact ⟨hremove', ⟨program, hprogram, rfl⟩, ⟨_, _, rfl⟩⟩

theorem Moves.preserves [Link σ] {m m' : Machine σ ι} {move : Move σ ι} (hm : m.Coherent)
    (h : m.Moves move m') : m'.Coherent ∧ Step.Balanced ⟨move, m, m'⟩ := by
  cases h with
  | @call caller op m₀ hcalls =>
    obtain ⟨hregistry, hevents, -⟩ := hcalls.eq
    have hm₀ := hm.calls hcalls
    have hbefore : ∀ after, Step.Balanced ⟨.call caller op, m₀, after⟩ →
        Step.Balanced ⟨.call caller op, m, after⟩ := by
      intro after h
      simpa only [Step.Balanced, Step.registered, Step.called, Step.events, names, hregistry,
        hevents] using h
    cases op with
    | act action =>
      obtain ⟨hcoherent, hbalanced⟩ := (act_cases hm₀.programs caller action).preserves hm₀
      exact ⟨hcoherent, hbefore _ hbalanced⟩
    | register submission program =>
      obtain ⟨hcoherent, hbalanced⟩ := preserves_register hm₀ caller submission program
      exact ⟨hcoherent, hbefore _ hbalanced⟩
  | @expire caller ref refs rest hstack =>
    obtain ⟨e, hlive, hcompletes⟩ := completes_expire hm hstack
    refine ⟨hcompletes.coherent hm ?_, hcompletes.balanced _⟩
    rw [if_neg (by simp [hlive])]
    unfold pending
    rw [hstack]
    exact List.Perm.refl _
  | @settle f rest hstack hpending events hevents =>
    have hrest : Machine.pending ⟨m.registry, rest, events ++ m.events⟩ = m.pending := by
      unfold pending
      rw [hstack, List.flatMap_cons, hpending]
      rfl
    refine ⟨⟨?_, hm.programs⟩, Step.balanced_of_names rfl (Step.called_eq_nil ?_) rfl⟩
    · rw [hrest]
      exact hm.pending
    · intro event hevent
      rw [Step.events_eq events.reverse (by simp)] at hevent
      obtain ⟨caller, outcome, heq⟩ := hevents event (List.mem_reverse.1 hevent)
      exact Event.isMute_of_eq heq

/-- What was registered is what was completed and what is in the slots. -/
theorem Run.balanced [Link σ] {r : Registry σ ι} {steps : List (Step σ ι)} {m : Machine σ ι}
    (hr : r.slots = []) (h : Run r steps m) :
    m.Coherent ∧ (steps.flatMap Step.registered).Perm (steps.flatMap Step.called ++ m.names) := by
  refine h.induct (P := fun steps m => m.Coherent ∧
    (steps.flatMap Step.registered).Perm (steps.flatMap Step.called ++ m.names)) ?_ ?_
  · refine ⟨coherent_start r hr, ?_⟩
    unfold names
    rw [hr]
    exact List.Perm.refl _
  · rintro steps m move m' ⟨hcoherent, hperm⟩ hmoves
    obtain ⟨hcoherent', hbalanced⟩ := hmoves.preserves hcoherent
    refine ⟨hcoherent', ?_⟩
    rw [List.flatMap_append, List.flatMap_append, List.flatMap_singleton, List.flatMap_singleton]
    have hlast : (m.names ++ Step.registered ⟨move, m, m'⟩).Perm
        (Step.called ⟨move, m, m'⟩ ++ m'.names) :=
      List.perm_append_comm.trans hbalanced
    have hfirst := hperm.append_right (Step.registered ⟨move, m, m'⟩)
    rw [List.append_assoc] at hfirst ⊢
    exact hfirst.trans (hlast.append_left _)

/-! ## Where results come from -/

/-- An `update` with requests to finish was called by its caller, and had found them. -/
def Traced (steps : List (Step σ ι)) (m : Machine σ ι) : Prop :=
  ∀ caller refs, .finishing caller refs ∈ m.stack → ∃ t ∈ steps, ∃ now found,
    t.move = .call caller (.act (.update now)) ∧
      t.after.stack.head? = some (.finishing caller found) ∧ ∀ ref ∈ refs, ref ∈ found

theorem Calls.mem_stack {m m' : Machine σ ι} {caller : Caller ι} {op : Operation σ ι}
    (h : m.Calls caller op m') {other : Caller ι} {refs : List SlotRef}
    (hmem : .finishing other refs ∈ m'.stack) : .finishing other refs ∈ m.stack := by
  cases h with
  | host _ _ => exact hmem
  | act hstack =>
    rw [hstack]
    rcases List.mem_cons.1 hmem with h | h
    · cases h
    · exact List.mem_cons_of_mem _ h
  | register hstack =>
    rw [hstack]
    rcases List.mem_cons.1 hmem with h | h
    · cases h
    · exact List.mem_cons_of_mem _ h

theorem Completes.mem_stack {m m' : Machine σ ι} {ref : SlotRef} {e : Entry σ ι}
    {result : Except RequestError Response} {stack : List (Frame σ ι)}
    (h : m.Completes ref e result stack m') {caller : Caller ι} {refs : List SlotRef}
    (hmem : .finishing caller refs ∈ m'.stack) : .finishing caller refs ∈ stack := by
  obtain ⟨program, -, hstack⟩ := h.program
  rw [hstack] at hmem
  rcases List.mem_cons.1 hmem with h | h
  · cases h
  · exact h

theorem Moves.mem_stack [Link σ] {m m' : Machine σ ι} {move : Move σ ι} (hm : m.Coherent)
    (h : m.Moves move m') {caller : Caller ι} {refs : List SlotRef}
    (hmem : .finishing caller refs ∈ m'.stack) :
    (∃ refs', .finishing caller refs' ∈ m.stack ∧ ∀ ref ∈ refs, ref ∈ refs') ∨
      ∃ now, move = .call caller (.act (.update now)) ∧
        m'.stack.head? = some (.finishing caller refs) := by
  cases h with
  | @call other op m₀ hcalls =>
    have hold : .finishing caller refs ∈ m₀.stack →
        ∃ refs', .finishing caller refs' ∈ m.stack ∧ ∀ ref ∈ refs, ref ∈ refs' :=
      fun h => ⟨refs, hcalls.mem_stack h, fun _ href => href⟩
    cases op with
    | register submission program => exact .inl (hold hmem)
    | act action =>
      generalize hm' : m₀.start other (.act action) = m' at *
      have hacts : m₀.Acts other action m' := hm' ▸ act_cases (hm.calls hcalls).programs other action
      cases hacts with
      | completes ref e result outcome hlive hanswers h =>
        rcases List.mem_cons.1 (h.mem_stack hmem) with hanswering | hrest
        · cases hanswering
        · exact .inl (hold hrest)
      | update now =>
        obtain ⟨found, hstack, -⟩ := (m₀.sweeps_update other now).stack
        rw [hstack] at hmem ⊢
        rcases List.mem_cons.1 hmem with hfound | hrest
        · obtain ⟨rfl, rfl⟩ := Frame.finishing.inj hfound
          exact .inr ⟨now, rfl, rfl⟩
        · exact .inl (hold hrest)
      | quiet r outcome h => exact .inl (hold hmem)
  | @expire other ref rest stack hstack =>
    left
    obtain ⟨e, hlive, hcompletes⟩ := completes_expire hm hstack
    rw [hstack]
    rcases List.mem_cons.1 (hcompletes.mem_stack hmem) with htop | hrest
    · obtain ⟨rfl, rfl⟩ := Frame.finishing.inj htop
      exact ⟨ref :: refs, List.mem_cons_self, fun _ href => List.mem_cons_of_mem _ href⟩
    · exact ⟨refs, List.mem_cons_of_mem _ hrest, fun _ href => href⟩
  | settle hstack hpending events hevents =>
    left
    rw [hstack]
    exact ⟨refs, List.mem_cons_of_mem _ hmem, fun _ href => href⟩

theorem Traced.move [Link σ] {steps : List (Step σ ι)} {m m' : Machine σ ι} {move : Move σ ι}
    (htraced : Traced steps m) (hm : m.Coherent) (hmoves : m.Moves move m') :
    Traced (steps ++ [⟨move, m, m'⟩]) m' := by
  intro caller refs hmem
  rcases hmoves.mem_stack hm hmem with ⟨refs', hold, hsub⟩ | ⟨now, hmove, hhead⟩
  · obtain ⟨t, ht, now, found, hcall, hhead, hfound⟩ := htraced caller refs' hold
    exact ⟨t, List.mem_append_left _ ht, now, found, hcall, hhead,
      fun ref href => hfound ref (hsub ref href)⟩
  · exact ⟨⟨move, m, m'⟩, by simp, now, refs, hmove, hhead, fun _ href => href⟩

theorem Moves.explains [Link σ] {steps : List (Step σ ι)} {m m' : Machine σ ι} {move : Move σ ι}
    (hm : m.Coherent) (htraced : Traced steps m) (h : m.Moves move m') {label : ι} {key : Key}
    {result : Except RequestError Response} {outstanding clock : Nat}
    (hmem : .completed label key result outstanding clock ∈ Step.events ⟨move, m, m'⟩) :
    Step.Explains steps ⟨move, m, m'⟩ key result := by
  cases h with
  | @call caller op m₀ hcalls =>
    obtain ⟨hregistry, hevents, -⟩ := hcalls.eq
    cases op with
    | register submission program =>
      rw [Step.events_eq _ (hevents ▸ m₀.events_register caller submission program)] at hmem
      exact (isMute_of_mem_told hmem).elim
    | act action =>
      generalize hm' : m₀.start caller (.act action) = m' at *
      have hacts : m₀.Acts caller action m' := hm' ▸ act_cases (hm.calls hcalls).programs caller action
      cases hacts with
      | completes ref e res outcome hlive hanswers h =>
        obtain ⟨-, -, honly⟩ := h.step ⟨.call caller (.act action), m, m'⟩ hevents.symm rfl
        obtain ⟨rfl, rfl⟩ := honly _ _ _ _ _ hmem
        cases hanswers with
        | delivers hdelivers => exact .inr (.inr ⟨caller, action, _, rfl, hdelivers, rfl⟩)
        | cancel _ => exact .inr (.inl ⟨rfl, caller, rfl⟩)
      | update now =>
        obtain ⟨events, hupdate, hquiet⟩ := (m₀.sweeps_update caller now).events
        rw [Step.events_eq _ (hevents ▸ hupdate)] at hmem
        exact (hquiet _ hmem).elim
      | quiet r outcome h =>
        rw [Step.events_eq [.returned caller outcome]
          (by simp [answer, record, hevents])] at hmem
        cases List.mem_singleton.1 hmem
  | @expire caller ref refs rest hstack =>
    left
    obtain ⟨e, hlive, hcompletes⟩ := completes_expire hm hstack
    obtain ⟨-, -, honly⟩ := hcompletes.step ⟨.expire caller ref, m, _⟩ rfl rfl
    obtain ⟨rfl, rfl⟩ := honly _ _ _ _ _ hmem
    -- The list of the frame was put there by an `update`, which found its requests out of time.
    obtain ⟨t, ht, now, found, hcall, hhead, hfound⟩ :=
      htraced caller (ref :: refs) (hstack ▸ List.mem_cons_self)
    exact ⟨rfl, caller, ref, rfl, t, ht, now, found, hcall, hhead, hfound ref List.mem_cons_self⟩
  | settle hstack hpending events hevents =>
    rw [Step.events_eq events.reverse (by simp)] at hmem
    obtain ⟨caller, outcome, heq⟩ := hevents _ (List.mem_reverse.1 hmem)
    cases heq

/-- Every completion in a run has its reason. -/
theorem Run.explains [Link σ] {r : Registry σ ι} {steps : List (Step σ ι)} {m : Machine σ ι}
    (hr : r.slots = []) (h : Run r steps m) {earlier later : List (Step σ ι)} {s : Step σ ι}
    (hsteps : steps = earlier ++ s :: later) {label : ι} {key : Key}
    {result : Except RequestError Response} {outstanding clock : Nat}
    (hmem : .completed label key result outstanding clock ∈ s.events) :
    s.Explains earlier key result := by
  revert earlier later s
  refine (h.induct (P := fun steps m => (m.Coherent ∧ Traced steps m) ∧
    ∀ {earlier later : List (Step σ ι)} {s : Step σ ι}, steps = earlier ++ s :: later →
      .completed label key result outstanding clock ∈ s.events → s.Explains earlier key result)
    ?_ ?_).2
  · refine ⟨⟨coherent_start r hr, fun caller refs hmem => ?_⟩, fun hsteps => ?_⟩
    · cases hmem
    · simp at hsteps
  · rintro steps m move m' ⟨⟨hcoherent, htraced⟩, ih⟩ hmoves
    refine ⟨⟨(hmoves.preserves hcoherent).1, htraced.move hcoherent hmoves⟩, ?_⟩
    intro earlier later s hsteps hmem
    rcases List.eq_nil_or_concat later with rfl | ⟨later, last, rfl⟩
    · obtain ⟨rfl, hs⟩ := List.append_inj' hsteps rfl
      obtain rfl := List.singleton_inj.1 hs
      exact hmoves.explains hcoherent htraced hmem
    · rw [List.concat_eq_append, ← List.cons_append, ← List.append_assoc] at hsteps
      exact ih (List.append_inj' hsteps rfl).1 hmem

/-! ## The result -/

/-- Over any run of a new registry, the programs of completed requests are those of registered ones,
each once. When nothing is under way, a request that was registered is completed or outstanding. A
request ends without a response only because an `update` found it out of time or because its key is
given up. -/
theorem Run.calls_registered_once [Link σ] {link : σ} {policy : Policy} {r : Registry σ ι}
    {warnings : List Warning} (hr : Registry.create link policy = .ok (r, warnings))
    {steps : List (Step σ ι)} {m : Machine σ ι} (h : Run r steps m) :
    (steps.flatMap Step.called).Subperm (steps.flatMap Step.registered) ∧
    (m.stack = [] →
      (steps.flatMap Step.registered).Perm
        (steps.flatMap Step.called ++ (live m.registry.slots).map Entry.name) ∧
      (steps.flatMap Step.registered).length =
        (steps.flatMap Step.called).length + m.registry.outstanding) ∧
    ∀ earlier s later, steps = earlier ++ s :: later →
      ∀ label key result outstanding clock,
        .completed label key result outstanding clock ∈ s.events →
          s.Explains earlier key result := by
  have hslots : r.slots = [] := by
    rw [Registry.create_eq hr]
  obtain ⟨hcoherent, hperm⟩ := h.balanced hslots
  refine ⟨?_, fun hstack => ?_, fun earlier s later hsteps label key result outstanding clock hmem =>
    h.explains hslots hsteps hmem⟩
  · exact (List.sublist_append_left _ _).subperm.trans hperm.symm.subperm
  · have hlive : (live m.registry.slots).map Entry.name = m.names := by
      rw [live_eq_entries (hcoherent.ended_eq_nil hstack)]
      rfl
    refine ⟨hlive ▸ hperm, ?_⟩
    have hlength := hperm.length_eq
    rw [← hlive, List.length_append, List.length_map] at hlength
    exact hlength

/-- Two requests run out of time in one `update`. The program of the first registers a request, which
goes into its slot, and tries to give the second one up, which is no longer outstanding. -/
theorem Run.calls_registered_once_reentrant :
    ∃ (r : Registry Outbox Nat) (steps : List (Step Outbox Nat)) (m : Machine Outbox Nat),
      Registry.create {} {} = .ok (r, []) ∧ Run r steps m ∧ m.stack = [] ∧
      (steps.flatMap Step.registered).length = 3 ∧ (steps.flatMap Step.called).length = 2 ∧
      (steps.flatMap Step.registered).length =
        (steps.flatMap Step.called).length + m.registry.outstanding := by
  have hr : Registry.create ({} : Outbox) {} =
      .ok ((⟨{}, {}, {}, [], 0⟩ : Registry Outbox Nat), []) := rfl
  have h₁ := (Run.start (r := (⟨{}, {}, {}, [], 0⟩ : Registry Outbox Nat))).perform rfl
    (.register ⟨9, .given 3, ⟨0, 2, []⟩, 0⟩
      (.register ⟨9, .given 5, ⟨0, 2, []⟩, 2⟩ .done (.act (.cancel ⟨9, 4, 0, 2⟩) .done)))
  have h₂ := h₁.perform (stack_run _) (.register ⟨9, .given 4, ⟨0, 2, []⟩, 1⟩ .done)
  have h₃ := h₂.perform (stack_run _) (.act (.update 8000))
  obtain ⟨-, hrest, -⟩ := h₃.calls_registered_once hr
  exact ⟨_, _, _, hr, h₃, stack_run _, by decide +kernel, by decide +kernel,
    (hrest (stack_run _)).2⟩

end Machine

end PlatformMessaging

import Mathlib.Algebra.BigOperators.Group.List.Basic
import Mathlib.Algebra.GroupWithZero.Nat
import PlatformMessaging.Proofs.Registry.Deadlines
import PlatformMessaging.Proofs.Registry.Resends

/-!
# Cascades of completions

The program of a completed request may complete other requests, start `update`s, and register requests that
run out of time in them at once. On the way neither the number of requests nor the clock falls. All the same
an operation ends with an answer, and runs no more programs than there were requests outstanding and
registrations in their programs, at any depth (`Machine.Run.cascade_bounded`).

What cannot grow is `Machine.prospects`: the requests in the slots, the registrations in their programs, and
those that the programs under way have ahead of them.

* Completing a request takes it out of the slots, and the registrations of its program are then ahead.
* A registration that a program makes is no longer ahead. It puts a request into the slots, with the program
  that it carries, or comes to nothing (`Step.forgone`).
* No other move changes what is counted, so that a step pays for the program that it starts
  (`Moves.conserves`). What the slots gain and lose is known already (`Step.Balanced`); what the programs
  under way gain is `Step.Loads`.
* Only a registration of the host brings in more, and that one completes nothing.
-/

namespace PlatformMessaging

open Slots

variable {σ ι : Type}

/-! ## Registrations to come -/

/-- How many registrations a program contains, those in the programs that it registers included. -/
def Program.registrations : Program σ ι → Nat
  | .done => 0
  | .act _ next => next.registrations
  | .register _ onComplete next => onComplete.registrations + next.registrations + 1

/-- How many registrations an operation makes, itself and in the program that it registers. -/
def Operation.registrations : Operation σ ι → Nat
  | .act _ => 0
  | .register _ program => program.registrations + 1

/-- How many registrations the program of a request contains. -/
def Entry.registrations (e : Entry σ ι) : Nat :=
  (e.transaction.callback.map Program.registrations).getD 0

/-- How many registrations a frame has ahead of it. -/
def Frame.registrations : Frame σ ι → Nat
  | .running _ _ program => program.registrations
  | .answering _ _ => 0
  | .finishing _ _ => 0

/-- How many programs may run on account of the outstanding requests: that of each, and one for each
registration in them. -/
def Registry.prospects (r : Registry σ ι) : Nat :=
  r.outstanding + ((live r.slots).map Entry.registrations).sum

theorem Frame.registrations_of_settle {f : Frame σ ι} (h : f.move = .settle) : f.registrations = 0 := by
  rcases f with ⟨label, i, _ | ⟨action, next⟩ | ⟨s, program, next⟩⟩ | ⟨caller, outcome⟩ |
    ⟨caller, _ | ⟨ref, refs⟩⟩
  · rfl
  · cases h
  · cases h
  · rfl
  · rfl
  · cases h

namespace Machine

/-- How many programs may run on account of requests with these names. -/
def owed (names : List (ι × Key × Option (Program σ ι))) : Nat :=
  (names.map fun name => (name.2.2.map Program.registrations).getD 0 + 1).sum

/-- How many registrations the programs under way have ahead of them. -/
def ahead (m : Machine σ ι) : Nat :=
  (m.stack.map Frame.registrations).sum

/-- How many programs may yet run. -/
def prospects (m : Machine σ ι) : Nat :=
  owed m.names + m.ahead

def Move.registrations : Move σ ι → Nat
  | .call _ op => op.registrations
  | _ => 0

/-- The registrations that the host brings in. -/
def Move.brought : Move σ ι → Nat
  | .call .host op => op.registrations
  | _ => 0

/-- The registrations that come to nothing in a step: one that fails, with those in its program. -/
def Step.forgone (s : Step σ ι) : Nat :=
  if s.registered.isEmpty then s.move.registrations else 0

/-- After the step so many registrations are ahead, besides those of the program that it starts, if any. -/
def Step.Loads (s : Step σ ι) (n : Nat) : Prop :=
  s.after.ahead + s.called.length = n + owed s.called

theorem owed_append (a b : List (ι × Key × Option (Program σ ι))) : owed (a ++ b) = owed a + owed b := by
  simp [owed]

theorem owed_perm {a b : List (ι × Key × Option (Program σ ι))} (h : a.Perm b) : owed a = owed b :=
  (h.map _).sum_nat

theorem owed_names (m : Machine σ ι) : owed m.names =
    (entries m.registry.slots).length + ((entries m.registry.slots).map Entry.registrations).sum := by
  unfold owed names
  rw [List.map_map, Nat.add_comm]
  show ((entries m.registry.slots).map fun e => e.registrations + 1).sum = _
  simp

theorem ahead_of_stack {m : Machine σ ι} {f : Frame σ ι} {rest : List (Frame σ ι)}
    (hstack : m.stack = f :: rest) : m.ahead = f.registrations + (rest.map Frame.registrations).sum := by
  unfold ahead
  rw [hstack, List.map_cons, List.sum_cons]

theorem Coherent.prospects_at_rest {m : Machine σ ι} (hm : m.Coherent) (hstack : m.stack = []) :
    m.prospects = m.registry.prospects := by
  have hahead : m.ahead = 0 := by
    unfold ahead
    rw [hstack]
    rfl
  rw [prospects, hahead, owed_names, Registry.prospects, Registry.outstanding,
    live_eq_entries (hm.ended_eq_nil hstack)]
  rfl

/-! ## What a move does to the programs under way -/

theorem Step.called_of_returned {s : Step σ ι} {events : List (Event ι)}
    (h : s.after.events = events ++ s.before.events)
    (hevents : ∀ event ∈ events, ∃ caller outcome, event = .returned caller outcome) : s.called = [] := by
  refine Step.called_eq_nil fun event hevent => ?_
  rw [Step.events_eq events.reverse (by rw [h, List.reverse_reverse])] at hevent
  obtain ⟨caller, outcome, heq⟩ := hevents event (List.mem_reverse.1 hevent)
  exact Event.isMute_of_eq heq

theorem Step.loads_of_called_eq_nil {s : Step σ ι} {n : Nat} (hcalled : s.called = [])
    (hahead : s.after.ahead = n) : s.Loads n := by
  unfold Step.Loads
  rw [hcalled, hahead]
  rfl

theorem Completes.loads {m m' : Machine σ ι} {ref : SlotRef} {e : Entry σ ι}
    {result : Except RequestError Response} {f : Frame σ ι} {rest : List (Frame σ ι)}
    (h : m.Completes ref e result (f :: rest) m') (hf : f.registrations = 0) (v : Move σ ι) :
    Step.Loads ⟨v, m, m'⟩ (rest.map Frame.registrations).sum := by
  obtain ⟨program, hprogram, hstack⟩ := h.program
  obtain ⟨-, hcalled, -⟩ := h.step ⟨v, m, m'⟩ rfl rfl
  have howed : owed [e.name] = program.registrations + 1 := by
    simp [owed, Entry.name, hprogram]
  have hahead : m'.ahead = program.registrations + (rest.map Frame.registrations).sum := by
    rw [ahead_of_stack hstack, List.map_cons, List.sum_cons, hf, Nat.zero_add]
    rfl
  unfold Step.Loads
  rw [hcalled, howed, hahead, List.length_singleton]
  omega

theorem Acts.loads [Link σ] {m m' : Machine σ ι} {caller : Caller ι} {action : Action σ}
    (h : m.Acts caller action m') : Step.Loads ⟨.call caller (.act action), m, m'⟩ m.ahead := by
  cases h with
  | completes ref e result outcome _ _ hcompletes => exact hcompletes.loads rfl _
  | update now =>
    have hsweeps := m.sweeps_update caller now
    obtain ⟨refs, hstack, -⟩ := hsweeps.stack
    obtain ⟨events, hevents, hquiet⟩ := hsweeps.events
    refine Step.loads_of_called_eq_nil (Step.called_eq_nil fun event hevent => ?_) ?_
    · rw [Step.events_eq events hevents] at hevent
      exact (hquiet event hevent).isMute
    · exact (ahead_of_stack hstack).trans (Nat.zero_add _)
  | quiet r outcome _ =>
    have hanswer : ∀ event ∈ [Event.returned caller outcome],
        ∃ caller outcome, event = .returned caller outcome := by
      simp
    exact Step.loads_of_called_eq_nil (Step.called_of_returned rfl hanswer) rfl

theorem loads_start [Link σ] {m : Machine σ ι} (hm : m.Programs) (caller : Caller ι)
    (op : Operation σ ι) : Step.Loads ⟨.call caller op, m, m.start caller op⟩ m.ahead := by
  cases op with
  | act action => exact (act_cases hm caller action).loads
  | register submission program =>
    exact Step.loads_of_called_eq_nil (step_register m caller submission program _ rfl).2 rfl

theorem Calls.ahead {m m₀ : Machine σ ι} {caller : Caller ι} {op : Operation σ ι}
    (h : m.Calls caller op m₀) :
    m₀.ahead + op.registrations = m.ahead + (Move.call caller op).brought := by
  cases h with
  | host _ _ => rfl
  | act hstack =>
    rw [ahead_of_stack hstack, ahead_of_stack rfl]
    rfl
  | register hstack =>
    rw [ahead_of_stack hstack, ahead_of_stack rfl]
    simp only [Frame.registrations, Operation.registrations, Program.registrations, Move.brought]
    omega

theorem Moves.loads [Link σ] {m m' : Machine σ ι} {v : Move σ ι} (hm : m.Coherent) (h : m.Moves v m')
    (hsettle : v = .settle → m'.ahead = m.ahead) :
    ∃ n, Step.Loads ⟨v, m, m'⟩ n ∧ n + v.registrations = m.ahead + v.brought := by
  cases h with
  | @call caller op m₀ hcalls =>
    have hbefore : Step.called ⟨.call caller op, m, m₀.start caller op⟩ =
        Step.called ⟨.call caller op, m₀, m₀.start caller op⟩ := by
      simp only [Step.called, Step.events, hcalls.eq.2.1]
    refine ⟨m₀.ahead, ?_, hcalls.ahead⟩
    unfold Step.Loads
    rw [hbefore]
    exact loads_start (hm.calls hcalls).programs caller op
  | @expire caller ref refs rest hstack =>
    obtain ⟨e, -, hcompletes⟩ := completes_expire hm hstack
    refine ⟨_, hcompletes.loads rfl _, ?_⟩
    rw [ahead_of_stack hstack]
    exact (Nat.zero_add _).symm
  | settle _ _ events hevents =>
    -- A move may end a program that is not done. A step does not, which is what `hsettle` says.
    exact ⟨m.ahead, Step.loads_of_called_eq_nil (Step.called_of_returned rfl hevents) (hsettle rfl), rfl⟩

/-! ## The count -/

theorem Moves.owed_registered [Link σ] {m m' : Machine σ ι} {v : Move σ ι} (h : m.Moves v m') :
    owed (Step.registered ⟨v, m, m'⟩) + Step.forgone ⟨v, m, m'⟩ = v.registrations := by
  have hnone : Step.registered ⟨v, m, m'⟩ = [] →
      owed (Step.registered ⟨v, m, m'⟩) + Step.forgone ⟨v, m, m'⟩ = v.registrations := by
    intro hnil
    rw [Step.forgone, hnil]
    exact Nat.zero_add _
  cases h with
  | @call caller op m₀ hcalls =>
    cases op with
    | act action => exact hnone rfl
    | register submission program =>
      have hbefore : Step.registered ⟨.call caller (.register submission program), m,
          m₀.start caller (.register submission program)⟩ = Step.registered
            ⟨.call caller (.register submission program), m₀, m₀.register caller submission program⟩ := by
        simp only [Step.registered, Step.events, hcalls.eq.2.1]
        rfl
      rw [(step_register m₀ caller submission program _ rfl).1] at hbefore
      cases hresult : (m₀.registry.register submission program).result with
      | error e =>
        refine hnone ?_
        rw [hbefore, hresult]
        rfl
      | ok key =>
        rw [hresult] at hbefore
        rw [Step.forgone, hbefore]
        rfl
  | expire _ => exact hnone rfl
  | settle _ _ _ _ => exact hnone rfl

/-- **A move pays for the program that it starts.** What has started, what may yet run and what comes to
nothing is what could run before and what the host brings in. -/
theorem Moves.conserves [Link σ] {m m' : Machine σ ι} {v : Move σ ι} (hm : m.Coherent)
    (h : m.Moves v m') (hsettle : v = .settle → m'.ahead = m.ahead) :
    (Step.called ⟨v, m, m'⟩).length + m'.prospects + Step.forgone ⟨v, m, m'⟩ =
      m.prospects + v.brought := by
  have hbalanced := owed_perm (h.preserves hm).2
  rw [owed_append, owed_append] at hbalanced
  obtain ⟨n, hloads, hn⟩ := h.loads hm hsettle
  have hregistered := h.owed_registered
  unfold Step.Loads at hloads
  unfold prospects
  dsimp only at hbalanced hloads
  omega

theorem step_conserves [Link σ] {m m' : Machine σ ι} (hm : m.Coherent) {f : Frame σ ι}
    {rest : List (Frame σ ι)} (hstack : m.stack = f :: rest) (hstep : m.step = some m') :
    (Step.called ⟨f.move, m, m'⟩).length + m'.prospects + Step.forgone ⟨f.move, m, m'⟩ = m.prospects := by
  have hmoves := moves_of_step hstack hstep
  have hbrought : f.move.brought = 0 := by
    cases hmove : f.move with
    | call caller op =>
      cases caller with
      | host => exact absurd hmove (f.move_ne_host op)
      | callback _ _ => rfl
    | _ => rfl
  have hconserves := hmoves.conserves hm fun hsettle => ?_
  · rwa [hbrought] at hconserves
  · have hended := Frame.registrations_of_settle hsettle
    rw [hsettle] at hmoves
    cases hmoves with
    | settle hstack' _ _ _ =>
      rw [ahead_of_stack hstack', (List.cons.inj (hstack'.symm.trans hstack)).1, hended, Nat.zero_add]
      rfl

/-- What is under way runs as many programs as the prospects fall by, less what comes to nothing. -/
theorem trace_conserves [Link σ] {m : Machine σ ι} (hm : m.Coherent) (n : Nat) :
    ((m.trace n).flatMap Step.called).length + (m.steps n).prospects +
      ((m.trace n).map Step.forgone).sum = m.prospects := by
  -- Each step keeps the balance (`step_conserves`); the sums telescope.
  induction n generalizing m with
  | zero => simp [trace, Machine.steps]
  | succ n ih =>
    unfold trace Machine.steps
    rcases hstack : m.stack with _ | ⟨f, rest⟩
    · simp [step_of_stack_eq_nil hstack]
    · cases hstep : m.step with
      | none => simp
      | some m' =>
        have hfirst := step_conserves hm hstack hstep
        have hrest := ih ((moves_of_step hstack hstep).preserves hm).1
        simp only [List.flatMap_cons, List.length_append, List.map_cons, List.sum_cons]
        omega

theorem Coherent.run [Link σ] {m : Machine σ ι} (hm : m.Coherent) : m.run.Coherent := by
  refine run_induct (fun m m' hm hstep => ?_) hm
  obtain ⟨v, hmoves⟩ := exists_moves_of_step hstep
  exact (hmoves.preserves hm).1

/-- An operation of the host runs as many programs as the prospects fall by, less what comes to nothing. A
registration may add to them. -/
theorem performed_conserves [Link σ] {m : Machine σ ι} (hm : m.Coherent) (hstack : m.stack = [])
    (op : Operation σ ι) :
    ((m.performed op).flatMap Step.called).length + (m.registry.perform op).registry.prospects +
        ((m.performed op).map Step.forgone).sum =
      m.registry.prospects + op.registrations := by
  have hmoves : m.Moves (.call .host op) (m.start .host op) := .call (.host op hstack)
  have hstart := (hmoves.preserves hm).1
  have hfirst := hmoves.conserves hm nofun
  have hrest := trace_conserves hstart (m.start .host op).weight
  rw [hm.prospects_at_rest hstack, Move.brought] at hfirst
  rw [← Machine.run, hstart.run.prospects_at_rest (stack_run _), (m.run_start_host hstack op).1] at hrest
  simp only [performed, List.flatMap_cons, List.length_append, List.map_cons, List.sum_cons]
  omega

theorem called_performed_register [Link σ] {m : Machine σ ι} (hstack : m.stack = [])
    (submission : Submission ι) (program : Program σ ι) :
    (m.performed (.register submission program)).flatMap Step.called = [] := by
  have hstart : (m.start .host (.register submission program)).stack = [] := hstack
  have htrace : ∀ n, (m.start .host (.register submission program)).trace n = [] := by
    intro n
    cases n with
    | zero => rfl
    | succ n =>
      unfold trace
      rw [hstart]
  unfold performed
  rw [htrace, List.flatMap_singleton]
  exact (step_register m .host submission program _ rfl).2

end Machine

/-! ## The answer -/

/-- The frame answers the caller at its end. -/
def Frame.Answers (caller : Caller ι) : Frame σ ι → Prop
  | .running _ _ _ => False
  | .answering c _ => c = caller
  | .finishing c _ => c = caller

namespace Machine

/-- The host waits for the lowest frame to answer, or was just answered. -/
def Attends (m : Machine σ ι) : Prop :=
  (∃ above f, m.stack = above ++ [f] ∧ f.Answers .host) ∨
    ∃ outcome events, m.stack = [] ∧ m.events = .returned .host outcome :: events

theorem Attends.step [Link σ] {m m' : Machine σ ι} (hm : m.Coherent) (h : m.Attends)
    (hstep : m.step = some m') : m'.Attends := by
  rcases h with ⟨_ | ⟨g, above⟩, f, hstack, hf⟩ | ⟨outcome, events, hstack, -⟩
  · obtain ⟨registry, stack, told⟩ := m
    obtain rfl : stack = [f] := hstack
    rcases f with ⟨label, i, program⟩ | ⟨caller, outcome⟩ | ⟨caller, _ | ⟨ref, refs⟩⟩
    · exact hf.elim
    · obtain rfl := Option.some.inj hstep
      obtain rfl : caller = .host := hf
      exact .inr ⟨_, _, rfl, rfl⟩
    · obtain rfl := Option.some.inj hstep
      obtain rfl : caller = .host := hf
      exact .inr ⟨_, _, rfl, rfl⟩
    · obtain ⟨e, -, hcompletes⟩ := completes_expire hm rfl
      obtain ⟨program, -, hnew⟩ := hcompletes.program
      obtain rfl := Option.some.inj hstep
      exact .inl ⟨[_], _, hnew, hf⟩
  · obtain ⟨new, hnew⟩ := stack_step hm hstack hstep
    exact .inl ⟨new ++ above, f, hnew.trans (List.append_assoc ..).symm, hf⟩
  · rw [step_of_stack_eq_nil hstack] at hstep
    cases hstep

theorem attends_start [Link σ] {m : Machine σ ι} (hm : m.Programs) (hstack : m.stack = [])
    (op : Operation σ ι) : (m.start .host op).Attends := by
  cases op with
  | register submission program => exact .inr ⟨_, _, hstack, rfl⟩
  | act action =>
    generalize hm' : m.start .host (.act action) = m'
    have hacts : m.Acts .host action m' := hm' ▸ act_cases hm .host action
    cases hacts with
    | completes ref e result outcome _ _ hcompletes =>
      obtain ⟨program, -, hnew⟩ := hcompletes.program
      rw [hstack] at hnew
      exact .inl ⟨[_], _, hnew, rfl⟩
    | update now =>
      obtain ⟨refs, hnew, -⟩ := (m.sweeps_update .host now).stack
      rw [hstack] at hnew
      exact .inl ⟨[], _, hnew, rfl⟩
    | quiet r outcome _ => exact .inr ⟨_, _, hstack, rfl⟩

end Machine

theorem Registry.perform_answers [Link σ] {r : Registry σ ι}
    (hrest : Machine.Coherent (⟨r, [], []⟩ : Machine σ ι)) (op : Operation σ ι) :
    ∃ events, (r.perform op).events = events ++ [.returned .host (r.perform op).outcome] := by
  have hstart : (Machine.start ⟨r, [], []⟩ .host op).Coherent :=
    ((Machine.Moves.call (.host op rfl)).preserves hrest).1
  have hrun := Machine.run_induct (P := fun m => m.Coherent ∧ m.Attends) ?_
    ⟨hstart, Machine.attends_start hrest.programs rfl op⟩
  · obtain ⟨-, ⟨above, f, hstack, -⟩ | ⟨outcome, events, -, hevents⟩⟩ := hrun
    · rw [Machine.stack_run] at hstack
      simp at hstack
    · refine ⟨events.reverse, ?_⟩
      unfold perform
      dsimp only
      rw [hevents]
      exact List.reverse_cons
  · rintro m m' ⟨hm, hattends⟩ hstep
    obtain ⟨v, hmoves⟩ := Machine.exists_moves_of_step hstep
    exact ⟨(hmoves.preserves hm).1, hattends.step hm hstep⟩

namespace Machine

/-- **Cascades are bounded.** Whenever nothing is under way after a run of a new registry, an operation of
the host ends, whatever the programs of the requests do and at whatever clock readings: nothing is under way
again, and its answer is the last that it tells. It runs no more programs than there are requests outstanding
at its start and registrations in their programs, at any depth. Those that it does not run are still in
prospect afterwards, or come to nothing with a registration that fails. -/
theorem Run.cascade_bounded [Link σ] {link : σ} {policy : Policy} {r : Registry σ ι}
    {warnings : List Warning} (hr : Registry.create link policy = .ok (r, warnings))
    {steps : List (Step σ ι)} {m : Machine σ ι} (h : Run r steps m) (hstack : m.stack = [])
    (op : Operation σ ι) :
    (m.start .host op).run.stack = [] ∧
    (∃ events, (m.registry.perform op).events =
      events ++ [.returned .host (m.registry.perform op).outcome]) ∧
    ((m.performed op).flatMap Step.called).length ≤
      m.registry.outstanding + ((live m.registry.slots).map Entry.registrations).sum ∧
    ((m.performed op).flatMap Step.called).length + (m.registry.perform op).registry.prospects +
        ((m.performed op).map Step.forgone).sum =
      m.registry.prospects + op.registrations := by
  have hslots : r.slots = [] := by
    rw [Registry.create_eq hr]
  have hm := (h.balanced hslots).1
  have hrest : Coherent (⟨m.registry, [], []⟩ : Machine σ ι) := by
    refine ⟨?_, hm.programs⟩
    rw [hm.ended_eq_nil hstack]
    exact .refl _
  have hconserves := performed_conserves hm hstack op
  refine ⟨stack_run _, Registry.perform_answers hrest op, ?_, hconserves⟩
  cases op with
  | register submission program =>
    rw [called_performed_register hstack]
    exact Nat.zero_le _
  | act action =>
    rw [Operation.registrations] at hconserves
    show _ ≤ m.registry.prospects
    omega

/-- Two requests run out of time. The program of the first one registers a third and moves the clock to its
top, where the third is due at once, and the program of the third does the same with a fourth. -/
theorem Run.cascade_bounded_nested :
    ∃ (r : Registry Outbox Nat) (steps : List (Step Outbox Nat)) (m : Machine Outbox Nat),
      Registry.create {} {} = .ok (r, []) ∧ Run r steps m ∧ m.stack = [] ∧
      m.registry.outstanding = 2 ∧ ((live m.registry.slots).map Entry.registrations).sum = 2 ∧
      (m.start .host (.act (.update 8000))).run.stack = [] ∧
      ((m.performed (.act (.update 8000))).flatMap Step.called).length = 4 ∧
      ((m.performed (.act (.update 8000))).flatMap Step.called).length ≤
        m.registry.outstanding + ((live m.registry.slots).map Entry.registrations).sum := by
  have hr : Registry.create ({} : Outbox) {} =
      .ok ((⟨{}, {}, {}, [], 0⟩ : Registry Outbox Nat), []) := rfl
  have h₁ := (Run.start (r := (⟨{}, {}, {}, [], 0⟩ : Registry Outbox Nat))).perform rfl
    (.register ⟨9, .given 3, ⟨0, 2, []⟩, 0⟩ (.register ⟨9, .given 5, ⟨0, 2, []⟩, 2⟩
      (.register ⟨9, .given 6, ⟨0, 2, []⟩, 3⟩ .done (.act (.update Clock.top) .done))
      (.act (.update Clock.top) .done)))
  have h₂ := h₁.perform (stack_run _) (.register ⟨9, .given 4, ⟨0, 2, []⟩, 1⟩ .done)
  obtain ⟨hends, -, hbound, -⟩ := h₂.cascade_bounded hr (stack_run _) (.act (.update 8000))
  exact ⟨_, _, _, hr, h₂, stack_run _, by decide +kernel, by decide +kernel, hends, by decide +kernel,
    hbound⟩

end Machine

end PlatformMessaging

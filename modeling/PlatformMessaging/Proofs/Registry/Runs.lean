import PlatformMessaging.Proofs.Registry.Effects

/-!
# Runs of a machine

A machine moves in three ways: a caller, which is the host or a running program, starts an
operation; an `update` finishes the next request that it found out of time; or something that was
under way ends. A `Run` has any number of moves in the order in which they happen, where the host
starts an operation whenever nothing is under way, and the programs of completed requests do what
they contain.

* `Machine.moves_of_step`: every step is such a move.
* `Run.induct`: what every move preserves holds after every run.
* `Run.perform`: performing an operation continues a run, with what `Registry.perform` reports
  (`run_start_host`).

The programs do not look at answers; but one that decides as it goes does in any single run what some
program does that does not.
-/

namespace PlatformMessaging

variable {σ ι : Type}

/-- The requests that a frame has yet to finish. -/
def Frame.pending : Frame σ ι → List SlotRef
  | .finishing _ expired => expired
  | _ => []

namespace Machine

/-- The requests that are left to finish, over all `update`s under way. -/
def pending (m : Machine σ ι) : List SlotRef :=
  m.stack.flatMap Frame.pending

/-- What happens in one step. -/
inductive Move (σ ι : Type) where
  /-- A caller starts an operation. -/
  | call (caller : Caller ι) (op : Operation σ ι)
  /-- The `update` of a caller finishes the next request that ran out of time. -/
  | expire (caller : Caller ι) (ref : SlotRef)
  /-- A program, an `update` or an answer comes to its end. -/
  | settle

/-- A move, with the machine before and after it. -/
structure Step (σ ι : Type) where
  move : Move σ ι
  before : Machine σ ι
  after : Machine σ ι

end Machine

/-- What a frame on top of the stack does next. -/
def Frame.move : Frame σ ι → Machine.Move σ ι
  | .running _ _ .done => .settle
  | .running label i (.act action _) => .call (.callback label i) (.act action)
  | .running label i (.register s program _) => .call (.callback label i) (.register s program)
  | .answering _ _ => .settle
  | .finishing _ [] => .settle
  | .finishing caller (ref :: _) => .expire caller ref

namespace Machine

variable [Link σ]

/-- The steps that lead from a registry to a machine, in the order in which they are taken. -/
inductive Run (r : Registry σ ι) : List (Step σ ι) → Machine σ ι → Prop where
  | start : Run r [] ⟨r, [], []⟩
  | call {steps : List (Step σ ι)} {m : Machine σ ι} (op : Operation σ ι) (h : Run r steps m)
      (hstack : m.stack = []) :
      Run r (steps ++ [⟨.call .host op, m, m.start .host op⟩]) (m.start .host op)
  | step {steps : List (Step σ ι)} {m m' : Machine σ ι} {f : Frame σ ι} {rest : List (Frame σ ι)}
      (h : Run r steps m) (hstack : m.stack = f :: rest) (hstep : m.step = some m') :
      Run r (steps ++ [⟨f.move, m, m'⟩]) m'

/-! ## Single moves -/

/-- The caller starts the operation in the machine `m'`, which is `m` with the caller's program
advanced. -/
inductive Calls (m : Machine σ ι) : Caller ι → Operation σ ι → Machine σ ι → Prop where
  | host (op : Operation σ ι) (hstack : m.stack = []) : Calls m .host op m
  | act {label : ι} {i : Nat} {action : Action σ} {next : Program σ ι} {rest : List (Frame σ ι)}
      (hstack : m.stack = .running label i (.act action next) :: rest) :
      Calls m (.callback label i) (.act action)
        { m with stack := .running label (i + 1) next :: rest }
  | register {label : ι} {i : Nat} {s : Submission ι} {program next : Program σ ι}
      {rest : List (Frame σ ι)}
      (hstack : m.stack = .running label i (.register s program next) :: rest) :
      Calls m (.callback label i) (.register s program)
        { m with stack := .running label (i + 1) next :: rest }

/-- The machine makes the move. -/
inductive Moves (m : Machine σ ι) : Move σ ι → Machine σ ι → Prop where
  | call {caller : Caller ι} {op : Operation σ ι} {m' : Machine σ ι} (h : m.Calls caller op m') :
      Moves m (.call caller op) (m'.start caller op)
  | expire {caller : Caller ι} {ref : SlotRef} {refs : List SlotRef} {rest : List (Frame σ ι)}
      (hstack : m.stack = .finishing caller (ref :: refs) :: rest) :
      Moves m (.expire caller ref)
        ({ m with stack := .finishing caller refs :: rest }.finish ref (.error .timedOut))
  | settle {f : Frame σ ι} {rest : List (Frame σ ι)} (hstack : m.stack = f :: rest)
      (hpending : f.pending = []) (events : List (Event ι))
      (hevents : ∀ event ∈ events, ∃ caller outcome, event = .returned caller outcome) :
      Moves m .settle ⟨m.registry, rest, events ++ m.events⟩

/-- Every step is the move of the topmost frame. -/
theorem moves_of_step {m m' : Machine σ ι} {f : Frame σ ι} {rest : List (Frame σ ι)}
    (hstack : m.stack = f :: rest) (hstep : m.step = some m') : m.Moves f.move m' := by
  unfold step at hstep
  rw [hstack] at hstep
  rcases f with ⟨label, i, _ | ⟨action, next⟩ | ⟨s, program, next⟩⟩ | ⟨caller, outcome⟩ |
    ⟨caller, _ | ⟨ref, refs⟩⟩
  · obtain rfl := Option.some.inj hstep
    exact .settle hstack rfl [] (by simp)
  · obtain rfl := Option.some.inj hstep
    exact .call (.act hstack)
  · obtain rfl := Option.some.inj hstep
    exact .call (.register hstack)
  · obtain rfl := Option.some.inj hstep
    exact .settle hstack rfl [_] (by simp)
  · obtain rfl := Option.some.inj hstep
    exact .settle hstack rfl [_] (by simp)
  · obtain rfl := Option.some.inj hstep
    exact .expire hstack

/-- What holds of a machine at rest with the registry, and is preserved by every move, holds after
every run. -/
theorem Run.induct {r : Registry σ ι} {P : List (Step σ ι) → Machine σ ι → Prop}
    {steps : List (Step σ ι)} {m : Machine σ ι} (h : Run r steps m) (start : P [] ⟨r, [], []⟩)
    (move : ∀ steps m v m', P steps m → m.Moves v m' → P (steps ++ [⟨v, m, m'⟩]) m') :
    P steps m := by
  induction h with
  | start => exact start
  | call op _ hstack ih => exact move _ _ _ _ ih (.call (.host op hstack))
  | step _ hstack hstep ih => exact move _ _ _ _ ih (moves_of_step hstack hstep)

omit [Link σ] in
theorem Calls.eq {m m' : Machine σ ι} {caller : Caller ι} {op : Operation σ ι}
    (h : m.Calls caller op m') :
    m'.registry = m.registry ∧ m'.events = m.events ∧ m'.pending = m.pending := by
  cases h with
  | host _ hstack => exact ⟨rfl, rfl, rfl⟩
  | act hstack => simp [pending, hstack, Frame.pending]
  | register hstack => simp [pending, hstack, Frame.pending]

/-! ## Performing operations -/

/-- The steps that a machine takes by itself, at most `n`. -/
def trace : Nat → Machine σ ι → List (Step σ ι)
  | 0, _ => []
  | n + 1, m =>
    match m.stack, m.step with
    | f :: _, some m' => ⟨f.move, m, m'⟩ :: trace n m'
    | _, _ => []

theorem step_of_stack_eq_nil {m : Machine σ ι} (h : m.stack = []) : m.step = none := by
  unfold step
  rw [h]

theorem Run.steps {r : Registry σ ι} {steps : List (Step σ ι)} {m : Machine σ ι}
    (h : Run r steps m) (n : Nat) : Run r (steps ++ m.trace n) (m.steps n) := by
  induction n generalizing steps m with
  | zero =>
    unfold trace Machine.steps
    rwa [List.append_nil]
  | succ n ih =>
    unfold trace Machine.steps
    rcases hstack : m.stack with _ | ⟨f, rest⟩
    · rw [step_of_stack_eq_nil hstack]
      simpa using h
    · cases hstep : m.step with
      | none => simpa using h
      | some m' =>
        have hnext := ih (h.step hstack hstep)
        rwa [List.append_assoc] at hnext

/-- The steps that the host makes happen with an operation. -/
def performed (m : Machine σ ι) (op : Operation σ ι) : List (Step σ ι) :=
  ⟨.call .host op, m, m.start .host op⟩ :: (m.start .host op).trace (m.start .host op).weight

/-- Performing an operation continues a run, and leaves nothing under way. -/
theorem Run.perform {r : Registry σ ι} {steps : List (Step σ ι)} {m : Machine σ ι}
    (h : Run r steps m) (hstack : m.stack = []) (op : Operation σ ι) :
    Run r (steps ++ m.performed op) (m.start .host op).run := by
  have hnext := (h.call op hstack).steps (m.start .host op).weight
  rwa [List.append_assoc] at hnext

/-! ### Events that happened before

`Registry.perform` starts without events. What it does is the same after earlier ones. -/

/-- The machine with events that happened before its own. -/
def after (m : Machine σ ι) (events : List (Event ι)) : Machine σ ι :=
  { m with events := m.events ++ events }

variable (m : Machine σ ι) (caller : Caller ι) (events : List (Event ι))

omit [Link σ]

theorem registry_after : (m.after events).registry = m.registry := rfl

theorem finish_after (ref : SlotRef) (result : Except RequestError Response) :
    (m.after events).finish ref result = (m.finish ref result).after events := by
  unfold finish after
  dsimp only
  split
  · rfl
  · split <;> rfl

theorem respond_after (key : Key) (rest : Bytes) (matched stray : Outcome) :
    (m.after events).respond caller key rest matched stray =
      (m.respond caller key rest matched stray).after events := by
  unfold respond
  rw [registry_after]
  cases m.registry.terminate? key .completed with
  | none => rfl
  | some p => exact finish_after ({ m with registry := p.2 }.push _) events _ _

theorem inbound_after (eid : EndpointId) (msg : Bytes) :
    (m.after events).inbound caller eid msg = (m.inbound caller eid msg).after events := by
  unfold inbound
  split
  · rfl
  · split
    · rfl
    · exact respond_after ..

theorem cancel_after (key : Key) :
    (m.after events).cancel caller key = (m.cancel caller key).after events := by
  unfold cancel
  rw [registry_after]
  cases m.registry.terminate? key .cancelled with
  | none => rfl
  | some p => exact finish_after ({ m with registry := p.2 }.push _) events _ _

variable [Link σ]

theorem start_after (op : Operation σ ι) :
    (m.after events).start caller op = (m.start caller op).after events := by
  cases op with
  | register submission program => simp [start, register, answer, record, after]
  | act action =>
    cases action with
    | respond key rest => exact respond_after ..
    | inbound eid msg => exact inbound_after ..
    | cancel key => exact cancel_after ..
    | update now => simp [start, act, update, push, record, after]
    | _ => rfl

theorem step_after : (m.after events).step = m.step.map fun m' => m'.after events := by
  obtain ⟨registry, stack, before⟩ := m
  rcases stack with _ | ⟨f, rest⟩
  · rfl
  · rcases f with ⟨label, i, _ | ⟨action, next⟩ | ⟨s, program, next⟩⟩ | ⟨caller, outcome⟩ |
      ⟨caller, _ | ⟨ref, refs⟩⟩
    · rfl
    · exact congrArg some (start_after ⟨registry, .running label (i + 1) next :: rest, before⟩ _ _
        (.act action))
    · exact congrArg some (start_after ⟨registry, .running label (i + 1) next :: rest, before⟩ _ _
        (.register s program))
    · rfl
    · rfl
    · exact congrArg some (finish_after ⟨registry, .finishing caller refs :: rest, before⟩ ..)

theorem steps_after (n : Nat) : (m.after events).steps n = (m.steps n).after events := by
  induction n generalizing m with
  | zero => rfl
  | succ n ih =>
    unfold Machine.steps
    rw [step_after]
    cases m.step with
    | none => rfl
    | some m' => exact ih m'

/-- What the host makes happen at rest is what performing the operation reports. -/
theorem run_start_host (hstack : m.stack = []) (op : Operation σ ι) :
    (m.start .host op).run.registry = (m.registry.perform op).registry ∧
      (m.start .host op).run.events = (m.registry.perform op).events.reverse ++ m.events := by
  have hm : m = (⟨m.registry, [], []⟩ : Machine σ ι).after m.events := by
    rw [← hstack]
    rfl
  have hrun : (m.start .host op).run =
      ((⟨m.registry, [], []⟩ : Machine σ ι).start .host op).run.after m.events := by
    conv => left; rw [hm]
    rw [start_after]
    exact steps_after _ _ _
  rw [hrun]
  exact ⟨rfl, by simp [after, Registry.perform]⟩

end Machine

end PlatformMessaging

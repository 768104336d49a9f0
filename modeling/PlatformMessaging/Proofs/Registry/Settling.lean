import PlatformMessaging.Proofs.Registry.Ownership

/-!
# Actions without programs to run

In a registry at rest whose requests have nothing to do at their end (`Registry.Plain`), an action
only takes requests away: `Registry.Plain.perform` says that those that are left are what they were,
that every completion is that of a request that was there, with a result of the action's own or for
want of time, and that the link is used as far as looking at the timers uses it.

A requester keeps its registry like this, as its conversations take the results by themselves.
-/

namespace PlatformMessaging

open Slots

variable {σ ι : Type}

/-- Nothing is left to do when the frame is on top, except to finish requests. -/
def Frame.Plain : Frame σ ι → Prop
  | .running _ _ program => program = .done
  | _ => True

instance (program? : Option (Program σ ι)) : Decidable (program? = some .done) :=
  match program? with
  | none => isFalse (by simp)
  | some .done => isTrue rfl
  | some (.act _ _) => isFalse (by simp)
  | some (.register _ _ _) => isFalse (by simp)

namespace Registry

/-- Nothing is under way, and no request has anything to do at its end. -/
structure Plain (r : Registry σ ι) : Prop where
  ended : ended 0 r.slots = []
  programs : ∀ e ∈ entries r.slots, e.transaction.callback = some .done

theorem Plain.coherent {r : Registry σ ι} (h : r.Plain) :
    Machine.Coherent (⟨r, [], []⟩ : Machine σ ι) := by
  refine ⟨?_, fun e he => ?_⟩
  · show ([] : List SlotRef).Perm (Slots.ended 0 r.slots)
    rw [h.ended]
  · rw [h.programs e he]
    rfl

end Registry

namespace Machine

/-- Where a machine can come to when a plain registry carries out an action: the requests are among
those of the registry, and those that completed were. -/
structure Settles (r : Registry σ ι) (action : Action σ) (link : σ) (m : Machine σ ι) : Prop where
  coherent : m.Coherent
  owned : r.Owned → m.registry.Owned
  plain : ∀ f ∈ m.stack, f.Plain
  link : m.registry.link = link
  entries : ∀ e ∈ entries m.registry.slots, ∃ e₀ ∈ entries r.slots, e.core = e₀.core
  completed : ∀ label key result outstanding clock,
    .completed label key result outstanding clock ∈ m.events →
      ∃ e₀ ∈ Slots.entries r.slots, e₀.label = label ∧ e₀.key = key ∧
        (result = .error .timedOut ∨ action.Answers key result)

theorem Settles.programs {r : Registry σ ι} {action : Action σ} {link : σ} {m : Machine σ ι}
    (h : Settles r action link m) (hr : r.Plain) :
    ∀ e ∈ Slots.entries m.registry.slots, e.transaction.callback = some .done := by
  intro e he
  obtain ⟨e₀, he₀, hcore⟩ := h.entries e he
  rw [(Entry.core_eq hcore).2.2.1]
  exact hr.programs e₀ he₀

theorem Settles.completes {r : Registry σ ι} {action : Action σ} {m m' : Machine σ ι} {link : σ}
    (hr : r.Plain) (h : Settles r action link m) {ref : SlotRef} {e : Entry σ ι}
    {result : Except RequestError Response} {stack : List (Frame σ ι)}
    (hcompletes : m.Completes ref e result stack m') (hcoherent : m'.Coherent)
    (howned : r.Owned → m'.registry.Owned) (hstack : ∀ f ∈ stack, f.Plain)
    (hresult : result = .error .timedOut ∨ action.Answers e.key result) :
    Settles r action link m' := by
  obtain ⟨hslots, -⟩ := Registry.slots_of_remove? hcompletes.remove
  have hperm := perm_entries_remove? hslots
  have hmem : e ∈ Slots.entries m.registry.slots := hperm.mem_iff.2 List.mem_cons_self
  refine ⟨hcoherent, howned, ?_, ?_, ?_, ?_⟩
  · obtain ⟨program, hprogram, hframes⟩ := hcompletes.program
    rw [h.programs hr e hmem] at hprogram
    obtain rfl := Option.some.inj hprogram
    rw [hframes]
    intro f hf
    rcases List.mem_cons.1 hf with rfl | hf
    · rfl
    · exact hstack f hf
  · rw [Registry.link_of_remove? hcompletes.remove]
    exact h.link
  · intro e' he'
    exact h.entries e' (hperm.mem_iff.2 (List.mem_cons_of_mem _ he'))
  · intro label key res outstanding clock hevent
    obtain ⟨n, c, hevents⟩ := hcompletes.events
    rw [hevents] at hevent
    rcases List.mem_cons.1 hevent with heq | hevent
    · obtain ⟨rfl, rfl, rfl, -, -⟩ := Event.completed.inj heq
      obtain ⟨e₀, he₀, hcore⟩ := h.entries e hmem
      obtain ⟨hlabel, hkey, -, -⟩ := Entry.core_eq hcore
      exact ⟨e₀, he₀, hlabel.symm, hkey.symm, hresult⟩
    · exact h.completed label key res outstanding clock hevent

theorem Settles.pop {r : Registry σ ι} {action : Action σ} {link : σ} {m : Machine σ ι}
    (h : Settles r action link m) {f : Frame σ ι} {rest : List (Frame σ ι)}
    (hstack : m.stack = f :: rest) (events : List (Event ι))
    (hevents : ∀ event ∈ events, ∃ caller outcome, event = .returned caller outcome)
    (hcoherent : Coherent ⟨m.registry, rest, events ++ m.events⟩) :
    Settles r action link ⟨m.registry, rest, events ++ m.events⟩ := by
  refine ⟨hcoherent, h.owned, ?_, h.link, h.entries, ?_⟩
  · intro g hg
    exact h.plain g (hstack ▸ List.mem_cons_of_mem _ hg)
  · intro label key result outstanding clock hevent
    rcases List.mem_append.1 hevent with hnew | hold
    · obtain ⟨caller, outcome, heq⟩ := hevents _ hnew
      cases heq
    · exact h.completed label key result outstanding clock hold

theorem step_of_plain [Link σ] {m m' : Machine σ ι} (hm : m.Coherent)
    (hplain : ∀ f ∈ m.stack, f.Plain) (hstep : m.step = some m') :
    m'.Coherent ∧
      ((∃ ref e stack, e.isLive = false ∧ m.Completes ref e (.error .timedOut) stack m' ∧
          ∀ f ∈ stack, f.Plain) ∨
        ∃ f rest events, m.stack = f :: rest ∧ m' = ⟨m.registry, rest, events ++ m.events⟩ ∧
          ∀ event ∈ events, ∃ caller outcome, event = .returned caller outcome) := by
  rcases hstack : m.stack with _ | ⟨f, rest⟩
  · rw [step_of_stack_eq_nil hstack] at hstep
    cases hstep
  · have hf : f.Plain := hplain f (hstack ▸ List.mem_cons_self)
    have hmoves := moves_of_step hstack hstep
    obtain ⟨hcoherent, -⟩ := hmoves.preserves hm
    refine ⟨hcoherent, ?_⟩
    generalize hmove : f.move = move at hmoves
    cases hmoves with
    | call hcalls =>
      exfalso
      cases hcalls with
      | host _ hnil =>
        rw [hstack] at hnil
        cases hnil
      | act hrunning =>
        rw [hstack] at hrunning
        obtain ⟨rfl, -⟩ := List.cons.inj hrunning
        cases hf
      | register hrunning =>
        rw [hstack] at hrunning
        obtain ⟨rfl, -⟩ := List.cons.inj hrunning
        cases hf
    | @expire caller ref refs rest' hfinishing =>
      obtain ⟨e, hlive, hcompletes⟩ := completes_expire hm hfinishing
      refine .inl ⟨ref, e, _, hlive, hcompletes, ?_⟩
      intro g hg
      rcases List.mem_cons.1 hg with rfl | hg
      · trivial
      · exact hplain g (hfinishing ▸ List.mem_cons_of_mem _ hg)
    | settle htop hpending events hevents =>
      exact .inr ⟨_, _, events, hstack.symm.trans htop, rfl, hevents⟩

theorem Settles.step [Link σ] {r : Registry σ ι} {action : Action σ} {link : σ} (hr : r.Plain)
    {m m' : Machine σ ι} (h : Settles r action link m) (hstep : m.step = some m') :
    Settles r action link m' := by
  obtain ⟨hcoherent, ⟨ref, e, stack, -, hcompletes, hstack⟩ | ⟨f, rest, events, htop, rfl, hevents⟩⟩ :=
    step_of_plain h.coherent h.plain hstep
  · exact h.completes hr hcompletes hcoherent (fun hr => (h.owned hr).remove? hcompletes.remove)
      hstack (.inl rfl)
  · exact h.pop htop events hevents hcoherent

/-! ## Running to the end -/

theorem steps_eq_steps [Link σ] {m : Machine σ ι} {n k : Nat} (hn : m.weight ≤ n)
    (hk : m.weight ≤ k) : m.steps n = m.steps k := by
  induction n generalizing m k with
  | zero =>
    cases hs : m.step with
    | none =>
      cases k with
      | zero => rfl
      | succ k => simp only [Machine.steps, hs]
    | some m' => exact absurd (weight_step_lt hs) (by omega)
  | succ n ih =>
    cases hs : m.step with
    | none =>
      cases k with
      | zero => simp only [Machine.steps, hs]
      | succ k => simp only [Machine.steps, hs]
    | some m' =>
      have hlt := weight_step_lt hs
      cases k with
      | zero => exact absurd hlt (by omega)
      | succ k =>
        simp only [Machine.steps, hs]
        exact ih (by omega) (by omega)

theorem run_of_step [Link σ] {m m' : Machine σ ι} (h : m.step = some m') : m.run = m'.run := by
  have hlt := weight_step_lt h
  calc m.run
    _ = m.steps (m.weight + 1) := steps_eq_steps (Nat.le_refl _) (Nat.le_succ _)
    _ = m'.steps m.weight := by simp only [Machine.steps, h]
    _ = m'.run := steps_eq_steps (Nat.le_of_lt hlt) (Nat.le_refl _)

theorem run_of_stack_eq_nil [Link σ] {m : Machine σ ι} (h : m.stack = []) : m.run = m := by
  have hs : m.step = none := step_of_stack_eq_nil h
  unfold run
  cases m.weight with
  | zero => rfl
  | succ n => simp only [Machine.steps, hs]

theorem run_induct [Link σ] {P : Machine σ ι → Prop} {m : Machine σ ι}
    (hstep : ∀ m m', P m → m.step = some m' → P m') (h : P m) : P m.run := by
  have hsteps : ∀ n m, P m → P (m.steps n) := by
    intro n
    induction n with
    | zero => exact fun m h => h
    | succ n ih =>
      intro m h
      unfold Machine.steps
      cases hm : m.step with
      | none => exact h
      | some m' => exact ih m' (hstep m m' h hm)
  exact hsteps m.weight m h

theorem settles_start [Link σ] {r : Registry σ ι} (hr : r.Plain) {action : Action σ}
    (hkeeps : action.keepsIds = true) :
    Settles r action (Machine.start ⟨r, [], []⟩ .host (.act action)).registry.link
      (Machine.start ⟨r, [], []⟩ .host (.act action)) := by
  have hacts : Acts ⟨r, [], []⟩ .host action (Machine.start ⟨r, [], []⟩ .host (.act action)) :=
    act_cases hr.coherent.programs .host action
  have hcoherent := (hacts.preserves hr.coherent).1
  have howned : r.Owned → (Machine.start ⟨r, [], []⟩ .host (.act action)).registry.Owned :=
    fun h => hacts.owned h hkeeps
  generalize Machine.start ⟨r, [], []⟩ .host (.act action) = m at *
  have hinit : Settles r action r.link ⟨r, [], []⟩ :=
    ⟨hr.coherent, fun h => h, by simp, rfl, fun e he => ⟨e, he, rfl⟩, by simp⟩
  cases hacts with
  | completes ref e result outcome hlive hanswers h =>
    have hlink : m.registry.link = r.link := Registry.link_of_remove? h.remove
    rw [hlink]
    refine hinit.completes hr h hcoherent howned ?_ (.inr hanswers)
    intro f hf
    obtain rfl := List.mem_singleton.1 hf
    trivial
  | update now =>
    have h := sweeps_update (⟨r, [], []⟩ : Machine σ ι) .host now
    refine ⟨hcoherent, howned, ?_, rfl, ?_, ?_⟩
    · obtain ⟨refs, hstack, -⟩ := h.stack
      rw [hstack]
      intro f hf
      obtain rfl := List.mem_singleton.1 hf
      trivial
    · intro e he
      have hcore := List.mem_map_of_mem (f := Entry.core) he
      rw [h.core] at hcore
      obtain ⟨e₀, he₀, heq⟩ := List.mem_map.1 hcore
      exact ⟨e₀, he₀, heq.symm⟩
    · intro label key result outstanding clock hevent
      obtain ⟨events, hevents, hquiet⟩ := h.events
      rw [hevents, List.append_nil, List.mem_reverse] at hevent
      exact (hquiet _ hevent).elim
  | quiet r' outcome h =>
    refine ⟨hcoherent, howned, by simp [answer, record], rfl, ?_, ?_⟩
    · intro e he
      have hslots : r'.slots = r.slots := h.slots
      exact ⟨e, hslots ▸ he, rfl⟩
    · intro label key result outstanding clock hevent
      cases List.mem_singleton.1 hevent

end Machine

namespace Registry

/-- What is left after an action was there before, and what completed was there and has a result of
the action's, or none in time. -/
theorem Plain.perform [Link σ] {r : Registry σ ι} (hr : r.Plain) {action : Action σ}
    (hkeeps : action.keepsIds = true) :
    (r.perform (.act action)).registry.Plain ∧
    (r.Owned → (r.perform (.act action)).registry.Owned) ∧
    (r.perform (.act action)).registry.link =
      (Machine.start ⟨r, [], []⟩ .host (.act action)).registry.link ∧
    (∀ e ∈ entries (r.perform (.act action)).registry.slots, ∃ e₀ ∈ entries r.slots,
      e.core = e₀.core) ∧
    ∀ label key result outstanding clock,
      .completed label key result outstanding clock ∈ (r.perform (.act action)).events →
        ∃ e₀ ∈ entries r.slots, e₀.label = label ∧ e₀.key = key ∧
          (result = .error .timedOut ∨ action.Answers key result) := by
  have h := Machine.run_induct (fun m m' => Machine.Settles.step hr)
    (Machine.settles_start hr hkeeps)
  refine ⟨⟨?_, h.programs hr⟩, h.owned, h.link, h.entries, ?_⟩
  · exact h.coherent.ended_eq_nil (Machine.stack_run _)
  · intro label key result outstanding clock hevent
    exact h.completed label key result outstanding clock (List.mem_reverse.1 hevent)

theorem Plain.perform_delivers [Link σ] {r : Registry σ ι} (hr : r.Plain) {action : Action σ}
    {key : Key} {rest : Bytes} (hdelivers : action.Delivers key rest) {e : Entry σ ι}
    (he : e ∈ entries r.slots) (hlive : e.isLive = true) (hkey : e.key = key) :
    ∃ ref e' outstanding clock outcome, e'.isLive = true ∧ e'.key = key ∧
      r.remove? ref = some (e', (r.perform (.act action)).registry) ∧
      (r.perform (.act action)).events =
        [.completed e'.label e'.key (key.read rest) outstanding clock, .returned .host outcome] := by
  have hprograms : Machine.Programs (⟨r, [], []⟩ : Machine σ ι) := hr.coherent.programs
  obtain ⟨matched, stray, hact⟩ := Machine.act_of_delivers hdelivers ⟨r, [], []⟩ .host
  rcases Machine.respond_cases hprograms .host key rest matched stray with
    ⟨ref, e', hlive', hkey', hcompletes⟩ | ⟨hfind, -⟩
  · rw [← hact] at hcompletes
    have hmem : e' ∈ entries r.slots :=
      (perm_entries_remove? (slots_of_remove? hcompletes.remove).1).mem_iff.2 List.mem_cons_self
    obtain ⟨program, hprogram, hstack⟩ := hcompletes.program
    rw [hr.programs e' hmem] at hprogram
    obtain rfl := Option.some.inj hprogram
    obtain ⟨outstanding, clock, hevents⟩ := hcompletes.events
    -- What is left is the end of an empty program, and the answer.
    have hrun : (Machine.start ⟨r, [], []⟩ .host (.act action)).run =
        ⟨(Machine.act ⟨r, [], []⟩ .host action).registry, [],
          [.returned .host matched, .completed e'.label e'.key (key.read rest) outstanding clock]⟩ := by
      show (Machine.act ⟨r, [], []⟩ .host action).run = _
      generalize Machine.act ⟨r, [], []⟩ .host action = m at hstack hevents
      obtain ⟨registry, stack, events⟩ := m
      dsimp only at hstack hevents
      subst hstack hevents
      rw [Machine.run_of_step rfl, Machine.run_of_step rfl]
      exact Machine.run_of_stack_eq_nil rfl
    refine ⟨ref, e', outstanding, clock, matched, hlive', hkey', ?_, ?_⟩
    · unfold Registry.perform
      rw [hrun]
      exact hcompletes.remove
    · unfold Registry.perform
      rw [hrun]
      rfl
  · exact absurd hkey (find?_eq_none.1 hfind e he hlive)

theorem Plain.perform_stray [Link σ] {r : Registry σ ι} (hr : r.Plain) {action : Action σ} {key : Key}
    {rest : Bytes} (hdelivers : action.Delivers key rest) (hfind : find? r.slots key = none) :
    (r.perform (.act action)).registry = r.releaseStray key ∧
      ∃ outcome, (r.perform (.act action)).events = [.returned .host outcome] := by
  obtain ⟨matched, stray, hact⟩ := Machine.act_of_delivers hdelivers ⟨r, [], []⟩ .host
  rcases Machine.respond_cases hr.coherent.programs .host key rest matched stray with
    ⟨ref, e, hlive, hkey, hcompletes⟩ | ⟨-, hstray⟩
  · have hmem : e ∈ entries r.slots :=
      (perm_entries_remove? (slots_of_remove? hcompletes.remove).1).mem_iff.2 List.mem_cons_self
    exact absurd hkey (find?_eq_none.1 hfind e hmem hlive)
  · have hrun : (Machine.start ⟨r, [], []⟩ .host (.act action)).run =
        ⟨r.releaseStray key, [], [.returned .host stray]⟩ := by
      show (Machine.act ⟨r, [], []⟩ .host action).run = _
      rw [hact, hstray]
      exact Machine.run_of_stack_eq_nil rfl
    unfold Registry.perform
    rw [hrun]
    exact ⟨rfl, stray, rfl⟩

end Registry

end PlatformMessaging

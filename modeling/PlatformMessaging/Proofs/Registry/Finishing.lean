import PlatformMessaging.Proofs.Registry.Deadlines

/-!
# Finishing requests

`Machine.finish` has ways out for a reference that leads nowhere: to no slot, to a slot that was emptied
since, to an empty one, or to a request whose program was taken. `Machine.Run.finish_exact`: no run takes
any of them. Every call of `finish` finds the request that it is meant for, ended and with its program,
and completes it; every completion comes from such a call; and what an `update` marked is finished by that
`update` and by nothing else.

A response or a cancellation finishes what it has just marked. An `update` does not: its references wait on
the stack while programs run above them, which fill slots, empty others, and start `update`s of their own.
`Machine.Awaits` is the invariant of one waiting reference: the request stands in its slot as it was marked,
and the reference is on the list of its `update`, found by the frames below it. A move keeps it or finishes
the reference (`Moves.awaits`), since whatever else a move finishes is outstanding before it, or is another
reference on a list, and no two are the same (`Slots.nodup_ended`).
-/

namespace PlatformMessaging

open Slots

variable {σ ι : Type}

/-! ## Slots of ended requests -/

namespace Slots

variable {slots slots' : List (Slot σ ι)} {e : Entry σ ι} {ref : SlotRef} {g : UInt32} {i : Nat}

/-- Every ended request is referred to once. -/
theorem nodup_ended (slots : List (Slot σ ι)) (i : Nat) : (ended i slots).Nodup := by
  induction slots generalizing i with
  | nil => exact List.nodup_nil
  | cons s rest ih =>
    refine List.Nodup.append ?_ (ih (i + 1)) ?_
    · unfold Slot.endedAt
      split
      · exact List.nodup_singleton _
      · exact List.nodup_nil
    · intro ref hhead hrest
      have hindex : ref.index = i := by
        unfold Slot.endedAt at hhead
        split at hhead
        · rw [List.mem_singleton.1 hhead]
        · cases hhead
      obtain ⟨before, _, _, -, hrest, -⟩ := mem_ended.1 hrest
      rw [hrest] at hindex
      simp only at hindex
      omega

theorem getElem?_of_mem_ended (h : ref ∈ ended 0 slots) :
    ∃ e, slots[ref.index]? = some ⟨ref.generation, some e⟩ ∧ e.isLive = false := by
  obtain ⟨before, s, after, rfl, rfl, e, he, hended⟩ := mem_ended.1 h
  refine ⟨e, ?_, hended⟩
  rw [← he]
  simp

theorem remove?_of_getElem? (h : slots[ref.index]? = some ⟨ref.generation, some e⟩) :
    remove? slots ref = some (e, slots.set ref.index ⟨ref.generation + 1, none⟩) := by
  simp [remove?, h]

theorem getElem?_insert (h : slots[i]? = some ⟨g, some e⟩) (new : Entry σ ι) :
    (insert new slots)[i]? = some ⟨g, some e⟩ := by
  induction slots generalizing i with
  | nil => cases h
  | cons s rest ih =>
    unfold insert
    split
    · rename_i hs
      cases i with
      | zero =>
        obtain rfl := Option.some.inj h
        cases hs
      | succ i => exact h
    · cases i with
      | zero => exact h
      | succ i => exact ih h

theorem getElem?_remove? (h : remove? slots ref = some (e, slots')) (hi : i ≠ ref.index) :
    slots'[i]? = slots[i]? := by
  obtain ⟨before, s, after, rfl, rfl, -, rfl⟩ := remove?_eq_some.1 h
  rcases Nat.lt_or_gt_of_ne hi with hlt | hgt
  · rw [List.getElem?_append_left hlt, List.getElem?_append_left hlt]
  · obtain ⟨n, rfl⟩ := Nat.exists_eq_add_of_lt hgt
    simp [List.getElem?_append_right, Nat.add_assoc]

theorem getElem?_sweep [Link σ] (h : slots[i]? = some ⟨g, some e⟩) (hended : e.isLive = false)
    (now timeout k : Nat) (link : σ) : (sweep now timeout k slots link).slots[i]? = some ⟨g, some e⟩ := by
  induction slots generalizing i k link with
  | nil => cases h
  | cons s rest ih =>
    unfold sweep
    split
    · rename_i hs
      cases i with
      | zero =>
        obtain rfl := Option.some.inj h
        cases hs
      | succ i => exact ih h (k + 1) link
    · rename_i e' hs
      cases i with
      | zero =>
        obtain rfl := Option.some.inj h
        obtain rfl := Option.some.inj hs
        simp [Entry.visit_of_ended hended]
      | succ i => exact ih h (k + 1) _

end Slots

theorem Registry.getElem?_of_terminate? {r r' : Registry σ ι} {key : Key} {state : Transaction.State}
    {ref : SlotRef} (h : r.terminate? key state = some (ref, r')) :
    ∃ e ∈ entries r.slots, e.isLive = true ∧ r.slots[ref.index]? = some ⟨ref.generation, some e⟩ ∧
      r'.slots[ref.index]? = some ⟨ref.generation, some (e.terminate state)⟩ := by
  obtain ⟨p, hp, hr⟩ := Option.map_eq_some_iff.1 h
  obtain ⟨rfl, rfl⟩ := Prod.mk.inj hr
  obtain ⟨before, s, e, after, hslots, he, hlive, -, href, hslots'⟩ := terminate?_eq_some hp
  refine ⟨e, mem_entries.2 ⟨s, by simp [hslots], he⟩, hlive, ?_, ?_⟩
  · rw [hslots, href, ← he]
    simp
  · simp [href, hslots']

/-! ## Calls of `finish` -/

/-- The answer to an action that completed a request. -/
def Action.completion : Action σ → Outcome
  | .inbound .. => .received (.ok true)
  | _ => .matched true

/-- The references that an `update` finds out of time. -/
def Registry.expired [Link σ] (r : Registry σ ι) (now : Nat) : List SlotRef :=
  (r.setClock now).1.sweep.2.1

namespace Machine

/-- The reference means a slot that holds a request, which has ended and has its program. -/
structure Finishable (m : Machine σ ι) (ref : SlotRef) (e : Entry σ ι) : Prop where
  slot : m.registry.slots[ref.index]? = some ⟨ref.generation, some e⟩
  ended : e.transaction.state.isTerminal = true
  program : e.transaction.callback.isSome = true

/-- The move calls `finish` on the machine `m'`, for a response, for a cancellation, or for what an
`update` has found out of time. -/
inductive Finishes (m : Machine σ ι) :
    Move σ ι → Machine σ ι → SlotRef → Except RequestError Response → Prop where
  | response {caller : Caller ι} {action : Action σ} {m₀ : Machine σ ι} {key : Key} {rest : Bytes}
      {ref : SlotRef} {r : Registry σ ι} (hcalls : m.Calls caller (.act action) m₀)
      (hdelivers : action.Delivers key rest)
      (hended : m₀.registry.terminate? key .completed = some (ref, r)) :
      Finishes m (.call caller (.act action))
        ({ m₀ with registry := r }.push (.answering caller action.completion)) ref (key.read rest)
  | cancel {caller : Caller ι} {m₀ : Machine σ ι} {key : Key} {ref : SlotRef} {r : Registry σ ι}
      (hcalls : m.Calls caller (.act (.cancel key)) m₀)
      (hended : m₀.registry.terminate? key .cancelled = some (ref, r)) :
      Finishes m (.call caller (.act (.cancel key)))
        ({ m₀ with registry := r }.push (.answering caller (.matched true))) ref (.error .cancelled)
  | expire {caller : Caller ι} {ref : SlotRef} {refs : List SlotRef} {rest : List (Frame σ ι)}
      (hstack : m.stack = .finishing caller (ref :: refs) :: rest) :
      Finishes m (.expire caller ref) { m with stack := .finishing caller refs :: rest } ref
        (.error .timedOut)

variable {m m' m₁ : Machine σ ι} {ref : SlotRef} {e : Entry σ ι} {v : Move σ ι}
  {result : Except RequestError Response} {caller : Caller ι} {below : List (Frame σ ι)}

theorem Finishable.isLive (h : m.Finishable ref e) : e.isLive = false := by
  rw [Entry.isLive, h.ended]
  rfl

theorem Finishable.completes (h : m.Finishable ref e) (result : Except RequestError Response) :
    m.Completes ref e result m.stack (m.finish ref result) := by
  obtain ⟨program, hprogram⟩ := Option.isSome_iff_exists.1 h.program
  have hremove : m.registry.remove? ref = some (e, { m.registry with
      slots := m.registry.slots.set ref.index ⟨ref.generation + 1, none⟩
      ids := m.registry.ids.release e.key.eid e.key.iid }) := by
    simp [Registry.remove?, remove?_of_getElem? h.slot]
  rw [finish_of_remove? result hremove hprogram]
  exact ⟨hremove, ⟨program, hprogram, rfl⟩, ⟨_, _, rfl⟩⟩

theorem finishable_of_mem_ended (hm : m.Programs) (h : ref ∈ Slots.ended 0 m.registry.slots) :
    ∃ e, m.Finishable ref e := by
  obtain ⟨e, hslot, hended⟩ := getElem?_of_mem_ended h
  refine ⟨e, hslot, by simpa [Entry.isLive] using hended, hm e ?_⟩
  exact mem_entries.2 ⟨_, List.mem_of_getElem? hslot, rfl⟩

theorem finishable_of_terminate? {key : Key} {state : Transaction.State} {r : Registry σ ι}
    (hm : m.Programs) (hstate : state.isTerminal = true)
    (h : m.registry.terminate? key state = some (ref, r)) (f : Frame σ ι) :
    ∃ e, ({ m with registry := r }.push f).Finishable ref e := by
  obtain ⟨e, he, -, -, hslot⟩ := Registry.getElem?_of_terminate? h
  refine ⟨e.terminate state, hslot, ?_, ?_⟩
  · simpa [Entry.isLive] using e.isLive_terminate hstate
  · rw [← hm e he]
    exact congrArg Option.isSome (Transaction.callback_terminate ..)

/-- Whatever `finish` is called for can be finished. -/
theorem Finishes.finishable (hm : m.Coherent) (h : m.Finishes v m₁ ref result) :
    ∃ e, m₁.Finishable ref e := by
  cases h with
  | response hcalls _ hended => exact finishable_of_terminate? (hm.calls hcalls).programs rfl hended _
  | cancel hcalls hended => exact finishable_of_terminate? (hm.calls hcalls).programs rfl hended _
  | @expire caller _ refs rest hstack =>
    refine finishable_of_mem_ended (m := { m with stack := .finishing caller refs :: rest }) hm.programs ?_
    refine hm.pending.mem_iff.1 ?_
    unfold Machine.pending
    rw [hstack]
    exact List.mem_cons_self

theorem Calls.unique {op : Operation σ ι} {m₀ : Machine σ ι} (h : m.Calls caller op m₀)
    (h' : m.Calls caller op m₁) : m₀ = m₁ := by
  cases h with
  | host _ _ =>
    cases h'
    rfl
  | act hstack =>
    cases h' with
    | act hstack' =>
      obtain ⟨hframe, rfl⟩ := List.cons.inj (hstack.symm.trans hstack')
      cases hframe
      rfl
  | register hstack =>
    cases h' with
    | register hstack' =>
      obtain ⟨hframe, rfl⟩ := List.cons.inj (hstack.symm.trans hstack')
      cases hframe
      rfl

theorem respond_of_terminate? {key : Key} {rest : Bytes} {r : Registry σ ι}
    (h : m.registry.terminate? key .completed = some (ref, r)) (matched stray : Outcome) :
    m.respond caller key rest matched stray =
      ({ m with registry := r }.push (.answering caller matched)).finish ref (key.read rest) := by
  unfold respond
  rw [h]
  rfl

theorem Finishes.eq [Link σ] (h : m.Finishes v m₁ ref result) (hmoves : m.Moves v m') :
    m' = m₁.finish ref result := by
  cases h with
  | response hcalls hdelivers hended =>
    cases hmoves with
    | call hcalls' =>
      obtain rfl := hcalls.unique hcalls'
      cases hdelivers with
      | respond key rest => exact respond_of_terminate? hended _ _
      | inbound eid msg h rest hdecode hresponse =>
        show Machine.inbound _ _ eid msg = _
        unfold Machine.inbound
        rw [hdecode]
        dsimp only
        rw [hresponse, if_neg Bool.false_ne_true]
        exact respond_of_terminate? hended _ _
  | cancel hcalls hended =>
    cases hmoves with
    | call hcalls' =>
      obtain rfl := hcalls.unique hcalls'
      show Machine.cancel _ _ _ = _
      unfold Machine.cancel
      rw [hended]
  | expire hstack =>
    cases hmoves with
    | expire hstack' =>
      obtain ⟨hframe, rfl⟩ := List.cons.inj (hstack.symm.trans hstack')
      cases hframe
      rfl

theorem exists_terminate? {key : Key} (state : Transaction.State)
    (he : e ∈ entries m.registry.slots) (hlive : e.isLive = true) (hkey : e.key = key) :
    ∃ ref r, m.registry.terminate? key state = some (ref, r) := by
  have hfound : Slots.terminate? m.registry.slots key state ≠ none := fun hnone =>
    find?_eq_none.1 (terminate?_eq_none.1 hnone) e he hlive hkey
  obtain ⟨p, hp⟩ := Option.ne_none_iff_exists'.1 hfound
  exact ⟨p.1, { m.registry with slots := p.2 }, by simp [Registry.terminate?, hp]⟩

theorem Moves.called_or_finishes [Link σ] (hm : m.Coherent) (hmoves : m.Moves v m') :
    Step.called ⟨v, m, m'⟩ = [] ∨ ∃ m₁ ref result, m.Finishes v m₁ ref result := by
  cases hmoves with
  | @call caller op m₀ hcalls =>
    obtain ⟨hregistry, hevents, -⟩ := hcalls.eq
    cases op with
    | register submission program =>
      left
      refine Step.called_eq_nil fun event hevent => ?_
      rw [Step.events_eq _ (hevents ▸ m₀.events_register caller submission program)] at hevent
      exact isMute_of_mem_told hevent
    | act action =>
      generalize hm' : m₀.start caller (.act action) = m' at *
      have hacts : m₀.Acts caller action m' := hm' ▸ act_cases (hm.calls hcalls).programs caller action
      cases hacts with
      | completes ref e result outcome hlive hanswers h =>
        right
        have he : e ∈ entries m₀.registry.slots :=
          (perm_entries_remove? (Registry.slots_of_remove? h.remove).1).mem_iff.2 List.mem_cons_self
        cases hanswers with
        | delivers hdelivers =>
          obtain ⟨ref, r, hended⟩ := exists_terminate? .completed he hlive rfl
          exact ⟨_, _, _, .response hcalls hdelivers hended⟩
        | cancel _ =>
          obtain ⟨ref, r, hended⟩ := exists_terminate? .cancelled he hlive rfl
          exact ⟨_, _, _, .cancel hcalls hended⟩
      | update now =>
        left
        obtain ⟨told, htold, hquiet⟩ := (m₀.sweeps_update caller now).events
        refine Step.called_eq_nil fun event hevent => ?_
        rw [Step.events_eq told (hevents ▸ htold)] at hevent
        exact (hquiet event hevent).isMute
      | quiet r outcome h =>
        left
        refine Step.called_eq_nil fun event hevent => ?_
        rw [Step.events_eq [.returned caller outcome] (by simp [answer, record, hevents])] at hevent
        exact Event.isMute_of_eq (List.mem_singleton.1 hevent)
  | expire hstack => exact .inr ⟨_, _, _, .expire hstack⟩
  | settle hstack hpending events hevents =>
    left
    refine Step.called_eq_nil fun event hevent => ?_
    rw [Step.events_eq events.reverse (by simp)] at hevent
    obtain ⟨caller, outcome, heq⟩ := hevents event (List.mem_reverse.1 hevent)
    exact Event.isMute_of_eq heq

/-! ## References that wait -/

/-- Above the frames `below`, the stack has an `update` of the caller that has yet to finish a
reference. -/
def Waiting (stack : List (Frame σ ι)) (caller : Caller ι) (below : List (Frame σ ι))
    (ref : SlotRef) : Prop :=
  ∃ above left, stack = above ++ .finishing caller left :: below ∧ ref ∈ left

/-- The `update` of the caller above the frames `below` has yet to finish a request, which stands in its
slot, ended and with its program. -/
structure Awaits (m : Machine σ ι) (caller : Caller ι) (below : List (Frame σ ι)) (ref : SlotRef)
    (e : Entry σ ι) : Prop where
  request : m.Finishable ref e
  update : Waiting m.stack caller below ref

section Waiting

variable {stack : List (Frame σ ι)} {f : Frame σ ι}

theorem Waiting.push (h : Waiting stack caller below ref) (f : Frame σ ι) :
    Waiting (f :: stack) caller below ref := by
  obtain ⟨above, left, rfl, href⟩ := h
  exact ⟨f :: above, left, rfl, href⟩

theorem Waiting.tail (h : Waiting (f :: stack) caller below ref) (hf : ref ∉ f.pending) :
    Waiting stack caller below ref := by
  obtain ⟨_ | ⟨_, above⟩, left, hstack, href⟩ := h
  · obtain ⟨rfl, -⟩ := List.cons.inj hstack
    exact absurd href hf
  · obtain ⟨-, rfl⟩ := List.cons.inj hstack
    exact ⟨above, left, rfl, href⟩

theorem Waiting.mem_pending (h : Waiting stack caller below ref) :
    ref ∈ stack.flatMap Frame.pending := by
  obtain ⟨above, left, rfl, href⟩ := h
  exact List.mem_flatMap.2 ⟨.finishing caller left, by simp, href⟩

theorem Waiting.next {other : Caller ι} {next : SlotRef} {refs : List SlotRef}
    (h : Waiting (.finishing other (next :: refs) :: stack) caller below ref) (hne : ref ≠ next) :
    Waiting (.finishing other refs :: stack) caller below ref := by
  obtain ⟨_ | ⟨_, above⟩, left, hstack, href⟩ := h
  · obtain ⟨hframe, rfl⟩ := List.cons.inj hstack
    obtain ⟨rfl, rfl⟩ := Frame.finishing.inj hframe
    exact ⟨[], refs, rfl, List.mem_of_ne_of_mem hne href⟩
  · obtain ⟨-, rfl⟩ := List.cons.inj hstack
    exact ⟨.finishing other refs :: above, left, rfl, href⟩

theorem Waiting.at_turn {other : Caller ι} {refs : List SlotRef}
    (h : Waiting (.finishing other (ref :: refs) :: stack) caller below ref)
    (hnodup : ((Frame.finishing other (ref :: refs) :: stack).flatMap Frame.pending).Nodup) :
    other = caller ∧ stack = below := by
  obtain ⟨_ | ⟨_, above⟩, left, hstack, href⟩ := h
  · obtain ⟨hframe, rfl⟩ := List.cons.inj hstack
    exact ⟨(Frame.finishing.inj hframe).1, rfl⟩
  · have hbelow := Waiting.mem_pending ⟨above, left, (List.cons.inj hstack).2, href⟩
    exact absurd hbelow (List.disjoint_of_nodup_append hnodup List.mem_cons_self)

end Waiting

theorem Coherent.nodup_pending (hm : m.Coherent) : m.pending.Nodup :=
  hm.pending.nodup_iff.2 (nodup_ended _ _)

theorem Finishes.of_finishable (h : m.Finishes v m₁ ref result) (hended : m.Finishable ref e) :
    ∃ caller refs rest, v = .expire caller ref ∧ m.stack = .finishing caller (ref :: refs) :: rest := by
  have hlive : ∀ {m₀ : Machine σ ι} {key : Key} {state : Transaction.State} {r : Registry σ ι},
      m₀.registry = m.registry → m₀.registry.terminate? key state = some (ref, r) → False := by
    intro m₀ key state r hregistry hterminate
    obtain ⟨x, -, hx, hslot, -⟩ := Registry.getElem?_of_terminate? hterminate
    rw [hregistry, hended.slot] at hslot
    obtain rfl := Option.some.inj (Slot.mk.inj (Option.some.inj hslot)).2
    exact absurd hx (by simp [hended.isLive])
  cases h with
  | response hcalls _ hterminate => exact (hlive hcalls.eq.1 hterminate).elim
  | cancel hcalls hterminate => exact (hlive hcalls.eq.1 hterminate).elim
  | expire hstack => exact ⟨_, _, _, rfl, hstack⟩

/-- A request that has ended stays in its slot, as it is, until `finish` is called for it. -/
theorem Completes.finishable {r : SlotRef} {x : Entry σ ι} {stack : List (Frame σ ι)}
    (h : m.Completes r x result stack m') (hended : m.Finishable ref e) (hne : ref ≠ r) :
    m'.Finishable ref e := by
  refine ⟨?_, hended.ended, hended.program⟩
  have hremove := (Registry.slots_of_remove? h.remove).1
  rw [getElem?_remove? hremove fun hindex => hne ?_, hended.slot]
  -- Two references to a slot that have its generation are the same.
  obtain ⟨before, s, after, hsplit, rfl, -⟩ := remove?_eq_some.1 hremove
  have hslot := hended.slot
  rw [hindex, hsplit] at hslot
  simp only [List.getElem?_append_right (Nat.le_refl _), Nat.sub_self, List.getElem?_cons_zero,
    Option.some.injEq] at hslot
  obtain ⟨index, generation⟩ := ref
  obtain rfl : index = before.length := hindex
  rw [hslot]

theorem Completes.vacates {stack : List (Frame σ ι)} (h : m.Completes ref e result stack m')
    (hslot : m.registry.slots[ref.index]? = some ⟨ref.generation, some e⟩) :
    m'.registry.slots[ref.index]? = some ⟨ref.generation + 1, none⟩ := by
  have hremove := (Registry.slots_of_remove? h.remove).1
  rw [remove?_of_getElem? hslot] at hremove
  rw [← (Prod.mk.inj (Option.some.inj hremove)).2]
  exact List.getElem?_set_self (List.getElem?_eq_some_iff.1 hslot).1

theorem Finishable.of_slot (h : m.Finishable ref e)
    (hslot : m.registry.slots[ref.index]? = some ⟨ref.generation, some e⟩ →
      m'.registry.slots[ref.index]? = some ⟨ref.generation, some e⟩) : m'.Finishable ref e :=
  ⟨hslot h.slot, h.ended, h.program⟩

theorem Awaits.calls {op : Operation σ ι} {m₀ : Machine σ ι} {other : Caller ι}
    (h : m.Awaits caller below ref e) (hcalls : m.Calls other op m₀) : m₀.Awaits caller below ref e := by
  refine ⟨h.request.of_slot (by rw [hcalls.eq.1]; exact id), ?_⟩
  have hwaiting := h.update
  cases hcalls with
  | host _ _ => exact hwaiting
  | act hstack =>
    rw [hstack] at hwaiting
    exact (hwaiting.tail List.not_mem_nil).push _
  | register hstack =>
    rw [hstack] at hwaiting
    exact (hwaiting.tail List.not_mem_nil).push _

theorem Awaits.start [Link σ] {other : Caller ι} (hm : m.Programs) (h : m.Awaits caller below ref e)
    (op : Operation σ ι) : (m.start other op).Awaits caller below ref e := by
  cases op with
  | register submission program =>
    refine ⟨h.request.of_slot fun hslot => ?_, h.update⟩
    show (m.registry.register submission program).registry.slots[ref.index]? = _
    rcases (m.registry.adds_register submission program).slots with ⟨x, -, -, -, hslots⟩ | ⟨_, -, hslots⟩
    · rw [hslots]
      exact getElem?_insert hslot x
    · rwa [hslots]
  | act action =>
    generalize hm' : m.start other (.act action) = m'
    have hacts : m.Acts other action m' := hm' ▸ act_cases hm other action
    cases hacts with
    | completes r x result outcome hlive hanswers hcompletes =>
      obtain ⟨program, -, hstack⟩ := hcompletes.program
      refine ⟨hcompletes.finishable h.request ?_, ?_⟩
      · -- What is completed was outstanding.
        rintro rfl
        have hremove := (Registry.slots_of_remove? hcompletes.remove).1
        rw [remove?_of_getElem? h.request.slot] at hremove
        obtain rfl := (Prod.mk.inj (Option.some.inj hremove)).1
        exact absurd hlive (by simp [h.request.isLive])
      · rw [hstack]
        exact (h.update.push _).push _
    | update now =>
      obtain ⟨refs, hstack, -⟩ := (m.sweeps_update other now).stack
      refine ⟨h.request.of_slot fun hslot => ?_, ?_⟩
      · rw [← m.registry.slots_setClock now] at hslot
        exact getElem?_sweep hslot h.request.isLive _ _ _ _
      · rw [hstack]
        exact h.update.push _
    | quiet r outcome hquiet =>
      refine ⟨h.request.of_slot fun hslot => ?_, h.update⟩
      show r.slots[ref.index]? = _
      rwa [hquiet.slots]

/-- **A move keeps a reference that waits, or finishes it**: the `update` whose turn it is completes the
request, or the request stays as it is and `finish` is not called for it. -/
theorem Moves.awaits [Link σ] (hm : m.Coherent) (hmoves : m.Moves v m')
    (h : m.Awaits caller below ref e) :
    (v = .expire caller ref ∧ (∃ left, m.stack = .finishing caller (ref :: left) :: below) ∧
      Step.called ⟨v, m, m'⟩ = [e.name] ∧
      m'.registry.slots[ref.index]? = some ⟨ref.generation + 1, none⟩) ∨
    (m'.Awaits caller below ref e ∧ ∀ m₁ result, ¬m.Finishes v m₁ ref result) := by
  -- A request that has ended is finished by an expiry, not by what answers it.
  have hexpires : ∀ {m₁ result}, m.Finishes v m₁ ref result → ∃ other, v = .expire other ref := by
    intro m₁ result hfinishes
    obtain ⟨other, -, -, hexpire, -⟩ := hfinishes.of_finishable h.request
    exact ⟨other, hexpire⟩
  cases hmoves with
  | @call other op m₀ hcalls =>
    right
    refine ⟨(h.calls hcalls).start (hm.calls hcalls).programs op, fun m₁ result hfinishes => ?_⟩
    obtain ⟨_, hexpire⟩ := hexpires hfinishes
    cases hexpire
  | @expire other next refs rest hstack =>
    have hwaiting := h.update
    rw [hstack] at hwaiting
    -- No reference is on two lists, so the frame on top is that of the request if it names it.
    by_cases hnext : ref = next
    · left
      subst hnext
      have hnodup := hm.nodup_pending
      unfold Machine.pending at hnodup
      rw [hstack] at hnodup
      obtain ⟨rfl, rfl⟩ := hwaiting.at_turn hnodup
      have hcompletes := Finishable.completes (m := { m with stack := .finishing other refs :: rest })
        (h.request.of_slot id) (.error .timedOut)
      exact ⟨rfl, ⟨refs, hstack⟩, (hcompletes.step ⟨.expire other ref, m, _⟩ rfl rfl).2.1,
        hcompletes.vacates h.request.slot⟩
    · right
      obtain ⟨x, -, hcompletes⟩ := completes_expire hm hstack
      obtain ⟨program, -, hstack'⟩ := hcompletes.program
      refine ⟨⟨hcompletes.finishable h.request hnext, ?_⟩, fun m₁ result hfinishes => ?_⟩
      · rw [hstack']
        exact (hwaiting.next hnext).push _
      · obtain ⟨_, hexpire⟩ := hexpires hfinishes
        exact hnext (Move.expire.inj hexpire).2.symm
  | settle hstack hpending events hevents =>
    right
    have hwaiting := h.update
    rw [hstack] at hwaiting
    refine ⟨⟨h.request.of_slot id, hwaiting.tail (by simp [hpending])⟩, fun m₁ result hfinishes => ?_⟩
    cases hfinishes

/-! ## Runs -/

/-- Through these steps the request waits for its `update`, and `finish` is not called for it. -/
def Kept (steps : List (Step σ ι)) (caller : Caller ι) (below : List (Frame σ ι)) (ref : SlotRef)
    (e : Entry σ ι) : Prop :=
  ∀ s ∈ steps, s.before.Awaits caller below ref e ∧
    ∀ m₁ result, ¬s.before.Finishes s.move m₁ ref result

/-- In one of these steps the `update` of the caller above the frames `below` finishes the request, which
waited for it until then, and leaves its slot empty. -/
def Finished (steps : List (Step σ ι)) (caller : Caller ι) (below : List (Frame σ ι)) (ref : SlotRef)
    (e : Entry σ ι) : Prop :=
  ∃ earlier s later left, steps = earlier ++ s :: later ∧ Kept earlier caller below ref e ∧
    s.before.Awaits caller below ref e ∧ s.move = .expire caller ref ∧
    s.before.stack = .finishing caller (ref :: left) :: below ∧ s.called = [e.name] ∧
    s.after.registry.slots[ref.index]? = some ⟨ref.generation + 1, none⟩

/-- From where a request waits on, it waits to the end of the path or is finished on it. -/
theorem Path.awaits [Link σ] {m₀ : Machine σ ι} {steps : List (Step σ ι)} (hm₀ : m₀.Coherent)
    (h : m₀.Path steps m) (hstart : m₀.Awaits caller below ref e) :
    Finished steps caller below ref e ∨ Kept steps caller below ref e ∧ m.Awaits caller below ref e := by
  induction h with
  | refl => exact .inr ⟨fun s hs => absurd hs List.not_mem_nil, hstart⟩
  | @move steps m m' v hpath hmoves ih =>
    rcases ih with ⟨earlier, s, later, left, rfl, hfinished⟩ | ⟨hkept, hawaits⟩
    · exact .inl ⟨earlier, s, later ++ [⟨v, m, m'⟩], left, by simp, hfinished⟩
    · rcases hmoves.awaits (hpath.coherent hm₀) hawaits with
        ⟨hmove, ⟨left, hstack⟩, hcalled, hempty⟩ | ⟨hawaits', hnone⟩
      · exact .inl ⟨steps, ⟨v, m, m'⟩, [], left, rfl, hkept, hawaits, hmove, hstack, hcalled, hempty⟩
      · refine .inr ⟨fun s hs => ?_, hawaits'⟩
        rcases List.mem_append.1 hs with hs | hs
        · exact hkept s hs
        · obtain rfl := List.mem_singleton.1 hs
          exact ⟨hawaits, hnone⟩

theorem Moves.awaits_update [Link σ] {now : Nat} (hm : m.Coherent)
    (hmoves : m.Moves (.call caller (.act (.update now))) m') :
    ∃ below, m'.stack = .finishing caller (m.registry.expired now) :: below ∧
      (m.registry.expired now).Nodup ∧
      ∀ ref ∈ m.registry.expired now, ∃ e, m'.Awaits caller below ref e := by
  have hm' := (hmoves.preserves hm).1
  cases hmoves with
  | @call _ _ m₀ hcalls =>
    have hstack : (m₀.start caller (.act (.update now))).stack =
        .finishing caller (m.registry.expired now) :: m₀.stack := by
      rw [← hcalls.eq.1]
      rfl
    have hpending : ∀ ref ∈ m.registry.expired now,
        ref ∈ (m₀.start caller (.act (.update now))).pending := by
      intro ref href
      unfold Machine.pending
      rw [hstack]
      exact List.mem_append_left _ href
    refine ⟨_, hstack, ?_, fun ref href => ?_⟩
    · have hnodup := hm'.nodup_pending
      unfold Machine.pending at hnodup
      rw [hstack] at hnodup
      exact hnodup.of_append_left
    · obtain ⟨e, he⟩ := finishable_of_mem_ended hm'.programs (hm'.pending.mem_iff.1 (hpending ref href))
      exact ⟨e, he, [], _, hstack, href⟩

/-- **`finish` never looks in vain.** Over any run of a new registry, with any link and any programs:
whenever `finish` is called, its reference means a slot that there is, with its generation and a request
that has ended and still has its program, and the call completes that request; nothing is completed without
such a call. What an `update` finds out of time it refers to once each, and each of these requests waits for
it, unchanged and finished by nothing else, until that same `update` completes it; so once nothing is under
way, all of them are. -/
theorem Run.finish_exact [Link σ] {link : σ} {policy : Policy} {r : Registry σ ι}
    {warnings : List Warning} (hr : Registry.create link policy = .ok (r, warnings))
    {steps : List (Step σ ι)} {m : Machine σ ι} (h : Run r steps m) :
    (∀ s ∈ steps, ∀ m₁ ref result, s.before.Finishes s.move m₁ ref result →
      ∃ e, m₁.Finishable ref e ∧ s.after = m₁.finish ref result ∧
        m₁.Completes ref e result m₁.stack s.after) ∧
    (∀ s ∈ steps, s.called ≠ [] → ∃ m₁ ref result, s.before.Finishes s.move m₁ ref result) ∧
    ∀ earlier t later caller now, steps = earlier ++ t :: later →
      t.move = .call caller (.act (.update now)) →
      ∃ below, t.after.stack = .finishing caller (t.before.registry.expired now) :: below ∧
        (t.before.registry.expired now).Nodup ∧
        ∀ ref ∈ t.before.registry.expired now, ∃ e, t.after.Awaits caller below ref e ∧
          (Finished later caller below ref e ∨
            m.stack ≠ [] ∧ Kept later caller below ref e ∧ m.Awaits caller below ref e) := by
  have hslots : r.slots = [] := by
    rw [Registry.create_eq hr]
  have hstep : ∀ s ∈ steps, s.before.Coherent ∧ s.before.Moves s.move s.after := by
    intro s hs
    obtain ⟨earlier, later, rfl⟩ := List.append_of_mem hs
    obtain ⟨hrun, hmoves, -⟩ := h.split
    exact ⟨(hrun.balanced hslots).1, hmoves⟩
  refine ⟨fun s hs m₁ ref result hfinishes => ?_, fun s hs hcalled => ?_, ?_⟩
  · obtain ⟨hm, hmoves⟩ := hstep s hs
    obtain ⟨e, he⟩ := hfinishes.finishable hm
    have hafter := hfinishes.eq hmoves
    exact ⟨e, he, hafter, hafter ▸ he.completes result⟩
  · obtain ⟨hm, hmoves⟩ := hstep s hs
    exact (hmoves.called_or_finishes hm).resolve_left hcalled
  · rintro earlier t later caller now rfl hmove
    obtain ⟨hrun, hmoves, hpath⟩ := h.split
    have hm := (hrun.balanced hslots).1
    have hm' := (hmoves.preserves hm).1
    rw [hmove] at hmoves
    obtain ⟨below, hstack, hnodup, hawaits⟩ := hmoves.awaits_update hm
    refine ⟨below, hstack, hnodup, fun ref href => ?_⟩
    obtain ⟨e, he⟩ := hawaits ref href
    refine ⟨e, he, (hpath.awaits hm' he).imp id fun ⟨hkept, hwaits⟩ => ⟨fun hnil => ?_, hkept, hwaits⟩⟩
    obtain ⟨above, left, hframes, -⟩ := hwaits.update
    rw [hnil] at hframes
    exact absurd hframes.symm (by simp)

/-- Two requests run out of time in one `update`. The program of the first registers a request, which goes
into its slot, tries to give the second one up, and starts an `update` in which the new request runs out of
time; the second one waits meanwhile. -/
theorem Run.finish_exact_nested :
    ∃ (r : Registry Outbox Nat) (steps : List (Step Outbox Nat)) (m : Machine Outbox Nat),
      Registry.create {} {} = .ok (r, []) ∧ Run r steps m ∧ m.stack = [] ∧
      (steps.flatMap Step.called).length = 3 ∧
      ∃ earlier t later below, steps = earlier ++ t :: later ∧
        t.before.registry.expired 8000 = [⟨0, 0⟩, ⟨1, 0⟩] ∧
        ∀ ref ∈ [⟨0, 0⟩, ⟨1, 0⟩], ∃ e, Finished later .host below ref e := by
  have hr : Registry.create ({} : Outbox) {} =
      .ok ((⟨{}, {}, {}, [], 0⟩ : Registry Outbox Nat), []) := rfl
  have h₁ := (Run.start (r := (⟨{}, {}, {}, [], 0⟩ : Registry Outbox Nat))).perform rfl
    (.register ⟨9, .given 3, ⟨0, 2, []⟩, 0⟩ (.register ⟨9, .given 5, ⟨0, 2, []⟩, 2⟩ .done
      (.act (.cancel ⟨9, 4, 0, 2⟩) (.act (.update 90000) .done))))
  have h₂ := h₁.perform (stack_run _) (.register ⟨9, .given 4, ⟨0, 2, []⟩, 1⟩ .done)
  have h₃ := h₂.perform (stack_run _) (.act (.update 8000))
  obtain ⟨-, -, hupdates⟩ := h₃.finish_exact hr
  obtain ⟨below, -, -, hfinished⟩ := hupdates _ _ _ .host 8000 rfl rfl
  refine ⟨_, _, _, hr, h₃, stack_run _, by decide +kernel, _, _, _, below, rfl, by decide +kernel,
    fun ref href => ?_⟩
  have hrefs : ref = ⟨0, 0⟩ ∨ ref = ⟨1, 0⟩ := by simpa using href
  obtain ⟨e, -, hdone | ⟨hstack, -⟩⟩ := hfinished ref (by
    rcases hrefs with rfl | rfl
    · decide +kernel
    · decide +kernel)
  · exact ⟨e, hdone⟩
  · exact absurd (stack_run _) hstack

end Machine

end PlatformMessaging

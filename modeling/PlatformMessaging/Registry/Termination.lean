import PlatformMessaging.Registry.Machine

/-!
# Every operation ends

`Machine.weight_step_lt`: a step lowers the weight of a machine. A completed request moves its
program from its slot to the stack, a request that runs out of time trades the one unit that it has
for being outstanding for its place on the list of its `update`, and a registration pays for the
program that it stores with the step that held it.

Hence `Machine.step_run`: after `Machine.run` nothing is under way, whatever the programs do and
whatever clock readings they use.
-/

namespace PlatformMessaging

variable {σ ι : Type}

/-! ## The weight of slots -/

theorem Slots.weight_cons (s : Slot σ ι) (slots : List (Slot σ ι)) :
    Slots.weight (s :: slots) = s.weight + Slots.weight slots := rfl

theorem Slots.weight_set {slots : List (Slot σ ι)} {i : Nat} {s : Slot σ ι} (t : Slot σ ι)
    (h : slots[i]? = some s) :
    Slots.weight (slots.set i t) + s.weight = Slots.weight slots + t.weight := by
  induction slots generalizing i with
  | nil => simp at h
  | cons a rest ih =>
    cases i with
    | zero =>
      obtain rfl : a = s := by simpa using h
      simp only [List.set_cons_zero, Slots.weight_cons]
      omega
    | succ i =>
      have := ih (by simpa using h)
      simp only [List.set_cons_succ, Slots.weight_cons]
      omega

theorem Slots.weight_insert (e : Entry σ ι) (slots : List (Slot σ ι)) :
    Slots.weight (Slots.insert e slots) = Slots.weight slots + e.weight := by
  induction slots with
  | nil => simp [Slots.insert, Slots.weight, Slot.weight]
  | cons s rest ih =>
    unfold Slots.insert
    split
    · rename_i h
      simp [Slots.weight_cons, Slot.weight, h]
      omega
    · simp only [Slots.weight_cons, ih]
      omega

/-! ## The weight of an entry -/

theorem Entry.weight_terminate {e : Entry σ ι} {state : Transaction.State} (h : e.isLive = true)
    (hs : state.isTerminal = true) : (e.terminate state).weight + 1 = e.weight := by
  have he : e.transaction.state.isTerminal = false := by simpa [Entry.isLive] using h
  simp [Entry.weight, Entry.terminate, Transaction.terminate, Transaction.stop, Entry.isLive, he,
    hs]

theorem Transaction.poll_callback {γ : Type} [Link σ] (t : Transaction γ) (link : σ)
    (now timeout : Nat) : (t.poll link now timeout).transaction.callback = t.callback := by
  unfold Transaction.poll
  split
  · rfl
  · split <;> rfl

theorem Transaction.poll_isTerminal {γ : Type} [Link σ] (t : Transaction γ) (link : σ)
    (now timeout : Nat) :
    (t.poll link now timeout).transaction.state.isTerminal = t.state.isTerminal := by
  unfold Transaction.poll
  split
  · rfl
  · rename_i h
    split <;> simp_all [Transaction.State.isTerminal]

/-- A request that runs out of time loses the unit that it had for being outstanding. -/
theorem Entry.weight_visit [Link σ] (e : Entry σ ι) (link : σ) (now timeout : Nat) :
    (e.visit link now timeout).entry.weight +
      (if (e.visit link now timeout).expired then 1 else 0) = e.weight := by
  unfold Entry.visit
  split
  · rename_i h
    have ht : (e.terminate .timedOut).weight + 1 = e.weight := Entry.weight_terminate h rfl
    split
    · simpa using ht
    · dsimp only
      split
      · simpa using ht
      · simp [Entry.weight, Entry.isLive, Transaction.poll_callback, Transaction.poll_isTerminal]
  · simp

theorem Slots.weight_sweep [Link σ] (now timeout : Nat) (slots : List (Slot σ ι)) (i : Nat)
    (link : σ) :
    Slots.weight (Slots.sweep now timeout i slots link).slots +
      (Slots.sweep now timeout i slots link).expired.length = Slots.weight slots := by
  induction slots generalizing i link with
  | nil => rfl
  | cons s rest ih =>
    unfold Slots.sweep
    split
    · have := ih (i + 1) link
      simp only [Slots.weight_cons]
      omega
    · rename_i e he
      have hw := ih (i + 1) (e.visit link now timeout).link
      have hv := Entry.weight_visit e link now timeout
      have hs : s.weight = e.weight := by simp [Slot.weight, he]
      have hn : (⟨s.generation, some (e.visit link now timeout).entry⟩ : Slot σ ι).weight =
          (e.visit link now timeout).entry.weight := rfl
      simp only [Slots.weight_cons, hs, hn]
      split <;> rename_i hx <;> simp only [hx] at hv <;> simp at hv ⊢ <;> omega

/-! ## The weight of a registry -/

theorem Slots.weight_terminate? {slots slots' : List (Slot σ ι)} {key : Key} {ref : SlotRef}
    {state : Transaction.State} (hs : state.isTerminal = true)
    (h : Slots.terminate? slots key state = some (ref, slots')) :
    Slots.weight slots' + 1 = Slots.weight slots := by
  unfold Slots.terminate? at h
  split at h
  · cases h
  · rename_i i hi
    split at h
    · cases h
    · rename_i s hget
      obtain ⟨-, rfl⟩ := Prod.mk.inj (Option.some.inj h)
      have hlive : s.isLiveFor key = true := by
        obtain ⟨hlt, hp, -⟩ := List.findIdx?_eq_some_iff_getElem.1 hi
        have : slots[i] = s := by
          rw [List.getElem?_eq_getElem hlt] at hget
          exact Option.some.inj hget
        exact this ▸ hp
      have hset := Slots.weight_set ⟨s.generation, s.entry.map fun e => e.terminate state⟩ hget
      cases he : s.entry with
      | none => simp [Slot.isLiveFor, he] at hlive
      | some e =>
        have hl : e.isLive = true := by
          simp only [Slot.isLiveFor, he, Option.any_some, Bool.and_eq_true] at hlive
          exact hlive.1
        have ht := Entry.weight_terminate hl hs
        simp only [Slot.weight, he, Option.map_some, Option.getD_some] at hset ⊢
        omega

theorem Slots.weight_remove? {slots slots' : List (Slot σ ι)} {ref : SlotRef} {e : Entry σ ι}
    (h : Slots.remove? slots ref = some (e, slots')) :
    Slots.weight slots' + e.weight = Slots.weight slots := by
  unfold Slots.remove? at h
  split at h
  · cases h
  · rename_i s hget
    split at h
    · obtain ⟨e', he, hp⟩ := Option.map_eq_some_iff.1 h
      obtain ⟨rfl, rfl⟩ := Prod.mk.inj hp
      have hset := Slots.weight_set ⟨s.generation + 1, none⟩ hget
      simpa [Slot.weight, he] using hset
    · cases h

theorem Registry.slots_setClock (r : Registry σ ι) (now : Nat) :
    (r.setClock now).1.slots = r.slots := by
  unfold Registry.setClock
  split <;> rfl

theorem Registry.slots_releaseStray (r : Registry σ ι) (key : Key) :
    (r.releaseStray key).slots = r.slots := by
  unfold Registry.releaseStray
  split <;> rfl

theorem Registry.slots_reclaim (r : Registry σ ι) (eid : EndpointId) (iid : InstanceId)
    (result : Except RequestError Key) : (r.reclaim eid iid result).slots = r.slots := by
  unfold Registry.reclaim
  split <;> rfl

theorem Registry.weight_send_le [Link σ] (r : Registry σ ι) (eid : EndpointId) (iid : InstanceId)
    (request : Request) (label : ι) (onComplete : Program σ ι) :
    Slots.weight (r.send eid iid request label onComplete).registry.slots ≤
      Slots.weight r.slots + onComplete.weight + 1 := by
  simp only [Registry.send]
  split
  · simp only
    omega
  · split
    · simp only
      omega
    · split
      · simp only
        omega
      · rename_i msg _ t link hstart
        have ht : t.callback = some onComplete := by
          simp only [Transaction.start] at hstart
          split at hstart
          · cases hstart
          · obtain ⟨-, h⟩ := Prod.mk.inj hstart
            obtain ⟨rfl, -⟩ := Prod.mk.inj h
            rfl
        simp only [Slots.weight_insert, Entry.weight, ht, Option.map_some, Option.getD_some]
        split <;> omega

theorem Registry.weight_register_le [Link σ] (r : Registry σ ι) (s : Submission ι)
    (onComplete : Program σ ι) :
    Slots.weight (r.register s onComplete).registry.slots ≤
      Slots.weight r.slots + onComplete.weight + 1 := by
  unfold Registry.register
  split
  · exact Registry.weight_send_le ..
  · split
    · rename_i h
      obtain ⟨-, rfl⟩ := Prod.mk.inj h
      simp only
      omega
    · rename_i h
      obtain ⟨-, rfl⟩ := Prod.mk.inj h
      exact Registry.weight_send_le ..
  · split
    · rename_i h
      obtain ⟨-, rfl⟩ := Prod.mk.inj h
      simp only
      omega
    · rename_i h
      obtain ⟨-, rfl⟩ := Prod.mk.inj h
      simp only [Registry.slots_reclaim]
      exact Registry.weight_send_le ..

/-! ## The weight of a machine -/

namespace Machine

@[simp] theorem weight_record (m : Machine σ ι) (events : List (Event ι)) :
    (m.record events).weight = m.weight := rfl

@[simp] theorem weight_answer (m : Machine σ ι) (caller : Caller ι) (outcome : Outcome) :
    (m.answer caller outcome).weight = m.weight := rfl

@[simp] theorem weight_push (m : Machine σ ι) (f : Frame σ ι) :
    (m.push f).weight = m.weight + f.weight := by
  simp only [weight, push, List.foldr_cons]
  omega

theorem weight_finish_le (m : Machine σ ι) (ref : SlotRef) (result : Except RequestError Response) :
    (m.finish ref result).weight ≤ m.weight := by
  unfold finish
  split
  · exact Nat.le_refl _
  · rename_i e registry h
    obtain ⟨p, hp, he⟩ := Option.map_eq_some_iff.1 h
    obtain ⟨rfl, rfl⟩ := Prod.mk.inj he
    have hw : Slots.weight p.2 + p.1.weight = Slots.weight m.registry.slots :=
      Slots.weight_remove? hp
    simp only
    split
    · simp only [weight]
      omega
    · rename_i program hc
      have hprog : program.weight ≤ p.1.weight := by
        have : p.1.transaction.callback = some program := hc
        simp [Entry.weight, this]
      simp only [weight_push, weight_record, Frame.weight]
      simp only [weight]
      omega

theorem weight_complete_le {m : Machine σ ι} {key : Key} {state : Transaction.State} {ref : SlotRef}
    {registry : Registry σ ι} (hs : state.isTerminal = true)
    (h : m.registry.terminate? key state = some (ref, registry)) (caller : Caller ι)
    (outcome : Outcome) (result : Except RequestError Response) :
    (({ m with registry := registry }.push (.answering caller outcome)).finish ref result).weight ≤
      m.weight := by
  obtain ⟨p, hp, he⟩ := Option.map_eq_some_iff.1 h
  obtain ⟨rfl, rfl⟩ := Prod.mk.inj he
  have hw := Slots.weight_terminate? hs hp
  refine Nat.le_trans (weight_finish_le ..) ?_
  simp only [weight_push, Frame.weight]
  simp only [weight]
  omega

theorem weight_respond_le (m : Machine σ ι) (caller : Caller ι) (key : Key) (rest : Bytes)
    (matched stray : Outcome) : (m.respond caller key rest matched stray).weight ≤ m.weight := by
  unfold respond
  split
  · rw [weight_answer]
    simp [weight, Registry.slots_releaseStray]
  · rename_i h
    exact weight_complete_le rfl h ..

theorem weight_inbound_le (m : Machine σ ι) (caller : Caller ι) (eid : EndpointId) (msg : Bytes) :
    (m.inbound caller eid msg).weight ≤ m.weight := by
  unfold inbound
  split
  · simp
  · split
    · simp
    · exact weight_respond_le ..

theorem weight_cancel_le (m : Machine σ ι) (caller : Caller ι) (key : Key) :
    (m.cancel caller key).weight ≤ m.weight := by
  unfold cancel
  split
  · simp
  · rename_i h
    exact weight_complete_le rfl h ..

theorem weight_update [Link σ] (m : Machine σ ι) (caller : Caller ι) (now : Nat) :
    (m.update caller now).weight = m.weight + 1 := by
  have hw := Slots.weight_sweep (m.registry.setClock now).1.clock
    (m.registry.setClock now).1.policy.responseTimeout (m.registry.setClock now).1.slots 0
    (m.registry.setClock now).1.link
  rw [Registry.slots_setClock] at hw
  simp only [update, weight_push, weight_record, Frame.weight]
  simp only [weight, Registry.sweep, Registry.slots_setClock]
  omega

theorem weight_act_le [Link σ] (m : Machine σ ι) (caller : Caller ι) (action : Action σ) :
    (m.act caller action).weight ≤ m.weight + 1 := by
  cases action with
  | respond key rest => exact Nat.le_succ_of_le (weight_respond_le ..)
  | inbound eid msg => exact Nat.le_succ_of_le (weight_inbound_le ..)
  | cancel key => exact Nat.le_succ_of_le (weight_cancel_le ..)
  | update now => exact Nat.le_of_eq (weight_update ..)
  | _ => exact Nat.le_succ _

theorem weight_register_le [Link σ] (m : Machine σ ι) (caller : Caller ι) (s : Submission ι)
    (onComplete : Program σ ι) :
    (m.register caller s onComplete).weight ≤ m.weight + onComplete.weight + 1 := by
  have h := Registry.weight_register_le m.registry s onComplete
  simp only [register, weight_answer, weight_record]
  simp only [weight]
  omega

/-- Every step lowers the weight. -/
theorem weight_step_lt [Link σ] {m m' : Machine σ ι} (h : m.step = some m') :
    m'.weight < m.weight := by
  obtain ⟨registry, stack, events⟩ := m
  unfold step at h
  split at h
  · cases h
  · rename_i label i rest hstack
    obtain rfl := Option.some.inj h
    simp only at hstack
    subst hstack
    simp [weight, Frame.weight, Program.weight]
  · rename_i label i action next rest hstack
    obtain rfl := Option.some.inj h
    simp only at hstack
    subst hstack
    refine Nat.lt_of_le_of_lt (weight_act_le ..) ?_
    simp only [weight, List.foldr_cons, Frame.weight, Program.weight]
    omega
  · rename_i label i s onComplete next rest hstack
    obtain rfl := Option.some.inj h
    simp only at hstack
    subst hstack
    refine Nat.lt_of_le_of_lt (weight_register_le ..) ?_
    simp only [weight, List.foldr_cons, Frame.weight, Program.weight]
    omega
  · rename_i caller outcome rest hstack
    obtain rfl := Option.some.inj h
    simp only at hstack
    subst hstack
    rw [weight_answer]
    simp [weight, Frame.weight]
  · rename_i caller rest hstack
    obtain rfl := Option.some.inj h
    simp only at hstack
    subst hstack
    rw [weight_answer]
    simp [weight, Frame.weight]
  · rename_i caller ref refs rest hstack
    obtain rfl := Option.some.inj h
    simp only at hstack
    subst hstack
    refine Nat.lt_of_le_of_lt (weight_finish_le ..) ?_
    simp [weight, Frame.weight]

theorem step_steps_eq_none [Link σ] {n : Nat} {m : Machine σ ι} (h : m.weight ≤ n) :
    (m.steps n).step = none := by
  induction n generalizing m with
  | zero =>
    cases hs : m.step with
    | none => exact hs
    | some m' =>
      have := weight_step_lt hs
      omega
  | succ n ih =>
    unfold steps
    split
    · assumption
    · rename_i m' hs
      have := weight_step_lt hs
      exact ih (by omega)

/-- A machine that has run has nothing left to do. -/
theorem step_run [Link σ] (m : Machine σ ι) : m.run.step = none :=
  step_steps_eq_none (Nat.le_refl _)

theorem stack_run [Link σ] (m : Machine σ ι) : m.run.stack = [] := by
  have h := step_run m
  unfold step at h
  split at h <;> simp_all

end Machine

end PlatformMessaging

import PlatformMessaging.Registry.Termination
import Mathlib.Tactic.Common
import Mathlib.Data.List.Perm.Basic

/-!
# Requests in their slots

What each operation on slots does to the requests in them (`Slots.entries`) and to the references
to those that have ended and wait to be finished (`Slots.ended`).

A slot that an operation singles out is shown by splitting the list of slots around it, so that the
index of a reference is the length of what stands before.

* `insert` adds a request and leaves the ended ones alone (`perm_entries_insert`, `ended_insert`).
* `terminate?` finds the outstanding request of a key and nothing else (`terminate?_eq_some`,
  `terminate?_eq_none`); the reference that it gives is that of a removable entry.
* `remove?` empties exactly the slot that is meant (`remove?_eq_some`), and an ended request can
  always be removed (`exists_remove?_of_mem_ended`).
* `sweep` keeps every request in its slot and marks those that ran out of time
  (`perm_ended_sweep`).
-/

namespace PlatformMessaging

variable {σ ι : Type}

/-- What a request keeps from its registration on: its label, its key and its program. -/
def Entry.name (e : Entry σ ι) : ι × Key × Option (Program σ ι) :=
  (e.label, e.key, e.transaction.callback)

/-- What never changes about a request: its name and its message. -/
def Entry.core (e : Entry σ ι) : (ι × Key × Option (Program σ ι)) × Bytes :=
  (e.name, e.transaction.request)

theorem Entry.core_eq {e e' : Entry σ ι} (h : e.core = e'.core) :
    e.label = e'.label ∧ e.key = e'.key ∧ e.transaction.callback = e'.transaction.callback ∧
      e.transaction.request = e'.transaction.request := by
  simp only [core, name, Prod.mk.injEq] at h
  exact ⟨h.1.1, h.1.2.1, h.1.2.2, h.2⟩

/-- The reference to the slot at an index, if its request has ended. -/
def Slot.endedAt (s : Slot σ ι) (i : Nat) : List SlotRef :=
  if s.entry.any fun e => !e.isLive then [⟨i, s.generation⟩] else []

namespace Slots

/-- References to the requests that have ended and are not finished yet, in slots of which the first
has the given index. -/
def ended : Nat → List (Slot σ ι) → List SlotRef
  | _, [] => []
  | i, s :: rest => s.endedAt i ++ ended (i + 1) rest

variable {slots slots' : List (Slot σ ι)} {e : Entry σ ι} {ref : SlotRef} {key : Key} {i : Nat}

theorem entries_cons (s : Slot σ ι) (slots : List (Slot σ ι)) :
    entries (s :: slots) = s.entry.toList ++ entries slots := by
  cases h : s.entry <;> simp [entries, h]

theorem entries_append (a b : List (Slot σ ι)) : entries (a ++ b) = entries a ++ entries b :=
  List.filterMap_append

theorem ended_append (a b : List (Slot σ ι)) (i : Nat) :
    ended i (a ++ b) = ended i a ++ ended (i + a.length) b := by
  induction a generalizing i with
  | nil => simp [ended]
  | cons s a ih => simp [ended, ih, Nat.add_comm 1, Nat.add_assoc]

theorem mem_ended :
    ref ∈ ended i slots ↔ ∃ before s after, slots = before ++ s :: after ∧
      ref = ⟨i + before.length, s.generation⟩ ∧ ∃ e, s.entry = some e ∧ e.isLive = false := by
  induction slots generalizing i with
  | nil => simp [ended]
  | cons s rest ih =>
    rw [ended, List.mem_append, ih]
    constructor
    · rintro (h | ⟨before, t, after, rfl, rfl, h⟩)
      · unfold Slot.endedAt at h
        split_ifs at h with hany
        · obtain ⟨e, he, hlive⟩ := (Option.any_eq_true _ _).1 hany
          exact ⟨[], s, rest, rfl, by simpa using h, e, he, by simpa using hlive⟩
        · cases h
      · exact ⟨s :: before, t, after, rfl, by simp [Nat.add_comm 1, Nat.add_assoc], h⟩
    · rintro ⟨before, t, after, hsplit, rfl, e, he, hlive⟩
      cases before with
      | nil =>
        obtain ⟨rfl, rfl⟩ := List.cons.inj hsplit
        left
        simp [Slot.endedAt, he, hlive]
      | cons b before =>
        obtain ⟨rfl, rfl⟩ := List.cons.inj hsplit
        right
        exact ⟨before, t, after, rfl, by simp [Nat.add_comm 1, Nat.add_assoc], e, he, hlive⟩

theorem live_eq_entries (h : ended i slots = []) : live slots = entries slots := by
  refine List.filter_eq_self.2 fun e he => ?_
  obtain ⟨s, hs, hse⟩ := mem_entries.1 he
  obtain ⟨before, after, rfl⟩ := List.append_of_mem hs
  by_contra hlive
  have hmem : (⟨i + before.length, s.generation⟩ : SlotRef) ∈ ended i (before ++ s :: after) :=
    mem_ended.2 ⟨before, s, after, rfl, rfl, e, hse, by simpa using hlive⟩
  rw [h] at hmem
  cases hmem

theorem ended_of_entries_eq_nil (h : entries slots = []) (i : Nat) : ended i slots = [] := by
  apply List.eq_nil_iff_forall_not_mem.2
  intro ref href
  obtain ⟨before, s, after, hslots, -, e, hse, -⟩ := mem_ended.1 href
  have he : e ∈ entries slots := mem_entries.2 ⟨s, by simp [hslots], hse⟩
  rw [h] at he
  cases he

/-! ## Inserting -/

theorem perm_entries_insert (e : Entry σ ι) (slots : List (Slot σ ι)) :
    (entries (insert e slots)).Perm (e :: entries slots) := by
  obtain ⟨before, after, hslots, hinsert⟩ := entries_insert e slots
  rw [hslots, hinsert]
  exact List.perm_middle

theorem ended_insert (he : e.isLive = true) (slots : List (Slot σ ι)) (i : Nat) :
    ended i (insert e slots) = ended i slots := by
  induction slots generalizing i with
  | nil => simp [insert, ended, Slot.endedAt, he]
  | cons s rest ih =>
    unfold insert
    split
    · rename_i hs
      simp [ended, Slot.endedAt, hs, he]
    · simp [ended, ih]

/-! ## Removing -/

theorem remove?_eq_some :
    remove? slots ref = some (e, slots') ↔ ∃ before s after, slots = before ++ s :: after ∧
      ref = ⟨before.length, s.generation⟩ ∧ s.entry = some e ∧
      slots' = before ++ ⟨s.generation + 1, none⟩ :: after := by
  unfold remove?
  constructor
  · intro h
    split at h
    · cases h
    · rename_i s hget
      split_ifs at h with hgen
      obtain ⟨e', he, hp⟩ := Option.map_eq_some_iff.1 h
      obtain ⟨rfl, rfl⟩ := Prod.mk.inj hp
      obtain ⟨hlt, rfl⟩ := List.getElem?_eq_some_iff.1 hget
      refine ⟨slots.take ref.index, slots[ref.index], slots.drop (ref.index + 1), ?_, ?_, he, ?_⟩
      · rw [List.getElem_cons_drop, List.take_append_drop]
      · rw [List.length_take, Nat.min_eq_left (Nat.le_of_lt hlt), hgen]
      · rw [List.set_eq_take_append_cons_drop, if_pos hlt]
  · rintro ⟨before, s, after, rfl, rfl, he, rfl⟩
    simp [he]

theorem exists_remove?_of_mem_ended (h : ref ∈ ended 0 slots) :
    ∃ e slots', remove? slots ref = some (e, slots') ∧ e.isLive = false := by
  obtain ⟨before, s, after, rfl, rfl, e, he, hlive⟩ := mem_ended.1 h
  exact ⟨e, _, remove?_eq_some.2 ⟨before, s, after, rfl, by rw [Nat.zero_add], he, rfl⟩, hlive⟩

theorem perm_entries_remove? (h : remove? slots ref = some (e, slots')) :
    (entries slots).Perm (e :: entries slots') := by
  obtain ⟨before, s, after, rfl, rfl, he, rfl⟩ := remove?_eq_some.1 h
  simp only [entries_append, entries_cons, he, Option.toList]
  exact List.perm_middle

theorem perm_ended_remove? (h : remove? slots ref = some (e, slots')) :
    (ended 0 slots).Perm (if e.isLive then ended 0 slots' else ref :: ended 0 slots') := by
  obtain ⟨before, s, after, rfl, rfl, he, rfl⟩ := remove?_eq_some.1 h
  rw [ended_append, ended_append, ended, ended, Nat.zero_add]
  by_cases hlive : e.isLive = true
  · simp [Slot.endedAt, he, hlive]
  · rw [if_neg hlive]
    have hs : s.endedAt before.length = [⟨before.length, s.generation⟩] := by
      simp [Slot.endedAt, he, hlive]
    have hn : (⟨s.generation + 1, none⟩ : Slot σ ι).endedAt before.length = [] := rfl
    rw [hs, hn]
    exact List.perm_middle

/-! ## Ending the request of a key -/

theorem isLiveFor_iff {s : Slot σ ι} :
    s.isLiveFor key = true ↔ ∃ e, s.entry = some e ∧ e.isLive = true ∧ e.key = key := by
  simp [Slot.isLiveFor, Option.any_eq_true]

theorem terminate?_eq_none {state : Transaction.State} :
    terminate? slots key state = none ↔ find? slots key = none := by
  rw [find?_eq_none]
  unfold terminate?
  constructor
  · intro h e he hlive hkey
    obtain ⟨s, hs, hse⟩ := mem_entries.1 he
    split at h
    · rename_i hnone
      exact absurd (isLiveFor_iff.2 ⟨e, hse, hlive, hkey⟩) (by simpa using List.findIdx?_eq_none_iff.1 hnone s hs)
    · rename_i j hj
      obtain ⟨hlt, -, -⟩ := List.findIdx?_eq_some_iff_getElem.1 hj
      simp [List.getElem?_eq_getElem hlt] at h
  · intro h
    have hnone : slots.findIdx? (fun s => s.isLiveFor key) = none := by
      refine List.findIdx?_eq_none_iff.2 fun s hs => ?_
      rw [Bool.eq_false_iff]
      intro hfor
      obtain ⟨e, hse, hlive, hkey⟩ := isLiveFor_iff.1 hfor
      exact h e (mem_entries.2 ⟨s, hs, hse⟩) hlive hkey
    rw [hnone]

theorem terminate?_eq_some {state : Transaction.State}
    (h : terminate? slots key state = some (ref, slots')) :
    ∃ before s e after, slots = before ++ s :: after ∧ s.entry = some e ∧ e.isLive = true ∧
      e.key = key ∧ ref = ⟨before.length, s.generation⟩ ∧
      slots' = before ++ ⟨s.generation, some (e.terminate state)⟩ :: after := by
  unfold terminate? at h
  split at h
  · cases h
  · rename_i j hj
    obtain ⟨hlt, hfor, -⟩ := List.findIdx?_eq_some_iff_getElem.1 hj
    rw [List.getElem?_eq_getElem hlt] at h
    obtain ⟨e, he, hlive, hkey⟩ := isLiveFor_iff.1 hfor
    obtain ⟨rfl, rfl⟩ := Prod.mk.inj (Option.some.inj h)
    refine ⟨slots.take j, slots[j], e, slots.drop (j + 1), ?_, he, hlive, hkey, ?_, ?_⟩
    · rw [List.getElem_cons_drop, List.take_append_drop]
    · rw [List.length_take, Nat.min_eq_left (Nat.le_of_lt hlt)]
    · rw [he, List.set_eq_take_append_cons_drop, if_pos hlt]
      rfl

theorem remove?_of_terminate? {state : Transaction.State}
    (h : terminate? slots key state = some (ref, slots')) :
    ∃ e removed, e.isLive = true ∧ e.key = key ∧ remove? slots ref = some (e, removed) ∧
      remove? slots' ref = some (e.terminate state, removed) := by
  obtain ⟨before, s, e, after, rfl, he, hlive, hkey, rfl, rfl⟩ := terminate?_eq_some h
  refine ⟨e, before ++ ⟨s.generation + 1, none⟩ :: after, hlive, hkey, ?_, ?_⟩
  · exact remove?_eq_some.2 ⟨before, s, after, rfl, rfl, he, rfl⟩
  · exact remove?_eq_some.2 ⟨before, ⟨s.generation, some (e.terminate state)⟩, after, rfl, rfl, rfl,
      rfl⟩

end Slots

/-! ## Looking at the timers -/

namespace Entry

theorem key_terminate (e : Entry σ ι) (state : Transaction.State) :
    (e.terminate state).key = e.key :=
  Transaction.key_terminate e.transaction state

theorem name_terminate (e : Entry σ ι) (state : Transaction.State) :
    (e.terminate state).name = e.name := by
  simp [name, key, terminate]

theorem core_terminate (e : Entry σ ι) (state : Transaction.State) :
    (e.terminate state).core = e.core := by
  have hrequest : (e.transaction.terminate state).2.request = e.transaction.request := by
    unfold Transaction.terminate
    split <;> rfl
  rw [core, core, name_terminate]
  exact congrArg (Prod.mk e.name) hrequest

theorem isLive_terminate (e : Entry σ ι) {state : Transaction.State}
    (hs : state.isTerminal = true) : (e.terminate state).isLive = false := by
  simp only [isLive, terminate, Transaction.state_terminate, Bool.not_eq_false']
  split_ifs with h
  · exact h
  · exact hs

variable [Link σ]

theorem core_visit (e : Entry σ ι) (link : σ) (now timeout : Nat) :
    (e.visit link now timeout).entry.core = e.core := by
  have hpoll : (e.transaction.poll link now timeout).transaction.key = e.transaction.key ∧
      (e.transaction.poll link now timeout).transaction.request = e.transaction.request := by
    unfold Transaction.poll
    split
    · exact ⟨rfl, rfl⟩
    · split <;> exact ⟨rfl, rfl⟩
  unfold visit
  split_ifs with hlive hexp
  · exact e.core_terminate .timedOut
  · dsimp only
    split_ifs
    · exact e.core_terminate .timedOut
    · simp [core, name, key, hpoll, Transaction.poll_callback]
  · rfl

theorem isLive_of_expired (e : Entry σ ι) (link : σ) (now timeout : Nat)
    (h : (e.visit link now timeout).expired = true) :
    e.isLive = true ∧ (e.visit link now timeout).entry.isLive = false := by
  revert h
  unfold visit
  split_ifs with hlive hexp
  · exact fun _ => ⟨hlive, e.isLive_terminate rfl⟩
  · dsimp only
    split_ifs
    · exact fun _ => ⟨hlive, e.isLive_terminate rfl⟩
    · intro h
      cases h
  · intro h
    cases h

theorem isLive_of_not_expired (e : Entry σ ι) (link : σ) (now timeout : Nat)
    (h : (e.visit link now timeout).expired = false) :
    (e.visit link now timeout).entry.isLive = e.isLive := by
  revert h
  unfold visit
  split_ifs with hlive hexp
  · intro h
    cases h
  · dsimp only
    split_ifs
    · intro h
      cases h
    · exact fun _ => by simp [isLive, Transaction.poll_isTerminal]
  · exact fun _ => rfl

end Entry

namespace Slots

variable [Link σ] (now timeout : Nat) (slots : List (Slot σ ι)) (i : Nat) (link : σ)

theorem map_entries_sweep {β : Type} {f : Entry σ ι → β}
    (hf : ∀ e link, f (Entry.visit e link now timeout).entry = f e) :
    (entries (sweep now timeout i slots link).slots).map f = (entries slots).map f := by
  induction slots generalizing i link with
  | nil => rfl
  | cons s rest ih =>
    unfold sweep
    split
    · rename_i he
      rw [entries_cons, entries_cons, he, List.map_append, List.map_append, ih]
    · rename_i e he
      rw [entries_cons, entries_cons, he, List.map_append, List.map_append, ih]
      simp [hf]

/-- A sweep adds to the ended requests those that it finds out of time. -/
theorem perm_ended_sweep :
    (ended i (sweep now timeout i slots link).slots).Perm
      ((sweep now timeout i slots link).expired ++ ended i slots) := by
  induction slots generalizing i link with
  | nil => exact List.Perm.refl _
  | cons s rest ih =>
    unfold sweep
    split
    · rename_i he
      have hs : s.endedAt i = [] := by simp [Slot.endedAt, he]
      simpa [ended, hs] using ih (i + 1) link
    · rename_i e he
      have hrest := ih (i + 1) (e.visit link now timeout).link
      dsimp only
      rw [ended, ended]
      by_cases hexp : (e.visit link now timeout).expired = true
      · obtain ⟨hlive, hend⟩ := e.isLive_of_expired link now timeout hexp
        have hs : s.endedAt i = [] := by simp [Slot.endedAt, he, hlive]
        rw [if_pos hexp, hs]
        simpa [Slot.endedAt, hend] using hrest
      · have hexp := Bool.eq_false_iff.2 hexp
        have hlive := e.isLive_of_not_expired link now timeout hexp
        rw [if_neg (by simp [hexp])]
        have hs : (⟨s.generation, some (e.visit link now timeout).entry⟩ : Slot σ ι).endedAt i =
            s.endedAt i := by
          simp [Slot.endedAt, he, hlive]
        rw [hs]
        have hmoved := hrest.append_left (s.endedAt i)
        exact hmoved.trans (List.perm_append_comm_assoc ..)

end Slots

end PlatformMessaging

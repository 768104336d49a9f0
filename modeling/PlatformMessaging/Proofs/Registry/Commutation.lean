import PlatformMessaging.Link.Outbox
import PlatformMessaging.Proofs.Registry.Product

/-!
# Answers to different requests commute

A response, delivered by itself or as a message, and the giving up of a request are answers, and each is
an answer to one key at most. Two answers to different keys can come in either order: each returns the
same and shows the same, and what they leave is the same registry, down to the generations of its slots
and the order and search positions of its instance IDs (`answers_commute`). That holds of every registry
whose requests have nothing to do at their end.

An answer that finds its request empties the slot and gives the instance ID back, and one that finds none
gives it back if it is a response and no slot holds it (`Registry.answered`). Emptying slots for different
keys commutes since no slot has a request for both (`Slots.vacate_comm`), and so does giving back IDs,
which may also be done twice (`InstanceIds.release_comm`, `release_release`). What is left is a response
without a request whose ID is that of another one: before that one ends its ID is held and stays, and
after that it was given back already (`Registry.releaseStray_settle`).
-/

namespace PlatformMessaging

variable {σ ι : Type}

/-! ## Emptying slots -/

namespace Slots

/-- The slots with the first one emptied that holds the outstanding request of a key. -/
def vacate (key : Key) : List (Slot σ ι) → List (Slot σ ι)
  | [] => []
  | s :: rest => if s.isLiveFor key then ⟨s.generation + 1, none⟩ :: rest else s :: vacate key rest

variable {key key' : Key} {slots : List (Slot σ ι)} {e : Entry σ ι}

theorem find?_cons (s : Slot σ ι) (slots : List (Slot σ ι)) (key : Key) :
    find? (s :: slots) key = if s.isLiveFor key then s.entry else find? slots key := by
  unfold find? live Slot.isLiveFor
  rw [entries_cons]
  cases s.entry with
  | none => rfl
  | some e =>
    simp only [Option.toList_some, List.singleton_append, Option.any_some]
    by_cases hlive : e.isLive = true <;> by_cases hkey : e.key = key <;>
      simp [hlive, hkey]

theorem not_isLiveFor_both {s : Slot σ ι} (hne : key ≠ key') (h : s.isLiveFor key = true) :
    s.isLiveFor key' = false := by
  obtain ⟨e, he, -, rfl⟩ := isLiveFor_iff.1 h
  rw [Bool.eq_false_iff]
  intro h'
  obtain ⟨e', he', -, rfl⟩ := isLiveFor_iff.1 h'
  rw [he] at he'
  exact hne (congrArg Entry.key (Option.some.inj he'))

theorem find?_vacate (hne : key ≠ key') : find? (vacate key slots) key' = find? slots key' := by
  induction slots with
  | nil => rfl
  | cons s rest ih =>
    unfold vacate
    split_ifs with hs
    · rw [find?_cons, find?_cons, not_isLiveFor_both hne hs]
      rfl
    · rw [find?_cons, find?_cons, ih]

theorem vacate_comm (hne : key ≠ key') :
    vacate key' (vacate key slots) = vacate key (vacate key' slots) := by
  induction slots with
  | nil => rfl
  | cons s rest ih =>
    by_cases hs : s.isLiveFor key = true
    · have hs' := not_isLiveFor_both hne hs
      have hempty : (⟨s.generation + 1, none⟩ : Slot σ ι).isLiveFor key' = false := rfl
      simp [vacate, hs, hs', hempty]
    · by_cases hs' : s.isLiveFor key' = true
      · have hempty : (⟨s.generation + 1, none⟩ : Slot σ ι).isLiveFor key = false := rfl
        simp [vacate, hs, hs', hempty]
      · simp [vacate, hs, hs', ih]

theorem any_holds_vacate {eid : EndpointId} {iid : InstanceId}
    (hne : ¬(key.eid = eid ∧ key.iid = iid)) :
    (vacate key slots).any (fun s => s.holds eid iid) = slots.any fun s => s.holds eid iid := by
  induction slots with
  | nil => rfl
  | cons s rest ih =>
    unfold vacate
    split_ifs with hs
    · obtain ⟨e, he, -, rfl⟩ := isLiveFor_iff.1 hs
      have hholds : s.holds eid iid = false := by
        simpa [Slot.holds, he] using hne
      rw [List.any_cons, List.any_cons, hholds]
      rfl
    · rw [List.any_cons, List.any_cons, ih]

theorem exists_first (h : find? slots key = some e) :
    ∃ before s after, slots = before ++ s :: after ∧ s.entry = some e ∧ s.isLiveFor key = true ∧
      ∀ t ∈ before, t.isLiveFor key = false := by
  induction slots with
  | nil => cases h
  | cons s rest ih =>
    rw [find?_cons] at h
    split_ifs at h with hs
    · exact ⟨[], s, rest, rfl, h, hs, fun t ht => (List.not_mem_nil ht).elim⟩
    · obtain ⟨before, t, after, rfl, hentry, ht, hbefore⟩ := ih h
      refine ⟨s :: before, t, after, rfl, hentry, ht, List.forall_mem_cons.2 ⟨?_, hbefore⟩⟩
      rwa [Bool.not_eq_true] at hs

theorem vacate_of_first {before after : List (Slot σ ι)} {s : Slot σ ι}
    (hbefore : ∀ t ∈ before, t.isLiveFor key = false) (hs : s.isLiveFor key = true) :
    vacate key (before ++ s :: after) = before ++ ⟨s.generation + 1, none⟩ :: after := by
  induction before with
  | nil => exact if_pos hs
  | cons t before ih =>
    obtain ⟨ht, hbefore⟩ := List.forall_mem_cons.1 hbefore
    simp [vacate, ht, ih hbefore]

theorem remove?_of_find? (h : find? slots key = some e) (state : Transaction.State) :
    ∃ ref slots', terminate? slots key state = some (ref, slots') ∧
      remove? slots' ref = some (e.terminate state, vacate key slots) := by
  obtain ⟨before, s, after, rfl, hentry, hs, hbefore⟩ := exists_first h
  have hindex : (before ++ s :: after).findIdx? (fun t => t.isLiveFor key) = some before.length := by
    rw [List.findIdx?_append, List.findIdx?_eq_none_iff.2 hbefore, List.findIdx?_cons, hs]
    simp
  refine ⟨⟨before.length, s.generation⟩,
    before ++ ⟨s.generation, some (e.terminate state)⟩ :: after, ?_, ?_⟩
  · unfold terminate?
    simp [hindex, hentry]
  · rw [vacate_of_first hbefore hs]
    exact remove?_eq_some.2 ⟨before, _, after, rfl, rfl, rfl, rfl⟩

end Slots

/-! ## What an answer does -/

/-- A response, by itself or in a message, or the giving up of a request. -/
def Action.isAnswer : Action σ → Bool
  | .respond .. | .inbound .. | .cancel _ => true
  | _ => false

/-- What an answer returns if a request was found for it, and if not. -/
def Action.verdict (found : Bool) : Action σ → Outcome
  | .inbound _ msg =>
    match Header.decode msg with
    | .error e => .received (.error e)
    | .ok (h, _) => .received (.ok !h.request)
  | _ => .matched found

namespace Registry

open Slots

/-- Removes the outstanding request of a key. -/
def settle (r : Registry σ ι) (key : Key) : Registry σ ι :=
  { r with slots := vacate key r.slots, ids := r.ids.release key.eid key.iid }

/-- What an answer to a key leaves if no request is outstanding for it. -/
def miss (r : Registry σ ι) (key : Key) : Action σ → Registry σ ι
  | .cancel _ => r
  | _ => r.releaseStray key

/-- What an answer leaves, shows and returns if requests have nothing to do at their end. -/
def answered (r : Registry σ ι) (action : Action σ) :
    Registry σ ι × List (Sighting ι) × Outcome :=
  match action.answer? with
  | none => (r, [], action.verdict false)
  | some (key, result) =>
    match find? r.slots key with
    | none => (r.miss key action, [], action.verdict false)
    | some e => (r.settle key, [.ended e.label key result], action.verdict true)

variable {r : Registry σ ι} {key key' : Key} {e : Entry σ ι}

theorem terminate?_of_find? (h : find? r.slots key = some e) (state : Transaction.State) :
    ∃ ref r', r.terminate? key state = some (ref, r') ∧
      r'.remove? ref = some (e.terminate state, r.settle key) := by
  obtain ⟨ref, slots', hterminate, hremove⟩ := remove?_of_find? h state
  refine ⟨ref, { r with slots := slots' }, ?_, ?_⟩
  · unfold terminate?
    rw [hterminate]
    rfl
  · unfold remove?
    rw [hremove]
    obtain ⟨-, rfl⟩ := of_find?_eq_some h
    rw [Option.map_some, Entry.key_terminate]
    rfl

theorem terminate?_of_find?_eq_none (h : find? r.slots key = none) (state : Transaction.State) :
    r.terminate? key state = none := by
  unfold terminate?
  rw [terminate?_eq_none.2 h]
  rfl

theorem answered_of_answer?_eq_none {action : Action σ} (h : action.answer? = none) :
    r.answered action = (r, [], action.verdict false) := by
  unfold answered
  rw [h]

theorem answered_of_find?_eq_none {action : Action σ} {result : Except RequestError Response}
    (hanswer : action.answer? = some (key, result)) (h : find? r.slots key = none) :
    r.answered action = (r.miss key action, [], action.verdict false) := by
  unfold answered
  rw [hanswer]
  dsimp only
  rw [h]

theorem answered_of_find? {action : Action σ} {result : Except RequestError Response}
    (hanswer : action.answer? = some (key, result)) (h : find? r.slots key = some e) :
    r.answered action = (r.settle key, [.ended e.label key result], action.verdict true) := by
  unfold answered
  rw [hanswer]
  dsimp only
  rw [h]

/-! ## Performing an answer -/

section Performing

variable [Link σ]

/-- What a report tells of an answer. The number of requests still outstanding at its end is left out. -/
def Report.answer (report : Report σ ι) : Registry σ ι × List (Sighting ι) × Outcome :=
  (report.registry, sightings report.events, report.outcome)

theorem answer_perform {action : Action σ} {r' : Registry σ ι} {outcome : Outcome}
    {events : List (Event ι)}
    (h : (Machine.act ⟨r, [], []⟩ .host action).run = ⟨r', [], .returned .host outcome :: events⟩) :
    (r.perform (.act action)).answer = (r', sightings events.reverse, outcome) := by
  have hperform : r.perform (.act action) =
      ⟨outcome, (.returned .host outcome :: events).reverse, r'⟩ := by
    unfold perform
    rw [show (Machine.start ⟨r, [], []⟩ .host (.act action)).run = _ from h]
  rw [hperform, List.reverse_cons]
  show (r', sightings (events.reverse ++ [.returned .host outcome]), outcome) = _
  rw [sightings_append]
  exact congrArg (fun seen => (r', seen, outcome)) (List.append_nil _)

theorem act_of_answer? (r : Registry σ ι) {action : Action σ} {result : Except RequestError Response}
    (hanswer : action.answer? = some (key, result)) :
    ∃ state, Machine.act ⟨r, [], []⟩ .host action =
      match r.terminate? key state with
      | none => ⟨r.miss key action, [], [.returned .host (action.verdict false)]⟩
      | some (ref, r') =>
        Machine.finish ⟨r', [.answering .host (action.verdict true)], []⟩ ref result := by
  cases action with
  | respond key' rest =>
    obtain ⟨rfl, rfl⟩ := Prod.mk.inj (Option.some.inj hanswer)
    exact ⟨.completed, rfl⟩
  | inbound eid msg =>
    unfold Action.answer? at hanswer
    dsimp only at hanswer
    split at hanswer
    · cases hanswer
    · rename_i h rest hdecode
      split_ifs at hanswer with hrequest
      obtain ⟨rfl, rfl⟩ := Prod.mk.inj (Option.some.inj hanswer)
      have hverdict : ∀ found, (Action.inbound eid msg : Action σ).verdict found =
          .received (.ok true) := by
        intro found
        simp [Action.verdict, hdecode, hrequest]
      refine ⟨.completed, ?_⟩
      show Machine.inbound ⟨r, [], []⟩ .host eid msg = _
      unfold Machine.inbound
      rw [hdecode, hverdict, hverdict]
      dsimp only
      rw [if_neg hrequest]
      rfl
  | cancel key' =>
    obtain ⟨rfl, rfl⟩ := Prod.mk.inj (Option.some.inj hanswer)
    exact ⟨.cancelled, rfl⟩
  | _ => cases hanswer

theorem act_of_answer?_eq_none (r : Registry σ ι) {action : Action σ} (ha : action.isAnswer = true)
    (hanswer : action.answer? = none) :
    Machine.act ⟨r, [], []⟩ .host action = ⟨r, [], [.returned .host (action.verdict false)]⟩ := by
  cases action with
  | inbound eid msg =>
    unfold Action.answer? at hanswer
    dsimp only at hanswer
    split at hanswer
    · rename_i e hdecode
      have hverdict : (Action.inbound eid msg : Action σ).verdict false = .received (.error e) := by
        simp [Action.verdict, hdecode]
      show Machine.inbound ⟨r, [], []⟩ .host eid msg = _
      unfold Machine.inbound
      rw [hdecode, hverdict]
      rfl
    · rename_i h rest hdecode
      split_ifs at hanswer with hrequest
      have hverdict : (Action.inbound eid msg : Action σ).verdict false = .received (.ok false) := by
        simp [Action.verdict, hdecode, hrequest]
      show Machine.inbound ⟨r, [], []⟩ .host eid msg = _
      unfold Machine.inbound
      rw [hdecode, hverdict]
      dsimp only
      rw [if_pos hrequest]
      rfl
  | respond key rest => cases hanswer
  | cancel key => cases hanswer
  | _ => cases ha

theorem perform_answer (hprograms : ∀ e ∈ entries r.slots, e.transaction.callback = some .done)
    {action : Action σ} (ha : action.isAnswer = true) :
    (r.perform (.act action)).answer = r.answered action := by
  cases hanswer : action.answer? with
  | none =>
    have hrun : (Machine.act ⟨r, [], []⟩ .host action).run =
        ⟨r, [], [.returned .host (action.verdict false)]⟩ := by
      rw [r.act_of_answer?_eq_none ha hanswer]
      exact Machine.run_of_stack_eq_nil rfl
    rw [answered_of_answer?_eq_none hanswer]
    exact answer_perform hrun
  | some p =>
    obtain ⟨key, result⟩ := p
    obtain ⟨state, hact⟩ := r.act_of_answer? hanswer
    cases h : find? r.slots key with
    | none =>
      have hrun : (Machine.act ⟨r, [], []⟩ .host action).run =
          ⟨r.miss key action, [], [.returned .host (action.verdict false)]⟩ := by
        rw [hact, terminate?_of_find?_eq_none h]
        exact Machine.run_of_stack_eq_nil rfl
      rw [answered_of_find?_eq_none hanswer h]
      exact answer_perform hrun
    | some e =>
      obtain ⟨ref, r', hterminate, hremove⟩ := terminate?_of_find? h state
      obtain ⟨hlive, rfl⟩ := of_find?_eq_some h
      have hprogram : (e.terminate state).transaction.callback = some .done := by
        rw [← hprograms e (mem_live.1 hlive).1]
        exact Transaction.callback_terminate ..
      -- What is left is the end of an empty program, and the answer.
      have hrun : (Machine.act ⟨r, [], []⟩ .host action).run =
          ⟨r.settle e.key, [], [.returned .host (action.verdict true), .completed e.label e.key result
            (r.settle e.key).outstanding (r.settle e.key).clock]⟩ := by
        rw [hact, hterminate]
        dsimp only
        rw [Machine.finish_of_remove? result hremove hprogram, Machine.run_of_step rfl,
          Machine.run_of_step rfl, Machine.run_of_stack_eq_nil rfl, Entry.key_terminate]
        rfl
      rw [answered_of_find? hanswer h]
      exact answer_perform hrun

end Performing

/-! ## Two answers -/

theorem slots_miss (r : Registry σ ι) (key : Key) (action : Action σ) :
    (r.miss key action).slots = r.slots := by
  unfold miss
  split
  · rfl
  · exact slots_releaseStray r key

theorem find?_answered {action : Action σ} (h : ∀ x, action.answer? = some x → x.1 ≠ key) :
    find? (r.answered action).1.slots key = find? r.slots key := by
  cases hanswer : action.answer? with
  | none => rw [answered_of_answer?_eq_none hanswer]
  | some x =>
    obtain ⟨other, result⟩ := x
    cases hfind : find? r.slots other with
    | none => rw [answered_of_find?_eq_none hanswer hfind, slots_miss]
    | some e =>
      rw [answered_of_find? hanswer hfind]
      exact find?_vacate (h _ hanswer)

/-- An answer shows and returns the same after one to another key. -/
theorem answered_answered {a b : Action σ}
    (hkeys : ∀ x y, a.answer? = some x → b.answer? = some y → x.1 ≠ y.1) :
    ((r.answered b).1.answered a).2 = (r.answered a).2 := by
  cases ha : a.answer? with
  | none => rw [answered_of_answer?_eq_none ha, answered_of_answer?_eq_none ha]
  | some x =>
    obtain ⟨key, result⟩ := x
    have hfind : find? (r.answered b).1.slots key = find? r.slots key :=
      find?_answered fun y hy => (hkeys _ y ha hy).symm
    cases h : find? r.slots key with
    | none =>
      rw [answered_of_find?_eq_none ha h, answered_of_find?_eq_none ha (hfind.trans h)]
    | some e => rw [answered_of_find? ha h, answered_of_find? ha (hfind.trans h)]

theorem settle_comm (hne : key ≠ key') : (r.settle key).settle key' = (r.settle key').settle key := by
  unfold settle
  dsimp only
  rw [vacate_comm hne, r.ids.release_comm key.eid key'.eid key.iid key'.iid]

/-- A response without a request gives back the same ID before and after another request ends, also if
that request had it. -/
theorem releaseStray_settle (h : find? r.slots key = some e) :
    (r.settle key).releaseStray key' = (r.releaseStray key').settle key := by
  obtain ⟨hlive, rfl⟩ := of_find?_eq_some h
  by_cases hshared : e.key.eid = key'.eid ∧ e.key.iid = key'.iid
  · have hheld : (r.slots.any fun s => s.holds key'.eid key'.iid) = true := by
      obtain ⟨s, hs, hentry⟩ := mem_entries.1 (mem_live.1 hlive).1
      refine List.any_eq_true.2 ⟨s, hs, ?_⟩
      simp [Slot.holds, hentry, hshared]
    rw [show r.releaseStray key' = r from if_pos hheld]
    unfold releaseStray
    split_ifs
    · rfl
    · unfold release settle
      rw [← hshared.1, ← hshared.2, InstanceIds.release_release]
  · have hheld : (vacate e.key r.slots).any (fun s => s.holds key'.eid key'.iid) =
        r.slots.any fun s => s.holds key'.eid key'.iid := any_holds_vacate hshared
    unfold releaseStray
    show (if (vacate e.key r.slots).any _ = true then _ else _) = _
    rw [hheld]
    split_ifs
    · rfl
    · unfold release settle
      dsimp only
      rw [r.ids.release_comm]

theorem releaseStray_comm :
    (r.releaseStray key).releaseStray key' = (r.releaseStray key').releaseStray key := by
  show (if (r.releaseStray key).slots.any _ = true then _ else _) =
    if (r.releaseStray key').slots.any _ = true then _ else _
  rw [slots_releaseStray, slots_releaseStray]
  unfold releaseStray
  split_ifs
  · rfl
  · rfl
  · rfl
  · unfold release
    rw [r.ids.release_comm]

theorem miss_settle (h : find? r.slots key = some e) (action : Action σ) :
    (r.settle key).miss key' action = (r.miss key' action).settle key := by
  unfold miss
  split
  · rfl
  · exact releaseStray_settle h

theorem miss_comm (a b : Action σ) :
    (r.miss key a).miss key' b = (r.miss key' b).miss key a := by
  unfold miss
  split <;> split <;> first | rfl | exact releaseStray_comm

/-- What two answers to different keys leave does not depend on their order. -/
theorem answered_comm {a b : Action σ}
    (hkeys : ∀ x y, a.answer? = some x → b.answer? = some y → x.1 ≠ y.1) :
    ((r.answered a).1.answered b).1 = ((r.answered b).1.answered a).1 := by
  cases ha : a.answer? with
  | none => rw [answered_of_answer?_eq_none ha, answered_of_answer?_eq_none ha]
  | some x =>
    cases hb : b.answer? with
    | none => rw [answered_of_answer?_eq_none hb, answered_of_answer?_eq_none hb]
    | some y =>
      obtain ⟨key, result⟩ := x
      obtain ⟨key', result'⟩ := y
      have hne : key ≠ key' := hkeys _ _ ha hb
      have hfind : find? (r.answered b).1.slots key = find? r.slots key :=
        find?_answered fun z hz => (hkeys _ z ha hz).symm
      have hfind' : find? (r.answered a).1.slots key' = find? r.slots key' :=
        find?_answered fun z hz => hkeys z _ hz hb
      -- Either answer may find its request or not, and finds the same after the other.
      cases h : find? r.slots key with
      | none =>
        cases h' : find? r.slots key' with
        | none =>
          rw [answered_of_find?_eq_none hb (hfind'.trans h'), answered_of_find?_eq_none ha (hfind.trans h),
            answered_of_find?_eq_none ha h, answered_of_find?_eq_none hb h']
          exact miss_comm a b
        | some e' =>
          rw [answered_of_find? hb (hfind'.trans h'), answered_of_find?_eq_none ha (hfind.trans h),
            answered_of_find?_eq_none ha h, answered_of_find? hb h']
          exact (miss_settle h' a).symm
      | some e =>
        cases h' : find? r.slots key' with
        | none =>
          rw [answered_of_find?_eq_none hb (hfind'.trans h'), answered_of_find? ha (hfind.trans h),
            answered_of_find? ha h, answered_of_find?_eq_none hb h']
          exact miss_settle h b
        | some e' =>
          rw [answered_of_find? hb (hfind'.trans h'), answered_of_find? ha (hfind.trans h),
            answered_of_find? ha h, answered_of_find? hb h']
          exact settle_comm hne

theorem entries_vacate {x : Entry σ ι} (h : x ∈ entries (vacate key r.slots)) : x ∈ entries r.slots := by
  revert h
  generalize r.slots = slots
  induction slots with
  | nil => exact id
  | cons s rest ih =>
    unfold vacate
    split_ifs
    · rw [entries_cons, entries_cons]
      exact fun h => List.mem_append_right _ h
    · rw [entries_cons, entries_cons, List.mem_append, List.mem_append]
      exact Or.imp_right ih

theorem entries_answered {action : Action σ} {x : Entry σ ι}
    (h : x ∈ entries (r.answered action).1.slots) : x ∈ entries r.slots := by
  cases hanswer : action.answer? with
  | none =>
    rw [answered_of_answer?_eq_none hanswer] at h
    exact h
  | some y =>
    obtain ⟨key, result⟩ := y
    cases hfind : find? r.slots key with
    | none =>
      rw [answered_of_find?_eq_none hanswer hfind, slots_miss] at h
      exact h
    | some e =>
      rw [answered_of_find? hanswer hfind] at h
      exact entries_vacate h

/-- In a registry whose requests have nothing to do at their end, let there be two answers, each a
response, delivered by itself or as a message, or the giving up of a request, and let them not be answers
to the same key. In either order, each returns the same, and tells the same result of the same request, and
what they leave is the same registry. -/
theorem answers_commute [Link σ]
    (hprograms : ∀ e ∈ entries r.slots, e.transaction.callback = some .done) {a b : Action σ}
    (ha : a.isAnswer = true) (hb : b.isAnswer = true)
    (hkeys : ∀ x y, a.answer? = some x → b.answer? = some y → x.1 ≠ y.1) :
    ((r.perform (.act a)).registry.perform (.act b)).registry =
      ((r.perform (.act b)).registry.perform (.act a)).registry ∧
    (((r.perform (.act b)).registry.perform (.act a)).outcome = (r.perform (.act a)).outcome ∧
      sightings ((r.perform (.act b)).registry.perform (.act a)).events =
        sightings (r.perform (.act a)).events) ∧
    ((r.perform (.act a)).registry.perform (.act b)).outcome = (r.perform (.act b)).outcome ∧
      sightings ((r.perform (.act a)).registry.perform (.act b)).events =
        sightings (r.perform (.act b)).events := by
  have hafter : ∀ {a b : Action σ}, a.isAnswer = true → b.isAnswer = true →
      ((r.perform (.act a)).registry.perform (.act b)).answer = (r.answered a).1.answered b := by
    intro a b ha hb
    have hregistry : (r.perform (.act a)).registry = (r.answered a).1 :=
      congrArg Prod.fst (perform_answer hprograms ha)
    rw [hregistry]
    exact perform_answer (fun e he => hprograms e (entries_answered he)) hb
  have hshown : ∀ {a b : Action σ}, a.isAnswer = true → b.isAnswer = true →
      (∀ x y, a.answer? = some x → b.answer? = some y → x.1 ≠ y.1) →
      ((r.perform (.act b)).registry.perform (.act a)).answer.2 = (r.perform (.act a)).answer.2 := by
    intro a b ha hb hkeys
    rw [hafter hb ha, perform_answer hprograms ha, answered_answered hkeys]
  obtain ⟨hseen, houtcome⟩ := Prod.mk.inj (hshown ha hb hkeys)
  obtain ⟨hseen', houtcome'⟩ := Prod.mk.inj (hshown hb ha fun x y hx hy => (hkeys y x hy hx).symm)
  refine ⟨?_, ⟨houtcome, hseen⟩, houtcome', hseen'⟩
  calc ((r.perform (.act a)).registry.perform (.act b)).registry
    _ = ((r.answered a).1.answered b).1 := congrArg Prod.fst (hafter ha hb)
    _ = ((r.answered b).1.answered a).1 := answered_comm hkeys
    _ = ((r.perform (.act b)).registry.perform (.act a)).registry :=
      (congrArg Prod.fst (hafter hb ha)).symm

/-- Two responses under one instance ID: one is to a request but ends after the header, the other to a
command that was not requested. If the other one comes first, the ID is held and stays taken until the
request ends. -/
theorem answers_commute_shared :
    ∃ r : Registry Outbox Nat,
      r = ((⟨{}, {}, {}, [], 0⟩ : Registry Outbox Nat).perform
        (.register ⟨9, .lent, ⟨0, 2, []⟩, 0⟩ .done)).registry ∧
      ((r.perform (.act (.respond ⟨9, 0, 0, 2⟩ []))).registry.perform
          (.act (.inbound 9 [0, 0, 5, 0]))).registry =
        ((r.perform (.act (.inbound 9 [0, 0, 5, 0]))).registry.perform
          (.act (.respond ⟨9, 0, 0, 2⟩ []))).registry ∧
      sightings ((r.perform (.act (.inbound 9 [0, 0, 5, 0]))).registry.perform
          (.act (.respond ⟨9, 0, 0, 2⟩ []))).events =
        [.ended 0 ⟨9, 0, 0, 2⟩ (.error (.violation (.unreadable (.protocol .missingCompletionCode))))] ∧
      (r.perform (.act (.inbound 9 [0, 0, 5, 0]))).registry.ids.isTaken 9 0 = true ∧
      (r.perform (.act (.respond ⟨9, 0, 0, 2⟩ []))).registry.ids.isTaken 9 0 = false := by
  refine ⟨_, rfl, ?_⟩
  obtain ⟨hregistry, ⟨-, hseen⟩, -⟩ := answers_commute
    (a := .respond ⟨9, 0, 0, 2⟩ []) (b := .inbound 9 [0, 0, 5, 0])
    (r := ((⟨{}, {}, {}, [], 0⟩ : Registry Outbox Nat).perform
      (.register ⟨9, .lent, ⟨0, 2, []⟩, 0⟩ .done)).registry) (by decide +kernel) rfl rfl (by
        rintro x y hx hy
        obtain rfl := Option.some.inj hx
        obtain rfl := Option.some.inj hy
        decide)
  exact ⟨hregistry, hseen.trans (by decide +kernel), by decide +kernel, by decide +kernel⟩

end Registry

end PlatformMessaging

import PlatformMessaging.Registry.Program

/-!
# Slots

Registered requests stand in slots. A slot is emptied when its request is finished and is used
again; its generation counts how often that happened, so that a reference to an earlier request
cannot be taken for one to a later request.

An entry whose transaction has ended stays in its slot until it is finished: it is not outstanding
any more, but it still holds its instance ID.

* `Slots.insert` fills the first empty slot, or a new one.
* `Slots.terminate?` ends the outstanding request of a key, and refers to its slot.
* `Slots.sweep` looks at every timer and refers to the slots of the requests that ran out of time.
* `Slots.remove?` empties the slot that a reference means.
-/

namespace PlatformMessaging

/-- A registered request. The expiry timer is the backstop of the retry timer. -/
structure Entry (σ ι : Type) where
  label : ι
  transaction : Transaction (Program σ ι)
  expiry : Timer

/-- A place for a registered request. -/
structure Slot (σ ι : Type) where
  generation : UInt32
  entry : Option (Entry σ ι)

/-- A reference to the request in a slot. -/
structure SlotRef where
  index : Nat
  generation : UInt32
  deriving DecidableEq, Repr

variable {σ ι : Type}

namespace Entry

def key (e : Entry σ ι) : Key := e.transaction.key

/-- The request is outstanding. -/
def isLive (e : Entry σ ι) : Bool := !e.transaction.state.isTerminal

def terminate (e : Entry σ ι) (state : Transaction.State) : Entry σ ι :=
  { e with transaction := (e.transaction.terminate state).2, expiry := .idle }

def timeouts (e : Entry σ ι) (now : Nat) : List Nat :=
  (e.expiry.remaining now).toList ++ (e.transaction.remaining now).toList

/-- What a look at the timers of an entry leaves, and whether the request ran out of time. -/
structure Visit (σ ι : Type) where
  entry : Entry σ ι
  link : σ
  expired : Bool
  events : List (Event ι)

/-- What is told of a look at the retry timer: an attempt made again, and a warning if it failed. -/
def resendEvents (e : Entry σ ι) (now : Nat) (p : Transaction.Poll σ (Program σ ι)) :
    List (Event ι) :=
  p.resent.toList.map (fun answer => .attempt e.label e.key e.transaction.request answer now) ++
    p.warnings.map Event.warning

/-- Looks at the timers of an entry: the expiry first, then the retry timer. -/
def visit [Link σ] (e : Entry σ ι) (link : σ) (now timeout : Nat) : Visit σ ι :=
  if e.isLive then
    if (e.expiry.check now).1 = .expired then ⟨e.terminate .timedOut, link, true, []⟩
    else
      let p := e.transaction.poll link now timeout
      if p.progress = .exhausted then ⟨e.terminate .timedOut, p.link, true, []⟩
      else ⟨{ e with transaction := p.transaction }, p.link, false, e.resendEvents now p⟩
  else ⟨e, link, false, []⟩

end Entry

namespace Slot

def isLiveFor (s : Slot σ ι) (key : Key) : Bool :=
  s.entry.any fun e => e.isLive && e.key = key

/-- The slot holds a request, outstanding or ended, under an instance ID. -/
def holds (s : Slot σ ι) (eid : EndpointId) (iid : InstanceId) : Bool :=
  s.entry.any fun e => e.key.eid = eid && e.key.iid = iid

end Slot

namespace Slots

/-- The requests in the slots, outstanding or ended. -/
def entries (slots : List (Slot σ ι)) : List (Entry σ ι) :=
  slots.filterMap fun s => s.entry

/-- The outstanding requests. -/
def live (slots : List (Slot σ ι)) : List (Entry σ ι) :=
  (entries slots).filter fun e => e.isLive

def find? (slots : List (Slot σ ι)) (key : Key) : Option (Entry σ ι) :=
  (live slots).find? fun e => e.key = key

/-- Puts a request into the first empty slot, or into a new one. -/
def insert (e : Entry σ ι) : List (Slot σ ι) → List (Slot σ ι)
  | [] => [⟨0, some e⟩]
  | s :: rest =>
    match s.entry with
    | none => ⟨s.generation, some e⟩ :: rest
    | some _ => s :: insert e rest

/-- Ends the outstanding request of a key, and refers to its slot. -/
def terminate? (slots : List (Slot σ ι)) (key : Key) (state : Transaction.State) :
    Option (SlotRef × List (Slot σ ι)) :=
  match slots.findIdx? fun s => s.isLiveFor key with
  | none => none
  | some i =>
    match slots[i]? with
    | none => none
    | some s =>
      some (⟨i, s.generation⟩, slots.set i ⟨s.generation, s.entry.map fun e => e.terminate state⟩)

/-- Empties the slot that a reference means, unless it was emptied since. -/
def remove? (slots : List (Slot σ ι)) (ref : SlotRef) :
    Option (Entry σ ι × List (Slot σ ι)) :=
  match slots[ref.index]? with
  | none => none
  | some s =>
    if s.generation = ref.generation then
      s.entry.map fun e => (e, slots.set ref.index ⟨s.generation + 1, none⟩)
    else none

/-- What a look at all timers leaves, with references to the requests that ran out of time. -/
structure Sweep (σ ι : Type) where
  slots : List (Slot σ ι)
  link : σ
  expired : List SlotRef
  events : List (Event ι)

/-- Looks at the timers of every slot in order, the first of them having the given index. -/
def sweep [Link σ] (now timeout : Nat) : Nat → List (Slot σ ι) → σ → Sweep σ ι
  | _, [], link => ⟨[], link, [], []⟩
  | i, s :: rest, link =>
    match s.entry with
    | none =>
      let w := sweep now timeout (i + 1) rest link
      { w with slots := s :: w.slots }
    | some e =>
      let v := e.visit link now timeout
      let w := sweep now timeout (i + 1) rest v.link
      ⟨⟨s.generation, some v.entry⟩ :: w.slots, w.link,
        if v.expired then ⟨i, s.generation⟩ :: w.expired else w.expired, v.events ++ w.events⟩

/-! ## Entries -/

@[simp] theorem entries_nil : entries ([] : List (Slot σ ι)) = [] := rfl

theorem mem_entries {slots : List (Slot σ ι)} {e : Entry σ ι} :
    e ∈ entries slots ↔ ∃ s ∈ slots, s.entry = some e := by
  simp [entries]

theorem mem_live {slots : List (Slot σ ι)} {e : Entry σ ι} :
    e ∈ live slots ↔ e ∈ entries slots ∧ e.isLive = true := by
  simp [live]

theorem entries_insert (e : Entry σ ι) (slots : List (Slot σ ι)) :
    ∃ before after, entries slots = before ++ after ∧
      entries (insert e slots) = before ++ e :: after := by
  induction slots with
  | nil => exact ⟨[], [], rfl, rfl⟩
  | cons s rest ih =>
    unfold insert
    cases h : s.entry with
    | none =>
      refine ⟨[], entries rest, ?_, ?_⟩
      · simp [entries, h]
      · simp [entries]
    | some x =>
      obtain ⟨before, after, hrest, hins⟩ := ih
      refine ⟨x :: before, after, ?_, ?_⟩
      · simpa [entries, h] using hrest
      · simpa [entries, h] using hins

theorem find?_eq_none {slots : List (Slot σ ι)} {key : Key} :
    find? slots key = none ↔ ∀ e ∈ entries slots, e.isLive = true → e.key ≠ key := by
  simp only [find?, List.find?_eq_none, mem_live, decide_eq_true_eq, and_imp, ne_eq]

theorem find?_eq_none_iff_live {slots : List (Slot σ ι)} {key : Key} :
    find? slots key = none ↔ ∀ e ∈ live slots, e.key ≠ key := by
  simp only [find?_eq_none, mem_live, and_imp]

theorem of_find?_eq_some {slots : List (Slot σ ι)} {key : Key} {e : Entry σ ι}
    (h : find? slots key = some e) : e ∈ live slots ∧ e.key = key :=
  ⟨List.mem_of_find?_eq_some h, by simpa using List.find?_some h⟩

end Slots

end PlatformMessaging

import PlatformMessaging.Proofs.Requester.Accounts

/-!
# Diaries of sessions

A session whose calls are numbered as they are started, with a `Diary` of what has become of them:
the tickets that each was given, the ends of requests, and what each poll told. What comes in, what
the link does and when the timers run is left open (`Turn`).

The session is seen by the number of a call only (`Session.conversation?`): polling or dropping a call
changes its own conversation and no other (`poll_eq`, `drop_eq`).
-/

namespace PlatformMessaging

open Slots

variable {κ σ ι α β : Type}

/-! ## One conversation of a session -/

namespace Session

def conversation? (s : Session σ ι Nat α) (n : Nat) : Option (Conversation α) :=
  s.conversations.lookup n

/-- Puts a conversation in the place of that of a call, or removes that. -/
def put (conversations : List (Nat × Conversation α)) (n : Nat) (c? : Option (Conversation α)) :
    List (Nat × Conversation α) :=
  conversations.filterMap fun p => if p.1 = n then c?.map fun c => (n, c) else some p

variable {conversations : List (Nat × Conversation α)} {n m : Nat} {c? : Option (Conversation α)}

theorem put_of_notMem (h : n ∉ conversations.map Prod.fst) : put conversations n c? = conversations := by
  unfold put
  refine (List.filterMap_congr fun p hp => if_neg ?_).trans List.filterMap_some
  rintro rfl
  exact h (List.mem_map_of_mem hp)

theorem put_cons (p : Nat × Conversation α) :
    put (p :: conversations) n c? =
      (if p.1 = n then (c?.map fun c => (n, c)).toList else [p]) ++ put conversations n c? := by
  unfold put
  rw [List.filterMap_cons]
  by_cases hp : p.1 = n
  · rw [if_pos hp, if_pos hp]
    cases c? <;> rfl
  · rw [if_neg hp, if_neg hp]
    rfl

theorem names_put_sublist :
    ((put conversations n c?).map Prod.fst).Sublist (conversations.map Prod.fst) := by
  induction conversations with
  | nil => exact .slnil
  | cons p rest ih =>
    rw [put_cons]
    by_cases hp : p.1 = n
    · rw [if_pos hp]
      cases c? with
      | none => exact ih.cons _
      | some c => exact hp ▸ ih.cons_cons _
    · rw [if_neg hp]
      exact ih.cons_cons _

theorem lookup_put_of_ne (h : m ≠ n) :
    (put conversations n c?).lookup m = conversations.lookup m := by
  induction conversations with
  | nil => rfl
  | cons p rest ih =>
    rw [put_cons]
    by_cases hp : p.1 = n
    · have hskip : (p :: rest).lookup m = rest.lookup m := by
        rw [List.lookup_cons, beq_eq_false_iff_ne.2 (hp ▸ h)]
      rw [if_pos hp, hskip, ← ih]
      cases c? with
      | none => rfl
      | some c =>
        show ((n, c) :: put rest n (some c)).lookup m = _
        rw [List.lookup_cons, beq_eq_false_iff_ne.2 h]
    · rw [if_neg hp, List.singleton_append, List.lookup_cons, List.lookup_cons, ih]

theorem lookup_put_self (hnames : (conversations.map Prod.fst).Nodup)
    (h : n ∈ conversations.map Prod.fst) : (put conversations n c?).lookup n = c? := by
  induction conversations with
  | nil => cases h
  | cons p rest ih =>
    obtain ⟨hnot, hrest⟩ := List.nodup_cons.1 hnames
    rw [put_cons]
    by_cases hp : p.1 = n
    · have hn : n ∉ rest.map Prod.fst := hp ▸ hnot
      rw [if_pos hp, put_of_notMem hn]
      cases c? with
      | none => exact lookup_eq_none.2 hn
      | some c => exact List.lookup_cons_self
    · have hmem : n ∈ rest.map Prod.fst := (List.mem_cons.1 h).resolve_left (Ne.symm hp)
      rw [if_neg hp, List.singleton_append, List.lookup_cons, beq_eq_false_iff_ne.2 (Ne.symm hp)]
      exact ih hrest hmem

theorem lookup_put (hnames : (conversations.map Prod.fst).Nodup) {c : Conversation α}
    (hc : conversations.lookup n = some c) (m : Nat) :
    (put conversations n c?).lookup m = if m = n then c? else conversations.lookup m := by
  split_ifs with hm
  · subst hm
    exact lookup_put_self hnames (List.mem_map_of_mem (mem_of_lookup hc))
  · exact lookup_put_of_ne hm

theorem pollEach_eq [Link σ] (h : (conversations.map Prod.fst).Nodup) (q : Requester σ ι) :
    pollEach (fun m => m = n) conversations q =
      match conversations.lookup n with
      | none => ([], ⟨q, conversations⟩)
      | some c => ([(n, (q.poll c).1.getRight?)],
          ⟨(q.poll c).2, put conversations n (q.poll c).1.getLeft?⟩) := by
  induction conversations generalizing q with
  | nil => rfl
  | cons p rest ih =>
    obtain ⟨m, c⟩ := p
    obtain ⟨hnot, hrest⟩ := List.nodup_cons.1 h
    unfold pollEach
    by_cases hm : m = n
    · subst hm
      have hnone : rest.lookup m = none := lookup_eq_none.2 hnot
      -- Names are different, so that nothing is polled after the first conversation of the name.
      have hskip : ∀ q : Requester σ ι, pollEach (fun k => k = m) rest q = ([], ⟨q, rest⟩) := by
        intro q
        rw [ih hrest, hnone]
      rw [if_pos (by simp), List.lookup_cons_self]
      dsimp only
      rw [put_cons, if_pos rfl, put_of_notMem hnot]
      rcases q.poll c with ⟨c' | a, q'⟩
      · dsimp only
        rw [hskip]
        rfl
      · dsimp only
        rw [hskip]
        rfl
    · rw [if_neg (by simpa using hm), ih hrest, List.lookup_cons,
        beq_eq_false_iff_ne.2 (Ne.symm hm)]
      cases rest.lookup n with
      | none => rfl
      | some c' =>
        dsimp only
        rw [put_cons, if_neg hm]
        rfl

variable {s : Session σ ι Nat α}

theorem poll_eq_none [Link σ] (h : (s.conversations.map Prod.fst).Nodup)
    (hc : s.conversation? n = none) : s.poll (fun m => m = n) = ([], s) := by
  unfold poll
  rw [pollEach_eq h]
  unfold conversation? at hc
  rw [hc]

theorem poll_eq_some [Link σ] (h : (s.conversations.map Prod.fst).Nodup) {c : Conversation α}
    (hc : s.conversation? n = some c) :
    s.poll (fun m => m = n) = ([(n, (s.requester.poll c).1.getRight?)],
      ⟨(s.requester.poll c).2, put s.conversations n (s.requester.poll c).1.getLeft?⟩) := by
  unfold poll
  rw [pollEach_eq h]
  unfold conversation? at hc
  rw [hc]

theorem filter_eq_lookup (h : (conversations.map Prod.fst).Nodup) (n : Nat) :
    conversations.filter (fun p => p.1 = n) = (conversations.lookup n).toList.map fun c => (n, c) := by
  induction conversations with
  | nil => rfl
  | cons p rest ih =>
    obtain ⟨hnot, hrest⟩ := List.nodup_cons.1 h
    rw [List.filter_cons, ih hrest, List.lookup_cons]
    by_cases hp : p.1 = n
    · subst hp
      rw [if_pos (by simp), beq_self_eq_true, lookup_eq_none.2 hnot]
      rfl
    · rw [if_neg (by simpa using hp), beq_eq_false_iff_ne.2 (Ne.symm hp)]

theorem filter_eq_put (conversations : List (Nat × Conversation α)) (n : Nat) :
    conversations.filter (fun p => !decide (p.1 = n)) = put conversations n none := by
  induction conversations with
  | nil => rfl
  | cons p rest ih =>
    rw [put_cons, List.filter_cons, ih]
    by_cases hp : p.1 = n
    · rw [if_pos hp, if_neg (by simpa using hp)]
      rfl
    · rw [if_neg hp, if_pos (by simpa using hp)]
      rfl

/-- Dropping a call abandons its conversation only. -/
theorem drop_eq (h : (s.conversations.map Prod.fst).Nodup) (n : Nat) :
    (s.drop fun m => m = n).2 =
      ⟨((s.conversation? n).map s.requester.abandon).getD s.requester, put s.conversations n none⟩ := by
  unfold drop conversation?
  rw [List.partition_eq_filter_filter, ← filter_eq_put]
  dsimp only
  rw [filter_eq_lookup h]
  cases s.conversations.lookup n <;> rfl

theorem conversation?_start (s : Session σ ι Nat α) (k : Nat) (dialogue : Dialogue α) (n : Nat) :
    (s.start k dialogue).conversation? n =
      (s.conversation? n).or (if n = k then some (.ready dialogue) else none) := by
  show (s.conversations ++ [(k, Conversation.ready dialogue)]).lookup n = _
  rw [List.lookup_append]
  by_cases h : n = k
  · subst h
    rw [if_pos rfl, List.lookup_cons_self]
    rfl
  · rw [if_neg h, List.lookup_cons, beq_eq_false_iff_ne.2 h]
    rfl

end Session

/-! ## What happens in a session -/

inductive Turn (κ σ : Type) where
  /-- A call starts. -/
  | start (call : κ)
  /-- A call is polled. -/
  | poll (n : Nat)
  /-- A call is dropped. -/
  | drop (n : Nat)
  /-- A message comes in. -/
  | inbound (eid : EndpointId) (msg : Bytes)
  /-- The clock is set, and the timers run. -/
  | update (now : Nat)
  /-- The link changes. -/
  | adjust (change : σ → σ)

/-- A session of calls that are numbered as they are started, with what has become of them. -/
structure Diary (κ σ ι α : Type) where
  session : Session σ ι Nat α
  /-- The calls, in order. -/
  started : List κ := []
  /-- The calls that were dropped before they returned. -/
  dropped : List Nat := []
  /-- The tickets given out, with the call that was polled. -/
  issued : List (Nat × Ticket) := []
  /-- The tickets whose requests have ended, with their results. -/
  ended : List (Ticket × Except RequestError Response) := []
  /-- What each poll told: what the call returned, or that it is pending. -/
  told : List (Nat × Option α) := []

/-- The share of a call. -/
def share (n : Nat) (l : List (Nat × β)) : List β :=
  l.filterMap fun p => if p.1 = n then some p.2 else none

theorem mem_share {n : Nat} {l : List (Nat × β)} {x : β} : x ∈ share n l ↔ (n, x) ∈ l := by
  unfold share
  rw [List.mem_filterMap]
  constructor
  · rintro ⟨⟨m, y⟩, hp, heq⟩
    split_ifs at heq with hm
    obtain rfl := Option.some.inj heq
    exact hm ▸ hp
  · intro h
    exact ⟨_, h, if_pos rfl⟩

theorem share_append (n : Nat) (l l' : List (Nat × β)) : share n (l ++ l') = share n l ++ share n l' :=
  List.filterMap_append

theorem share_map (n m : Nat) (l : List β) :
    share n (l.map fun x => (m, x)) = if n = m then l else [] := by
  unfold share
  rw [List.filterMap_map]
  by_cases h : n = m
  · rw [if_pos h]
    exact (List.filterMap_congr fun x _ => if_pos h.symm).trans List.filterMap_some
  · rw [if_neg h]
    exact List.filterMap_eq_nil_iff.2 fun x _ => if_neg (Ne.symm h)

namespace Diary

abbrev registry (d : Diary κ σ ι α) : Registry σ (Purpose ι) :=
  d.session.requester.registry

/-- The tickets that a call was given. -/
def tickets (d : Diary κ σ ι α) (n : Nat) : List Ticket :=
  share n d.issued

/-- What the polls of a call told. -/
def answers (d : Diary κ σ ι α) (n : Nat) : List (Option α) :=
  share n d.told

/-- The requests of a call in the registry. -/
def requests (d : Diary κ σ ι α) (n : Nat) : List (Entry σ (Purpose ι)) :=
  (entries d.registry.slots).filter fun e =>
    match e.label with
    | .ticket t => t ∈ d.tickets n
    | .own _ => false

variable [Link σ]

/-- An action, with the requests that end in it. -/
def perform (d : Diary κ σ ι α) (action : Action σ) : Diary κ σ ι α :=
  let p := d.session.perform (.act action)
  { d with session := p.session, ended := d.ended ++ ticketEnds p.events }

/-- What a turn leads to. A call holds the dialogue that belongs to it. -/
def next (dialogue : κ → Dialogue α) (d : Diary κ σ ι α) : Turn κ σ → Diary κ σ ι α
  | .start call =>
    { d with
      session := d.session.start d.started.length (dialogue call)
      started := d.started ++ [call] }
  | .poll n =>
    let (told, session) := d.session.poll fun m => m = n
    let first := d.session.requester.nextTicket
    let issued := List.range' first (session.requester.nextTicket - first)
    { d with
      session := session
      issued := d.issued ++ issued.map fun t => (n, t)
      told := d.told ++ told }
  | .drop n =>
    { d with
      session := (d.session.drop fun m => m = n).2
      dropped := if (d.session.conversation? n).isSome then d.dropped ++ [n] else d.dropped }
  | .inbound eid msg => d.perform (.inbound eid msg)
  | .update now => d.perform (.update now)
  | .adjust change =>
    { d with session := { d.session with requester := d.session.requester.onLink change } }

/-- What turns lead to, beginning without calls. -/
def after (dialogue : κ → Dialogue α) (q : Requester σ ι) (turns : List (Turn κ σ)) :
    Diary κ σ ι α :=
  turns.foldl (next dialogue) { session := ⟨q, []⟩ }

variable {dialogue : κ → Dialogue α} {d : Diary κ σ ι α} {n : Nat}

theorem next_poll_none (h : (d.session.conversations.map Prod.fst).Nodup)
    (hc : d.session.conversation? n = none) : d.next dialogue (.poll n) = d := by
  unfold next
  dsimp only
  rw [Session.poll_eq_none h hc, Nat.sub_self, List.append_nil]
  exact congrArg (fun issued => { d with issued := issued }) (List.append_nil _)

theorem next_poll_some (h : (d.session.conversations.map Prod.fst).Nodup) {c : Conversation α}
    (hc : d.session.conversation? n = some c) :
    d.next dialogue (.poll n) =
      { d with
        session := ⟨(d.session.requester.poll c).2,
          Session.put d.session.conversations n (d.session.requester.poll c).1.getLeft?⟩
        issued := d.issued ++ (List.range' d.session.requester.nextTicket
          ((d.session.requester.poll c).2.nextTicket - d.session.requester.nextTicket)).map
            fun t => (n, t)
        told := d.told ++ [(n, (d.session.requester.poll c).1.getRight?)] } := by
  unfold next
  dsimp only
  rw [Session.poll_eq_some h hc]

theorem next_drop_none (h : (d.session.conversations.map Prod.fst).Nodup)
    (hc : d.session.conversation? n = none) : d.next dialogue (.drop n) = d := by
  unfold next
  dsimp only
  rw [Session.drop_eq h, hc, Session.put_of_notMem (lookup_eq_none.1 hc)]
  rfl

theorem next_drop_some (h : (d.session.conversations.map Prod.fst).Nodup) {c : Conversation α}
    (hc : d.session.conversation? n = some c) :
    d.next dialogue (.drop n) =
      { d with
        session := ⟨d.session.requester.abandon c, Session.put d.session.conversations n none⟩
        dropped := d.dropped ++ [n] } := by
  unfold next
  dsimp only
  rw [Session.drop_eq h, hc]
  rfl

end Diary

end PlatformMessaging

import PlatformMessaging.Link.Outbox
import PlatformMessaging.Transaction.Basic
import Mathlib.Tactic.Common

/-!
# The life of a transaction

A transaction that was started may be polled, asked, stopped, ended and asked for its callback in any order
and number (`Transaction.Use`). `Transaction.life_exact` tells what each of these finds, from nothing but the
uses before it: how many attempts are left, which state shows, whether the retry timer runs and until when,
and whether the callback is still there.

The timer runs until the transaction is `Quiet`: ended, stopped, or found to have used up its last attempt.
After that nothing arms it again, because only a poll that finds a deadline passed does. So each part of a
transaction has a law of its own (`retriesLeft_after`, `state_after`, `timer_after`, `callback_after`), and
the timer's speaks of `Quiet` alone.
-/

namespace PlatformMessaging.Transaction

variable {σ γ : Type}

/-! ## Single polls -/

section Poll

variable [Link σ] {t : Transaction γ} {due : Nat} (link : σ) (now timeout : Nat)

theorem poll_of_idle (h : t.timer = .idle) : t.poll link now timeout = ⟨.idle, t, link, none⟩ := by
  unfold poll
  rw [h, Timer.check_idle]
  split <;> rfl

theorem poll_of_early (hstate : t.state.isTerminal = false) (htimer : t.timer = ⟨some due⟩)
    (hearly : now < due) :
    t.poll link now timeout = ⟨.pending (due - now), t, link, none⟩ := by
  have hcheck : t.timer.check now = (.pending (due - now), t.timer) :=
    Timer.check_of_lt (by rw [htimer]) hearly
  unfold poll
  rw [hstate, hcheck]
  rfl

theorem poll_of_due (hstate : t.state.isTerminal = false) (htimer : t.timer = ⟨some due⟩)
    (hdue : due ≤ now) (hleft : 0 < t.retriesLeft) :
    t.poll link now timeout = ⟨.pending timeout,
      { t with
        retriesLeft := t.retriesLeft - 1
        timer := .arm now timeout
        state := .awaitingResponse },
      (Link.send t.key.eid t.request link).2, some (Link.send t.key.eid t.request link).1⟩ := by
  have hcheck : t.timer.check now = (.expired, .idle) := Timer.check_of_le (by rw [htimer]) hdue
  obtain ⟨n, hn⟩ := Nat.exists_eq_add_of_lt hleft
  unfold poll
  rw [hstate, hcheck, hn, Nat.zero_add]
  rfl

theorem poll_of_last (hstate : t.state.isTerminal = false) (htimer : t.timer = ⟨some due⟩)
    (hdue : due ≤ now) (hleft : t.retriesLeft = 0) :
    t.poll link now timeout = ⟨.exhausted, { t with timer := .idle }, link, none⟩ := by
  have hcheck : t.timer.check now = (.expired, .idle) := Timer.check_of_le (by rw [htimer]) hdue
  unfold poll
  rw [hstate, hcheck, hleft]
  rfl

end Poll

/-! ## Uses -/

/-- One use of a transaction after its start. Each poll may meet another link. -/
inductive Use (σ : Type) where
  | poll (link : σ) (now timeout : Nat)
  | remaining (now : Nat)
  | stop
  | terminate (state : State) (hstate : state.isTerminal = true)
  | takeCallback

/-- The end that a use brings. -/
def Use.ending? : Use σ → Option State
  | .terminate state _ => some state
  | _ => none

/-- The first end that the uses bring. -/
def ending? (uses : List (Use σ)) : Option State :=
  uses.findSome? Use.ending?

section Uses

variable [Link σ]

def use (t : Transaction γ) : Use σ → Transaction γ
  | .poll link now timeout => (t.poll link now timeout).transaction
  | .remaining _ => t
  | .stop => t.stop
  | .terminate state _ => (t.terminate state).2
  | .takeCallback => t.takeCallback.2

def after (t : Transaction γ) (uses : List (Use σ)) : Transaction γ :=
  uses.foldl use t

/-- What a use finds if it is a poll, and when an attempt that it makes runs out. -/
def Use.look? (t : Transaction γ) : Use σ → Option (Nat × Poll σ γ)
  | .poll link now timeout => some (Clock.add now timeout, t.poll link now timeout)
  | _ => none

/-- What the polls among the uses find, in order. -/
def looks : Transaction γ → List (Use σ) → List (Nat × Poll σ γ)
  | _, [] => []
  | t, u :: rest => (u.look? t).toList ++ (t.use u).looks rest

/-- How often the request is sent again. -/
def resends (t : Transaction γ) (uses : List (Use σ)) : Nat :=
  (t.looks uses).countP fun p => p.2.resent.isSome

/-- When the latest attempt runs out, the first one doing so at a given reading. -/
def dueAfter (t : Transaction γ) (due : Nat) (uses : List (Use σ)) : Nat :=
  (t.looks uses).foldl (fun due p => if p.2.resent.isSome then p.1 else due) due

/-- The transaction has been ended or stopped, or a poll has found its last attempt run out. -/
def Quiet (t : Transaction γ) (uses : List (Use σ)) : Prop :=
  (ending? uses).isSome = true ∨ .stop ∈ uses ∨ ∃ p ∈ t.looks uses, p.2.progress = .exhausted

variable {t : Transaction γ} {uses : List (Use σ)} {u : Use σ} {due : Nat}

theorem after_cons : t.after (u :: uses) = (t.use u).after uses := rfl

omit [Link σ] in
theorem ending?_cons : ending? (u :: uses) = u.ending?.or (ending? uses) := by
  unfold ending?
  rw [List.findSome?_cons]
  cases u.ending? <;> rfl

theorem resends_cons : t.resends (u :: uses) =
    (u.look? t).toList.countP (fun p => p.2.resent.isSome) + (t.use u).resends uses := by
  unfold resends
  rw [looks, List.countP_append]

theorem dueAfter_cons : t.dueAfter due (u :: uses) = (t.use u).dueAfter
    ((u.look? t).toList.foldl (fun due p => if p.2.resent.isSome then p.1 else due) due) uses := by
  unfold dueAfter
  rw [looks, List.foldl_append]

/-! ## What each use keeps

One law for each part of a transaction: what a use does to it, and from that what any uses have made of
it. -/

theorem key_use : (t.use u).key = t.key ∧ (t.use u).request = t.request := by
  cases u with
  | poll link now timeout =>
    show (t.poll link now timeout).transaction.key = _ ∧ (t.poll link now timeout).transaction.request = _
    unfold Transaction.poll
    split
    · exact ⟨rfl, rfl⟩
    · split <;> exact ⟨rfl, rfl⟩
  | terminate state hstate =>
    refine ⟨t.key_terminate state, ?_⟩
    show (t.terminate state).2.request = _
    unfold Transaction.terminate
    split <;> rfl
  | _ => exact ⟨rfl, rfl⟩

theorem key_after : (t.after uses).key = t.key ∧ (t.after uses).request = t.request := by
  induction uses generalizing t with
  | nil => exact ⟨rfl, rfl⟩
  | cons u uses ih =>
    rw [after_cons, ih.1, ih.2]
    exact key_use

theorem retriesLeft_use : (u.look? t).toList.countP (fun p => p.2.resent.isSome) +
    (t.use u).retriesLeft = t.retriesLeft := by
  cases u with
  | poll link now timeout =>
    show [(Clock.add now timeout, t.poll link now timeout)].countP _ +
      (t.poll link now timeout).transaction.retriesLeft = _
    rw [List.countP_singleton]
    unfold Transaction.poll
    split
    · simp
    · split
      · simp
      · simp
      · rename_i hleft
        simp [hleft]
      · rename_i hleft
        simp [hleft, Nat.add_comm]
  | terminate state hstate =>
    show 0 + (t.terminate state).2.retriesLeft = _
    unfold Transaction.terminate
    split <;> exact Nat.zero_add _
  | _ => exact Nat.zero_add _

/-- An attempt made again is taken from the retries. -/
theorem retriesLeft_after : t.resends uses + (t.after uses).retriesLeft = t.retriesLeft := by
  induction uses generalizing t with
  | nil => exact Nat.zero_add _
  | cons u uses ih => rw [resends_cons, after_cons, Nat.add_assoc, ih, retriesLeft_use]

omit [Link σ] in
theorem isTerminal_of_ending? {state : State} (h : u.ending? = some state) :
    state.isTerminal = true := by
  cases u with
  | terminate state' hstate =>
    obtain rfl := Option.some.inj h
    exact hstate
  | _ => cases h

theorem state_use_of_ended (hend : t.state.isTerminal = true) : (t.use u).state = t.state := by
  cases u with
  | poll link now timeout =>
    show (t.poll link now timeout).transaction.state = _
    unfold Transaction.poll
    rw [if_pos hend]
  | terminate state hstate =>
    show (t.terminate state).2.state = _
    rw [state_terminate, if_pos hend]
  | _ => rfl

theorem state_after_of_ended (hend : t.state.isTerminal = true) : (t.after uses).state = t.state := by
  induction uses generalizing t with
  | nil => rfl
  | cons u uses ih =>
    have huse := state_use_of_ended (u := u) hend
    rw [after_cons, ih (by rwa [huse]), huse]

theorem state_use (hwaits : t.state = .awaitingResponse) :
    (t.use u).state = u.ending?.getD .awaitingResponse := by
  cases u with
  | poll link now timeout =>
    show (t.poll link now timeout).transaction.state = .awaitingResponse
    unfold Transaction.poll
    split
    · exact hwaits
    · split
      · exact hwaits
      · exact hwaits
      · exact hwaits
      · rfl
  | terminate state hstate =>
    show (t.terminate state).2.state = state
    rw [state_terminate, hwaits]
    rfl
  | _ => exact hwaits

/-- A transaction that was started waits until its first end, which stays. -/
theorem state_after (hwaits : t.state = .awaitingResponse) :
    (t.after uses).state = (ending? uses).getD .awaitingResponse := by
  induction uses generalizing t with
  | nil => exact hwaits
  | cons u uses ih =>
    have huse := state_use (u := u) hwaits
    rw [after_cons, ending?_cons]
    cases hend : u.ending? with
    | none =>
      rw [hend] at huse
      exact ih huse
    | some state =>
      rw [hend] at huse
      have hstate : (t.use u).state.isTerminal = true := by
        rw [huse]
        exact isTerminal_of_ending? hend
      rw [state_after_of_ended hstate, huse]
      rfl

theorem callback_use (hu : .takeCallback ≠ u) : (t.use u).callback = t.callback := by
  cases u with
  | poll link now timeout =>
    show (t.poll link now timeout).transaction.callback = _
    unfold Transaction.poll
    split
    · rfl
    · split <;> rfl
  | terminate state hstate => exact t.callback_terminate state
  | takeCallback => exact absurd rfl hu
  | _ => rfl

/-- The callback is there until it is taken. -/
theorem callback_after : (.takeCallback ∉ uses → (t.after uses).callback = t.callback) ∧
    (.takeCallback ∈ uses → (t.after uses).callback = none) := by
  induction uses generalizing t with
  | nil =>
    refine ⟨fun _ => rfl, fun h => ?_⟩
    cases h
  | cons u uses ih =>
    obtain ⟨huntaken, htaken⟩ := ih (t := t.use u)
    rw [after_cons, List.mem_cons]
    by_cases hu : .takeCallback = u
    · -- What was taken is missing, whether it is asked for again or not.
      have hnone : (t.use u).callback = none := by
        rw [← hu]
        rfl
      refine ⟨fun h => absurd (.inl hu) h, fun _ => ?_⟩
      by_cases hmem : .takeCallback ∈ uses
      · exact htaken hmem
      · rw [huntaken hmem, hnone]
    · rw [or_iff_right hu, ← callback_use (t := t) hu]
      exact ⟨huntaken, htaken⟩

/-! ### The retry timer -/

/-- The use ends the transaction, or stops it, or finds its last attempt run out. -/
def Use.Quiets (t : Transaction γ) (u : Use σ) : Prop :=
  u.ending?.isSome = true ∨ .stop = u ∨ ∃ p, u.look? t = some p ∧ p.2.progress = .exhausted

theorem not_quiet_nil : ¬t.Quiet ([] : List (Use σ)) := by
  rintro (h | h | ⟨p, hp, -⟩)
  · cases h
  · cases h
  · cases hp

theorem quiet_cons : t.Quiet (u :: uses) ↔ u.Quiets t ∨ (t.use u).Quiet uses := by
  unfold Quiet Use.Quiets
  rw [ending?_cons, looks, Option.isSome_or, Bool.or_eq_true]
  simp only [List.mem_append, List.mem_cons, Option.mem_toList, or_and_right, exists_or, or_assoc,
    or_left_comm]

theorem timer_use_of_idle (h : t.timer = .idle) : (t.use u).timer = .idle := by
  cases u with
  | poll link now timeout =>
    show (t.poll link now timeout).transaction.timer = _
    rw [poll_of_idle link now timeout h]
    exact h
  | terminate state hstate => exact t.timer_terminate state
  | remaining now => exact h
  | stop => rfl
  | takeCallback => exact h

theorem timer_after_of_idle (h : t.timer = .idle) : (t.after uses).timer = .idle := by
  induction uses generalizing t with
  | nil => exact h
  | cons u uses ih => exact ih (timer_use_of_idle h)

theorem exhausted_iff (hwaits : t.state = .awaitingResponse) (htimer : t.timer = ⟨some due⟩) (link : σ)
    (now timeout : Nat) :
    (t.poll link now timeout).progress = .exhausted ↔ due ≤ now ∧ t.retriesLeft = 0 := by
  have hlive : t.state.isTerminal = false := by
    rw [hwaits]
    rfl
  by_cases hdue : due ≤ now
  · by_cases hleft : t.retriesLeft = 0
    · rw [poll_of_last link now timeout hlive htimer hdue hleft]
      simp [hdue, hleft]
    · rw [poll_of_due link now timeout hlive htimer hdue (Nat.pos_of_ne_zero hleft)]
      simp [hleft]
  · rw [poll_of_early link now timeout hlive htimer (Nat.lt_of_not_le hdue)]
    simp [hdue]

theorem resent_eq (hwaits : t.state = .awaitingResponse) (htimer : t.timer = ⟨some due⟩) (link : σ)
    (now timeout : Nat) :
    (t.poll link now timeout).resent =
      if due ≤ now ∧ 0 < t.retriesLeft then some (Link.send t.key.eid t.request link).1 else none := by
  have hlive : t.state.isTerminal = false := by
    rw [hwaits]
    rfl
  by_cases hdue : due ≤ now
  · by_cases hleft : t.retriesLeft = 0
    · rw [poll_of_last link now timeout hlive htimer hdue hleft]
      simp [hleft]
    · have hpos := Nat.pos_of_ne_zero hleft
      rw [poll_of_due link now timeout hlive htimer hdue hpos, if_pos ⟨hdue, hpos⟩]
  · rw [poll_of_early link now timeout hlive htimer (Nat.lt_of_not_le hdue)]
    simp [hdue]

theorem timer_use_of_quiets (hwaits : t.state = .awaitingResponse) (htimer : t.timer = ⟨some due⟩)
    (h : u.Quiets t) : (t.use u).timer = .idle := by
  cases u with
  | poll link now timeout =>
    have hfound : (t.poll link now timeout).progress = .exhausted := by
      simpa [Use.Quiets, Use.ending?, Use.look?] using h
    obtain ⟨hdue, hleft⟩ := (exhausted_iff hwaits htimer link now timeout).1 hfound
    show (t.poll link now timeout).transaction.timer = _
    rw [poll_of_last link now timeout (by rw [hwaits]; rfl) htimer hdue hleft]
  | stop => rfl
  | terminate state hstate => exact t.timer_terminate state
  | remaining now => simp [Use.Quiets, Use.ending?, Use.look?] at h
  | takeCallback => simp [Use.Quiets, Use.ending?, Use.look?] at h

theorem timer_use_of_not_quiets (hwaits : t.state = .awaitingResponse) (htimer : t.timer = ⟨some due⟩)
    (h : ¬u.Quiets t) : (t.use u).timer = ⟨some ((u.look? t).toList.foldl
      (fun due p => if p.2.resent.isSome then p.1 else due) due)⟩ := by
  cases u with
  | poll link now timeout =>
    have hlive : t.state.isTerminal = false := by
      rw [hwaits]
      rfl
    have hfound : (t.poll link now timeout).progress ≠ .exhausted := by
      simpa [Use.Quiets, Use.ending?, Use.look?] using h
    show (t.poll link now timeout).transaction.timer =
      ⟨some (if (t.poll link now timeout).resent.isSome then Clock.add now timeout else due)⟩
    by_cases hdue : due ≤ now
    · have hleft : 0 < t.retriesLeft := Nat.pos_of_ne_zero fun hzero =>
        hfound ((exhausted_iff hwaits htimer link now timeout).2 ⟨hdue, hzero⟩)
      rw [poll_of_due link now timeout hlive htimer hdue hleft]
      rfl
    · rw [poll_of_early link now timeout hlive htimer (Nat.lt_of_not_le hdue)]
      exact htimer
  | remaining now => exact htimer
  | stop => exact absurd (.inr (.inl rfl)) h
  | terminate state hstate => exact absurd (.inl rfl) h
  | takeCallback => exact htimer

theorem state_use_of_not_quiets (hwaits : t.state = .awaitingResponse) (h : ¬u.Quiets t) :
    (t.use u).state = .awaitingResponse := by
  have hnone : u.ending? = none := by
    by_contra hend
    exact h (.inl (Option.isSome_iff_ne_none.2 hend))
  rw [state_use hwaits, hnone]
  rfl

/-- The timer of a transaction that was started runs until the transaction is quiet. -/
theorem timer_after (hwaits : t.state = .awaitingResponse) (htimer : t.timer = ⟨some due⟩) :
    (t.Quiet uses → (t.after uses).timer = .idle) ∧
      (¬t.Quiet uses → (t.after uses).timer = ⟨some (t.dueAfter due uses)⟩) := by
  induction uses generalizing t due with
  | nil => exact ⟨fun h => absurd h not_quiet_nil, fun _ => htimer⟩
  | cons u uses ih =>
    rw [quiet_cons, after_cons, dueAfter_cons]
    by_cases hu : u.Quiets t
    · refine ⟨fun _ => ?_, fun h => absurd (.inl hu) h⟩
      exact timer_after_of_idle (timer_use_of_quiets hwaits htimer hu)
    · rw [or_iff_right hu]
      exact ih (state_use_of_not_quiets hwaits hu) (timer_use_of_not_quiets hwaits htimer hu)

/-! ## The result -/

theorem ending?_of_not_quiet (hquiet : ¬t.Quiet uses) : ending? uses = none := by
  by_contra hend
  exact hquiet (.inl (Option.isSome_iff_ne_none.2 hend))

theorem isTerminal_after (hwaits : t.state = .awaitingResponse) :
    (t.after uses).state.isTerminal = false ↔ ending? uses = none := by
  rw [state_after hwaits]
  cases hend : ending? uses with
  | none => exact ⟨fun _ => rfl, fun _ => rfl⟩
  | some state =>
    obtain ⟨u, -, hu⟩ := List.exists_of_findSome?_eq_some hend
    simp [isTerminal_of_ending? hu]

theorem terminate_eq_true (t : Transaction γ) (state : State) :
    (t.terminate state).1 = true ↔ t.state.isTerminal = false := by
  unfold terminate
  split <;> simp_all

theorem link_poll (t : Transaction γ) (link : σ) (now timeout : Nat) :
    (t.poll link now timeout).link =
      if (t.poll link now timeout).resent.isSome then (Link.send t.key.eid t.request link).2
      else link := by
  unfold Transaction.poll
  split
  · rfl
  · split <;> rfl

theorem eq_of_start {key : Key} {request : Bytes} {retries : Nat} {callback : γ} {link link' : σ}
    {now timeout : Nat}
    (h : (create key request retries callback).start link now timeout = (.ok (), t, link')) :
    t = ⟨key, request, retries, .arm now timeout, .awaitingResponse, some callback⟩ := by
  unfold start create at h
  dsimp only at h
  split at h
  · cases (Prod.mk.inj h).1
  · exact (Prod.mk.inj (Prod.mk.inj h).2).1.symm

/-- **The life of a transaction that was started**, after any uses of it. Attempts made again and retries
left add up to what it began with. It waits for its response until its first end, which stays, and only
that first end is answered with `true`. Once it is ended or stopped, or a poll found its last attempt run
out, its timer is idle, and no poll finds or sends anything more. Until then the timer has the deadline of
the latest attempt, and a poll sends the request again exactly if that has passed and retries are left. The
callback is there until it is taken for the first time. -/
theorem life_exact {key : Key} {request : Bytes} {retries : Nat} {callback : γ} {link link' : σ}
    {now timeout : Nat}
    (hstart : (create key request retries callback).start link now timeout = (.ok (), t, link'))
    (uses : List (Use σ)) :
    t.resends uses + (t.after uses).retriesLeft = retries ∧
    (t.after uses).state = (ending? uses).getD .awaitingResponse ∧
    (∀ state, state.isTerminal = true →
      (((t.after uses).terminate state).1 = true ↔ ending? uses = none)) ∧
    (t.Quiet uses → (t.after uses).timer = .idle ∧ (∀ now, (t.after uses).remaining now = none) ∧
      ∀ (link : σ) (now timeout : Nat),
        (t.after uses).poll link now timeout = ⟨.idle, t.after uses, link, none⟩) ∧
    (¬t.Quiet uses → (t.after uses).state = .awaitingResponse ∧
      (t.after uses).timer = ⟨some (t.dueAfter (Clock.add now timeout) uses)⟩ ∧
      ∀ (link : σ) (reading timeout' : Nat),
        let found := (t.after uses).poll link reading timeout'
        let sent := Link.send key.eid request link
        (found.progress = .exhausted ↔
          t.dueAfter (Clock.add now timeout) uses ≤ reading ∧ (t.after uses).retriesLeft = 0) ∧
        (found.resent, found.link) =
          if t.dueAfter (Clock.add now timeout) uses ≤ reading ∧ 0 < (t.after uses).retriesLeft then
            (some sent.1, sent.2)
          else (none, link)) ∧
    (.takeCallback ∉ uses → (t.after uses).takeCallback.1 = some callback) ∧
    (.takeCallback ∈ uses → (t.after uses).takeCallback.1 = none) := by
  obtain rfl := eq_of_start hstart
  set t : Transaction γ := ⟨key, request, retries, .arm now timeout, .awaitingResponse, some callback⟩
  have hwaits : t.state = .awaitingResponse := rfl
  have htimer : t.timer = ⟨some (Clock.add now timeout)⟩ := rfl
  refine ⟨retriesLeft_after, state_after hwaits, fun state _ => ?_, fun hquiet => ?_, fun hquiet => ?_,
    callback_after⟩
  · rw [terminate_eq_true, isTerminal_after hwaits]
  · have hidle := (timer_after hwaits htimer).1 hquiet
    refine ⟨hidle, fun reading => ?_, fun link reading timeout' => poll_of_idle link _ _ hidle⟩
    unfold remaining
    rw [hidle]
    rfl
  · have hstate : (t.after uses).state = .awaitingResponse := by
      rw [state_after hwaits, ending?_of_not_quiet hquiet]
      rfl
    have hdeadline := (timer_after hwaits htimer).2 hquiet
    refine ⟨hstate, hdeadline, fun link reading timeout' => ⟨exhausted_iff hstate hdeadline _ _ _, ?_⟩⟩
    have hresent := resent_eq hstate hdeadline link reading timeout'
    have hlink := link_poll (t.after uses) link reading timeout'
    rw [hresent] at hlink
    rw [key_after.1, key_after.2] at hresent hlink
    by_cases hdue : t.dueAfter (Clock.add now timeout) uses ≤ reading ∧ 0 < (t.after uses).retriesLeft
    · rw [if_pos hdue] at hresent hlink ⊢
      exact Prod.ext hresent hlink
    · rw [if_neg hdue] at hresent hlink ⊢
      exact Prod.ext hresent hlink

/-- A poll that comes in time, one that comes late and one that finds the last attempt run out; then the
transaction is ended, and asked twice for its callback. -/
def sampleUses : List (Use Outbox) :=
  [.poll {} 99 100, .poll {} 100 100, .takeCallback, .poll {} 250 100, .terminate .timedOut rfl,
    .takeCallback]

theorem life_exact_timedOut :
    let t : Transaction Nat := ⟨⟨9, 3, 2, 0x51⟩, [1, 2, 3], 1, .arm 0 100, .awaitingResponse, some 55⟩
    (create ⟨9, 3, 2, 0x51⟩ [1, 2, 3] 1 55).start ({} : Outbox) 0 100 =
      (.ok (), t, ⟨[(9, [1, 2, 3])], none, 1⟩) ∧
    t.resends sampleUses = 1 ∧
    (t.after sampleUses).state = .timedOut ∧
    ((t.after sampleUses).terminate .completed).1 = false ∧
    (∀ link : Outbox, (t.after sampleUses).poll link 900 100 = ⟨.idle, t.after sampleUses, link, none⟩) ∧
    (t.after (sampleUses.take 3)).timer = ⟨some 200⟩ ∧
    (t.after sampleUses).takeCallback.1 = none := by
  intro t
  have hstart : (create ⟨9, 3, 2, 0x51⟩ [1, 2, 3] 1 55).start ({} : Outbox) 0 100 =
      (.ok (), t, ⟨[(9, [1, 2, 3])], none, 1⟩) := rfl
  obtain ⟨hresends, hstate, hends, hquiet, -, -, htaken⟩ := life_exact hstart sampleUses
  obtain ⟨-, -, -, -, hruns, -⟩ := life_exact hstart (sampleUses.take 3)
  have hearly : ¬t.Quiet (sampleUses.take 3) := by
    have hlooks : (t.looks (sampleUses.take 3)).all (·.2.progress ≠ .exhausted) = true := rfl
    rintro (hend | hstop | ⟨p, hp, hfound⟩)
    · cases hend
    · simp [sampleUses] at hstop
    · exact of_decide_eq_true (List.all_eq_true.1 hlooks p hp) hfound
  refine ⟨hstart, hresends, hstate, ?_, fun link => (hquiet (.inl rfl)).2.2 link 900 100,
    (hruns hearly).2.1, htaken (by simp [sampleUses])⟩
  rw [Bool.eq_false_iff]
  exact fun h => absurd ((hends .completed rfl).1 h) (by simp [ending?, sampleUses, Use.ending?])

end Uses

end PlatformMessaging.Transaction

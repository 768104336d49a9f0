import PlatformMessaging.Requester.Dialogue

/-!
# Dialogues and their answers

* `Dialogue.play` gives a dialogue the answers of a sequence one after another, and tells what was
  asked and how it ended.
* A dialogue `Relays` failures if a request that fails ends it at once, with a result that tells of
  the failure.
* A dialogue is `Blind` if it does not look at the instance IDs of responses.

The last two are kept by `bind`, so that they hold of a dialogue if they hold of its pieces.
-/

namespace PlatformMessaging.Dialogue

variable {α β : Type}

/-- What a dialogue asks, in order, and its result, if its requests are answered as in a sequence
from the given position on. -/
def play (answers : Nat → Except RequestError Response) :
    Nat → Dialogue α → List (EndpointId × Request) × α
  | _, .done a => ([], a)
  | n, .ask eid request next =>
    ((eid, request) :: (play answers (n + 1) (next (answers n))).1,
      (play answers (n + 1) (next (answers n))).2)

/-- Answers one after another, and then none any more. -/
def given (answers : List (Except RequestError Response)) (n : Nat) : Except RequestError Response :=
  answers[n]?.getD (.error .timedOut)

theorem forall_getElem?_cons {P : Nat → α → Prop} {n : Nat} {a : α} {as : List α} :
    (∀ (i : Nat) (b : α), (a :: as)[i]? = some b → P (n + i) b) ↔
      P n a ∧ ∀ (i : Nat) (b : α), as[i]? = some b → P (n + 1 + i) b := by
  constructor
  · intro h
    refine ⟨h 0 a rfl, fun i b hb => ?_⟩
    rw [Nat.add_assoc, Nat.add_comm 1]
    exact h (i + 1) b hb
  · rintro ⟨ha, has⟩ i b hb
    cases i with
    | zero =>
      obtain rfl := Option.some.inj hb
      exact ha
    | succ i =>
      have h := has i b hb
      rwa [Nat.add_assoc, Nat.add_comm 1] at h

@[simp] theorem play_done (answers : Nat → Except RequestError Response) (n : Nat) (a : α) :
    play answers n (done a) = ([], a) := rfl

theorem play_ask (answers : Nat → Except RequestError Response) (n : Nat) (eid : EndpointId)
    (request : Request) (next : Except RequestError Response → Dialogue α) :
    play answers n (ask eid request next) =
      ((eid, request) :: (play answers (n + 1) (next (answers n))).1,
        (play answers (n + 1) (next (answers n))).2) := rfl

theorem play_bind (answers : Nat → Except RequestError Response) (n : Nat) (d : Dialogue α)
    (g : α → Dialogue β) :
    play answers n (d.bind g) =
      ((play answers n d).1 ++
          (play answers (n + (play answers n d).1.length) (g (play answers n d).2)).1,
        (play answers (n + (play answers n d).1.length) (g (play answers n d).2)).2) := by
  induction d generalizing n with
  | done a => rfl
  | ask eid request next ih =>
    rw [ask_bind, play_ask, play_ask, ih]
    simp [Nat.add_assoc, Nat.add_comm 1]

theorem play_andThen_ok {ε : Type} {answers : Nat → Except RequestError Response} {n : Nat}
    {d : Dialogue (Except ε α)} {asked : List (EndpointId × Request)} {a : α}
    (h : play answers n d = (asked, .ok a)) (g : α → Dialogue (Except ε β)) :
    play answers n (d.andThen g) =
      (asked ++ (play answers (n + asked.length) (g a)).1,
        (play answers (n + asked.length) (g a)).2) := by
  unfold andThen
  rw [play_bind, h]

theorem play_andThen_error {ε : Type} {answers : Nat → Except RequestError Response} {n : Nat}
    {d : Dialogue (Except ε α)} {asked : List (EndpointId × Request)} {e : ε}
    (h : play answers n d = (asked, .error e)) (g : α → Dialogue (Except ε β)) :
    play answers n (d.andThen g) = (asked, .error e) := by
  unfold andThen
  rw [play_bind, h]
  simp

/-! ## Relaying failures -/

/-- A request that fails ends the dialogue with a result that tells of the failure. -/
inductive Relays (tells : RequestError → α → Prop) : Dialogue α → Prop where
  | done (a : α) : Relays tells (.done a)
  | ask {eid : EndpointId} {request : Request} {next : Except RequestError Response → Dialogue α}
      (herror : ∀ e, ∃ a, next (.error e) = .done a ∧ tells e a)
      (hok : ∀ r, Relays tells (next (.ok r))) : Relays tells (.ask eid request next)

theorem Relays.of_ask {tells : RequestError → α → Prop} {eid : EndpointId} {request : Request}
    {next : Except RequestError Response → Dialogue α} (h : Relays tells (.ask eid request next)) :
    (∀ e, ∃ a, next (.error e) = .done a ∧ tells e a) ∧ ∀ r, (next (.ok r)).Relays tells := by
  cases h with
  | ask herror hok => exact ⟨herror, hok⟩

theorem Relays.bind {tells : RequestError → α → Prop} {tells' : RequestError → β → Prop}
    {d : Dialogue α} {g : α → Dialogue β} (hd : d.Relays tells)
    (herror : ∀ e a, tells e a → ∃ b, g a = .done b ∧ tells' e b)
    (hg : ∀ a, (g a).Relays tells') : (d.bind g).Relays tells' := by
  induction hd with
  | done a => exact hg a
  | @ask eid request next hnext _ ih =>
    refine .ask (fun e => ?_) ih
    obtain ⟨a, ha, htells⟩ := hnext e
    rw [ha]
    exact herror e a htells

theorem Relays.andThen {ε : Type} {tells : RequestError → Except ε α → Prop}
    {tells' : RequestError → Except ε β → Prop} {d : Dialogue (Except ε α)}
    {g : α → Dialogue (Except ε β)} (hd : d.Relays tells)
    (herror : ∀ e a, tells e a → ∃ e', a = .error e' ∧ tells' e (.error e'))
    (hg : ∀ a, (g a).Relays tells') : (d.andThen g).Relays tells' := by
  refine hd.bind ?_ ?_
  · intro e a htells
    obtain ⟨e', rfl, htells'⟩ := herror e a htells
    exact ⟨.error e', rfl, htells'⟩
  · rintro (e | a)
    · exact .done _
    · exact hg a

/-! ## Instance IDs -/

/-- The dialogue does not look at the instance IDs of responses. -/
inductive Blind : Dialogue α → Prop where
  | done (a : α) : Blind (.done a)
  | ask {eid : EndpointId} {request : Request} {next : Except RequestError Response → Dialogue α}
      (hsame : ∀ r : Response, next (.ok r) = next (.ok { r with iid := 0 }))
      (hnext : ∀ answer, Blind (next answer)) : Blind (.ask eid request next)

theorem Blind.of_ask {eid : EndpointId} {request : Request}
    {next : Except RequestError Response → Dialogue α} (h : Blind (.ask eid request next)) :
    (∀ r : Response, next (.ok r) = next (.ok { r with iid := 0 })) ∧
      ∀ answer, (next answer).Blind := by
  cases h with
  | ask hsame hnext => exact ⟨hsame, hnext⟩

theorem Blind.bind {d : Dialogue α} {g : α → Dialogue β} (hd : d.Blind) (hg : ∀ a, (g a).Blind) :
    (d.bind g).Blind := by
  induction hd with
  | done a => exact hg a
  | ask hsame _ ih =>
    refine .ask (fun r => ?_) ih
    rw [hsame r]

theorem Blind.andThen {ε : Type} {d : Dialogue (Except ε α)} {g : α → Dialogue (Except ε β)}
    (hd : d.Blind) (hg : ∀ a, (g a).Blind) : (d.andThen g).Blind := by
  refine hd.bind ?_
  rintro (e | a)
  · exact .done _
  · exact hg a

end PlatformMessaging.Dialogue

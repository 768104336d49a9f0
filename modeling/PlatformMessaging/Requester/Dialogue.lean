import PlatformMessaging.Transaction.Error

/-!
# Dialogues

A `Dialogue α` asks endpoints one thing after another, each request depending on the answers so far,
and ends with an `α`. It says what is asked, not when: a host may run many at once.
-/

namespace PlatformMessaging

/-- A finite exchange of requests and answers that ends with an `α`. -/
inductive Dialogue (α : Type) where
  | done (result : α)
  | ask (eid : EndpointId) (request : Request)
      (next : Except RequestError Response → Dialogue α)

namespace Dialogue

variable {α β ε : Type}

/-- Goes on with another dialogue at the end. -/
def bind : Dialogue α → (α → Dialogue β) → Dialogue β
  | done a, f => f a
  | ask eid request next, f => ask eid request fun answer => (next answer).bind f

def send (eid : EndpointId) (request : Request) : Dialogue (Except RequestError Response) :=
  ask eid request done

/-- Goes on with a result, or ends with its error. -/
def andThen (d : Dialogue (Except ε α)) (f : α → Dialogue (Except ε β)) : Dialogue (Except ε β) :=
  d.bind fun
    | .ok a => f a
    | .error e => done (.error e)

/-- Dialogues one after another, up to the first whose result ends the sequence. -/
def sequence (stop : α → Bool) : List (Dialogue α) → Dialogue (List α)
  | [] => done []
  | d :: rest => d.bind fun a =>
    if stop a then done [a] else (sequence stop rest).bind fun as => done (a :: as)

@[simp] theorem done_bind (a : α) (f : α → Dialogue β) : (done a).bind f = f a := rfl

@[simp] theorem ask_bind (eid : EndpointId) (request : Request)
    (next : Except RequestError Response → Dialogue α) (f : α → Dialogue β) :
    (ask eid request next).bind f = ask eid request fun answer => (next answer).bind f := rfl

end Dialogue

end PlatformMessaging

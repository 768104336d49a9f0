import PlatformMessaging.Clock.Timer
import PlatformMessaging.Transaction.Error

/-!
# Transactions

A transaction is one request under way: it is sent once by `start`, then again by `poll` each time
its retry timer runs out, until the retries are used up. `terminate` ends it once and for all. It
holds what is to be done at its end (`callback`), which can be taken once.
-/

namespace PlatformMessaging

/-- How far a transaction has come. There is no state for a message that was just sent (`Sent`) or that
is sent again (`Retrying`): `start` and `poll` would overwrite either with `awaitingResponse` before
they return, and nothing looks at a transaction in between. -/
inductive Transaction.State where
  | created
  | awaitingResponse
  | completed
  | timedOut
  | cancelled
  deriving DecidableEq, Repr

namespace Transaction.State

def name : State → String
  | created => "Created"
  | awaitingResponse => "AwaitingResponse"
  | completed => "Completed"
  | timedOut => "TimedOut"
  | cancelled => "Cancelled"

def isTerminal : State → Bool
  | created | awaitingResponse => false
  | completed | timedOut | cancelled => true

end Transaction.State

/-- A request under way, with what is to be done at its end. -/
structure Transaction (γ : Type) where
  key : Key
  /-- The whole message, sent unchanged at every attempt. -/
  request : Bytes
  retriesLeft : Nat
  timer : Timer
  state : Transaction.State
  callback : Option γ

namespace Transaction

variable {σ γ : Type}

/-- A transaction that is yet to be sent. -/
def create (key : Key) (request : Bytes) (retries : Nat) (callback : γ) : Transaction γ :=
  ⟨key, request, retries, .idle, .created, some callback⟩

/-- Makes the first attempt. A refused message leaves the transaction as it was. The state between the
sending and the arming of the timer is not written, as it does not outlast the call. -/
def start [Link σ] (t : Transaction γ) (link : σ) (now timeout : Nat) :
    Except LinkError Unit × Transaction γ × σ :=
  match Link.send t.key.eid t.request link with
  | (.error e, link) => (.error e, t, link)
  | (.ok (), link) =>
    (.ok (), { t with timer := .arm now timeout, state := .awaitingResponse }, link)

/-- What a look at a transaction's retry timer finds. -/
inductive Progress where
  | idle
  | pending (remaining : Nat)
  /-- The last attempt ran out. -/
  | exhausted
  deriving DecidableEq, Repr

/-- The result of a look at the retry timer, with the link's answer if the request was repeated. -/
structure Poll (σ γ : Type) where
  progress : Progress
  transaction : Transaction γ
  link : σ
  resent : Option (Except LinkError Unit)

/-- What a host is warned of after a look at the retry timer. -/
def Poll.warnings (p : Poll σ γ) : List Warning :=
  match p.resent with
  | some (.error e) => [.resendFailed p.transaction.key e]
  | _ => []

/-- Looks at the retry timer, and sends the request again if it ran out while retries are left. An
attempt that the link refuses counts like any other. The state in which it is made is not written, as
it does not outlast the call. -/
def poll [Link σ] (t : Transaction γ) (link : σ) (now timeout : Nat) : Poll σ γ :=
  if t.state.isTerminal then ⟨.idle, t, link, none⟩
  else
    match t.timer.check now, t.retriesLeft with
    | (.idle, _), _ => ⟨.idle, t, link, none⟩
    | (.pending r, _), _ => ⟨.pending r, t, link, none⟩
    | (.expired, timer), 0 => ⟨.exhausted, { t with timer := timer }, link, none⟩
    | (.expired, _), n + 1 =>
      let sent := Link.send t.key.eid t.request link
      ⟨.pending timeout,
        { t with retriesLeft := n, timer := .arm now timeout, state := .awaitingResponse },
        sent.2, some sent.1⟩

def remaining (t : Transaction γ) (now : Nat) : Option Nat :=
  t.timer.remaining now

def stop (t : Transaction γ) : Transaction γ :=
  { t with timer := .idle }

/-- Ends the transaction and tells whether it was still under way. An end that was reached stays. -/
def terminate (t : Transaction γ) (state : State) : Bool × Transaction γ :=
  if t.state.isTerminal then (false, t.stop)
  else (true, { t.stop with state := state })

def takeCallback (t : Transaction γ) : Option γ × Transaction γ :=
  (t.callback, { t with callback := none })

def describe (t : Transaction γ) : String :=
  "Transaction \x7b key: " ++ t.key.describe ++ ", state: " ++ t.state.name ++
    ", retries_left: " ++ toString t.retriesLeft ++ ", request length: " ++
    toString t.request.length ++ ", .. \x7d"

@[simp] theorem key_terminate (t : Transaction γ) (state : State) :
    (t.terminate state).2.key = t.key := by
  unfold terminate
  split <;> rfl

@[simp] theorem callback_terminate (t : Transaction γ) (state : State) :
    (t.terminate state).2.callback = t.callback := by
  unfold terminate
  split <;> rfl

@[simp] theorem timer_terminate (t : Transaction γ) (state : State) :
    (t.terminate state).2.timer = .idle := by
  unfold terminate
  split <;> rfl

theorem state_terminate (t : Transaction γ) (state : State) :
    (t.terminate state).2.state = if t.state.isTerminal then t.state else state := by
  unfold terminate
  split <;> rfl

end Transaction

end PlatformMessaging

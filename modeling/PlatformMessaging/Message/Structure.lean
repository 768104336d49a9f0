import PlatformMessaging.Wire.Layout
import PlatformMessaging.Message.Error

/-!
# Reading structures from messages

A layout read against a message's bytes: `Layout.decode` leaves what follows the structure,
`Layout.decodeExact` refuses it.
-/

namespace PlatformMessaging.Layout

variable {α : Type}

/-- Reads a structure from the front of a message's data. -/
def decode (L : Layout α) (b : Bytes) : Except MessageError (α × Bytes) :=
  match L.read b with
  | some p => .ok p
  | none => .error (.protocol .truncated)

/-- Reads a structure that takes up all of a message's data. -/
def decodeExact (L : Layout α) (b : Bytes) : Except MessageError α :=
  match L.decode b with
  | .error e => .error e
  | .ok (v, []) => .ok v
  | .ok (_, _ :: _) => .error (.protocol (.malformed .surplus))

theorem decode_eq_ok {L : Layout α} {b : Bytes} {p : α × Bytes} :
    L.decode b = .ok p ↔ L.read b = some p := by
  unfold decode
  split <;> simp_all

theorem decode_eq_error {L : Layout α} {b : Bytes} {e : MessageError} :
    L.decode b = .error e ↔ L.read b = none ∧ e = .protocol .truncated := by
  unfold decode
  cases h : L.read b with
  | some p => simp
  | none => simp [eq_comm]

end PlatformMessaging.Layout

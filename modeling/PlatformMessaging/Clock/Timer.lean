import PlatformMessaging.Clock.Basic

/-!
# Timers

A timer is idle or has a deadline. `Timer.check` reports a deadline that has come once; the timer is
idle afterwards.
-/

namespace PlatformMessaging

/-- A timer that may be armed with a deadline. -/
structure Timer where
  deadline : Option Nat := none
  deriving DecidableEq, Repr

/-- What a look at a timer finds. -/
inductive TimerState where
  | idle
  | pending (remaining : Nat)
  | expired
  deriving DecidableEq, Repr

namespace Timer

def idle : Timer := ⟨none⟩

def arm (now duration : Nat) : Timer := ⟨some (Clock.add now duration)⟩

def remaining (t : Timer) (now : Nat) : Option Nat :=
  t.deadline.map fun d => d - now

/-- Looks whether the deadline has come, and disarms the timer if so. -/
def check (t : Timer) (now : Nat) : TimerState × Timer :=
  match t.deadline with
  | none => (.idle, t)
  | some d => if d ≤ now then (.expired, idle) else (.pending (d - now), t)

theorem check_idle (now : Nat) : idle.check now = (.idle, idle) := rfl

theorem check_of_le {t : Timer} {d now : Nat} (hd : t.deadline = some d) (h : d ≤ now) :
    t.check now = (.expired, idle) := by
  simp [check, hd, h]

theorem check_of_lt {t : Timer} {d now : Nat} (hd : t.deadline = some d) (h : now < d) :
    t.check now = (.pending (d - now), t) := by
  simp [check, hd, Nat.not_le.2 h]

end Timer

end PlatformMessaging

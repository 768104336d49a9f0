/-!
# Clock readings

Times are counted in milliseconds and capped at `Clock.top`, the largest 64-bit number: sums and
products that would go past it stay there. As an interval, `Clock.top` means "never".
-/

namespace PlatformMessaging.Clock

/-- The largest reading. -/
def top : Nat := UInt64.size - 1

/-- The sum of two times, capped. -/
def add (a b : Nat) : Nat := min (a + b) top

/-- A number of equal times, capped. -/
def mul (a n : Nat) : Nat := min (a * n) top

theorem add_le_top (a b : Nat) : add a b ≤ top := Nat.min_le_right _ _

theorem add_eq {a b : Nat} (h : a + b ≤ top) : add a b = a + b := Nat.min_eq_left h

end PlatformMessaging.Clock

import PlatformMessaging.Clock.Basic
import PlatformMessaging.Transaction.Error

/-!
# Policies

How often and how long a requester tries, and how large a record it accepts. `Policy.validate`
refuses zero times and limits, and warns of an expiry that cuts attempts short.
-/

namespace PlatformMessaging

/-- The times, counts and sizes that a requester works with. -/
structure Policy where
  /-- Attempts after the first. -/
  retries : Nat := 2
  /-- How long each attempt waits. -/
  responseTimeout : Nat := 2000
  /-- How long a request stays outstanding at most. -/
  instanceExpiry : Nat := 8000
  /-- Bytes of the largest record accepted. -/
  maxRecordSize : Nat := 65536
  /-- Parts of a record asked for at most. -/
  maxParts : Nat := 512
  deriving DecidableEq, Repr

namespace Policy

/-- The time that all attempts of an unanswered request take. -/
def retryWindow (p : Policy) : Nat :=
  Clock.mul p.responseTimeout (p.retries + 1)

/-- The policy whose requests expire one attempt after their last. -/
def expireAfterRetries (p : Policy) : Policy :=
  { p with instanceExpiry := Clock.add p.retryWindow p.responseTimeout }

/-- The warnings due for a policy, or a refusal. -/
def validate (p : Policy) : Except MessageError (List Warning) :=
  if p.responseTimeout = 0 ∨ p.instanceExpiry = 0 then .error .invalidArgument
  else if p.maxRecordSize = 0 ∨ p.maxParts = 0 then .error .invalidArgument
  else if p.instanceExpiry ≤ p.retryWindow then
    .ok [.expiryWithinRetries p.instanceExpiry p.retryWindow]
  else .ok []

end Policy

end PlatformMessaging

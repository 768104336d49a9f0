import PlatformMessaging.Transaction.Key

/-!
# Request errors and warnings

Why a request ended without a response (`RequestError`), and what is worth a warning although
nothing failed (`Warning`).
-/

namespace PlatformMessaging

/-- What is wrong with a response that was matched to its request. -/
inductive ResponseFault where
  /-- It could not be read. -/
  | unreadable (error : MessageError)
  /-- Its type or command is not that of the request. -/
  | mismatch (typ cmd requestTyp requestCmd : UInt8)
  deriving DecidableEq, Repr

def ResponseFault.message : ResponseFault → String
  | unreadable e => e.message
  | mismatch typ cmd requestTyp requestCmd =>
    "Response type " ++ toString typ.toNat ++ " cmd 0x" ++ hexByte cmd ++ " for request type " ++
      toString requestTyp.toNat ++ " cmd 0x" ++ hexByte requestCmd

/-- Why a request ended without a response. -/
inductive RequestError where
  /-- No instance ID is free for the endpoint. -/
  | poolExhausted
  /-- A request with the same key is outstanding. -/
  | duplicateKey (key : Key)
  /-- The link refused the request. -/
  | link (error : LinkError)
  /-- No response came in time. -/
  | timedOut
  | cancelled
  /-- The response does not fit the request. -/
  | violation (fault : ResponseFault)
  /-- The request could not be made, or what came back could not be used. -/
  | messaging (error : MessageError)
  deriving DecidableEq, Repr

def RequestError.message : RequestError → String
  | poolExhausted => "Instance ID pool exhausted"
  | duplicateKey k => "Duplicate transaction " ++ k.describe
  | link e => "Transport error: " ++ e.message
  | timedOut => "Timed out waiting for response"
  | cancelled => "Transaction cancelled"
  | violation fault => "Protocol violation: " ++ fault.message
  | messaging e => "PLDM error: " ++ e.message

/-- What a host is warned of. -/
inductive Warning where
  /-- Requests expire before all their attempts are made. -/
  | expiryWithinRetries (expiry window : Nat)
  /-- The clock was set to an earlier reading. -/
  | clockBackwards (reading clock : Nat)
  /-- The link refused a repeated attempt. -/
  | resendFailed (key : Key) (error : LinkError)
  deriving DecidableEq, Repr

def Warning.message : Warning → String
  | expiryWithinRetries expiry window =>
    "Instance expiry " ++ toString expiry ++ " ms is within the retry window " ++
      toString window ++ " ms"
  | clockBackwards reading clock =>
    "Clock went backwards, " ++ toString reading ++ " < " ++ toString clock
  | resendFailed k e => "Resend failed for " ++ k.describe ++ ": " ++ e.message

end PlatformMessaging

import PlatformMessaging.Wire.LittleEndian

/-!
# Links

A link carries whole messages to remote endpoints. Sending is fire and forget: it either accepts a
message or refuses it with a `LinkError`, and whatever comes back arrives on its own. A link is a
state with a `send` (class `Link`), so that a refusal may depend on anything that was sent before.
-/

namespace PlatformMessaging

/-- The address of a remote endpoint. -/
abbrev EndpointId := UInt8

/-- Why a link refused a message. -/
inductive LinkError where
  | txFailure
  | rxFailure
  | timedOut
  | badArgument
  | invalidInput
  | tagUnavailable
  | unreachable
  | addrInUse
  | noSpace
  | unsupported
  | other
  | internalError
  deriving DecidableEq, Repr

namespace LinkError

def name : LinkError → String
  | txFailure => "TxFailure"
  | rxFailure => "RxFailure"
  | timedOut => "TimedOut"
  | badArgument => "BadArgument"
  | invalidInput => "InvalidInput"
  | tagUnavailable => "TagUnavailable"
  | unreachable => "Unreachable"
  | addrInUse => "AddrInUse"
  | noSpace => "NoSpace"
  | unsupported => "Unsupported"
  | other => "Other"
  | internalError => "InternalError"

def all : List LinkError :=
  [txFailure, rxFailure, timedOut, badArgument, invalidInput, tagUnavailable, unreachable,
    addrInUse, noSpace, unsupported, other, internalError]

def ofName? (s : String) : Option LinkError :=
  all.find? fun e => e.name = s

/-- The refusal as the link reports it. -/
def message (e : LinkError) : String :=
  "MCTP Error: " ++ e.name

end LinkError

/-- A link whose state is a `σ`: it answers each message and moves to its next state. -/
class Link (σ : Type) where
  send : EndpointId → Bytes → σ → Except LinkError Unit × σ

end PlatformMessaging

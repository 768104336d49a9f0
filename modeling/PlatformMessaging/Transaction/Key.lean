import PlatformMessaging.Message.Basic

/-!
# Transaction keys

A response belongs to the request that has its endpoint, instance ID, type and command.
-/

namespace PlatformMessaging

/-- What identifies an outstanding request. -/
structure Key where
  eid : EndpointId
  iid : InstanceId
  typ : UInt8
  cmd : UInt8
  deriving DecidableEq, Repr

def Key.describe (k : Key) : String :=
  "TransactionKey \x7b eid: Eid(" ++ toString k.eid.toNat ++ "), iid: InstanceId(" ++
    toString k.iid.toNat ++ "), typ: " ++ toString k.typ.toNat ++ ", cmd: " ++
    toString k.cmd.toNat ++ " \x7d"

end PlatformMessaging

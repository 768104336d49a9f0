import PlatformMessaging.Wire.Layout

/-!
# Bodies of discovery messages

The data of the discovery commands and of their responses, field by field, with the size of each
(`_fixed`).
-/

namespace PlatformMessaging.Control

open Layout

structure TidResponse where
  tid : UInt8
  deriving DecidableEq

/-- The supported types, as a bitmask. -/
structure TypesResponse where
  types : Block 8
  deriving DecidableEq

structure VersionRequest where
  transferHandle : UInt32
  operation : UInt8
  typ : UInt8
  deriving DecidableEq

/-- The fields before a part of version data. -/
structure VersionResponse where
  nextHandle : UInt32
  flag : UInt8
  deriving DecidableEq

structure CommandsRequest where
  typ : UInt8
  version : UInt32
  deriving DecidableEq

/-- The supported commands, as a bitmask. -/
structure CommandsResponse where
  commands : Block 32
  deriving DecidableEq

def TidResponse.layout : Layout TidResponse :=
  byte.convert TidResponse.mk TidResponse.tid

def TypesResponse.layout : Layout TypesResponse :=
  (block 8).convert TypesResponse.mk TypesResponse.types

def VersionRequest.layout : Layout VersionRequest :=
  (wordU32.pair (byte.pair byte)).convert
    (fun p => ⟨p.1, p.2.1, p.2.2⟩) (fun v => (v.transferHandle, v.operation, v.typ))

def VersionResponse.layout : Layout VersionResponse :=
  (wordU32.pair byte).convert (fun p => ⟨p.1, p.2⟩) (fun v => (v.nextHandle, v.flag))

def CommandsRequest.layout : Layout CommandsRequest :=
  (byte.pair wordU32).convert (fun p => ⟨p.1, p.2⟩) (fun v => (v.typ, v.version))

def CommandsResponse.layout : Layout CommandsResponse :=
  (block 32).convert CommandsResponse.mk CommandsResponse.commands

theorem TidResponse.layout_fixed : TidResponse.layout.Fixed 1 :=
  byte_fixed.convert (fun _ => rfl) (fun _ => rfl)

theorem TypesResponse.layout_fixed : TypesResponse.layout.Fixed 8 :=
  (block_fixed 8).convert (fun _ => rfl) (fun _ => rfl)

theorem VersionRequest.layout_fixed : VersionRequest.layout.Fixed 6 :=
  (wordU32_fixed.pair (byte_fixed.pair byte_fixed)).convert (fun _ => rfl) (fun _ => rfl)

theorem VersionResponse.layout_fixed : VersionResponse.layout.Fixed 5 :=
  (wordU32_fixed.pair byte_fixed).convert (fun _ => rfl) (fun _ => rfl)

theorem CommandsRequest.layout_fixed : CommandsRequest.layout.Fixed 5 :=
  (byte_fixed.pair wordU32_fixed).convert (fun _ => rfl) (fun _ => rfl)

theorem CommandsResponse.layout_fixed : CommandsResponse.layout.Fixed 32 :=
  (block_fixed 32).convert (fun _ => rfl) (fun _ => rfl)

end PlatformMessaging.Control

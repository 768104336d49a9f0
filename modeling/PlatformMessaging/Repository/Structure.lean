import PlatformMessaging.Wire.Layout

/-!
# Bodies of repository messages

The data of the repository commands, of their responses and the header at the start of every record.
All but `RecordResponse` have a fixed size (`_fixed`); its record data comes after its own length.
-/

namespace PlatformMessaging.Repository

open Layout

/-- The state and the extent of a repository. Times are 13-byte timestamps. -/
structure InfoResponse where
  state : UInt8
  updateTime : Block 13
  oemUpdateTime : Block 13
  recordCount : UInt32
  size : UInt32
  largestRecordSize : UInt32
  transferHandleTimeout : UInt8
  deriving DecidableEq

/-- Asks for a part of a record. The change number is zero for the first part. -/
structure RecordRequest where
  recordHandle : UInt32
  transferHandle : UInt32
  operation : UInt8
  requestCount : UInt16
  changeNumber : UInt16
  deriving DecidableEq

structure RecordResponse where
  nextRecordHandle : UInt32
  nextTransferHandle : UInt32
  flag : UInt8
  data : Bytes
  deriving DecidableEq

/-- The start of every record. `dataLength` counts what follows it. -/
structure RecordHeader where
  recordHandle : UInt32
  version : UInt8
  typ : UInt8
  changeNumber : UInt16
  dataLength : UInt16
  deriving DecidableEq

def recordHeaderLength : Nat := 10

def InfoResponse.layout : Layout InfoResponse :=
  (byte.pair ((block 13).pair ((block 13).pair
    (wordU32.pair (wordU32.pair (wordU32.pair byte)))))).convert
    (fun p => ⟨p.1, p.2.1, p.2.2.1, p.2.2.2.1, p.2.2.2.2.1, p.2.2.2.2.2.1, p.2.2.2.2.2.2⟩)
    (fun v => (v.state, v.updateTime, v.oemUpdateTime, v.recordCount, v.size,
      v.largestRecordSize, v.transferHandleTimeout))

def RecordRequest.layout : Layout RecordRequest :=
  (wordU32.pair (wordU32.pair (byte.pair (wordU16.pair wordU16)))).convert
    (fun p => ⟨p.1, p.2.1, p.2.2.1, p.2.2.2.1, p.2.2.2.2⟩)
    (fun v => (v.recordHandle, v.transferHandle, v.operation, v.requestCount, v.changeNumber))

def RecordResponse.layout : Layout RecordResponse :=
  (wordU32.pair (wordU32.pair (byte.pair counted))).convert
    (fun p => ⟨p.1, p.2.1, p.2.2.1, p.2.2.2⟩)
    (fun v => (v.nextRecordHandle, v.nextTransferHandle, v.flag, v.data))

def RecordHeader.layout : Layout RecordHeader :=
  (wordU32.pair (byte.pair (byte.pair (wordU16.pair wordU16)))).convert
    (fun p => ⟨p.1, p.2.1, p.2.2.1, p.2.2.2.1, p.2.2.2.2⟩)
    (fun v => (v.recordHandle, v.version, v.typ, v.changeNumber, v.dataLength))

theorem InfoResponse.layout_fixed : InfoResponse.layout.Fixed 40 :=
  (byte_fixed.pair ((block_fixed 13).pair ((block_fixed 13).pair (wordU32_fixed.pair
    (wordU32_fixed.pair (wordU32_fixed.pair byte_fixed)))))).convert (fun _ => rfl) (fun _ => rfl)

theorem RecordRequest.layout_fixed : RecordRequest.layout.Fixed 13 :=
  (wordU32_fixed.pair (wordU32_fixed.pair (byte_fixed.pair
    (wordU16_fixed.pair wordU16_fixed)))).convert (fun _ => rfl) (fun _ => rfl)

theorem RecordHeader.layout_fixed : RecordHeader.layout.Fixed recordHeaderLength :=
  (wordU32_fixed.pair (byte_fixed.pair (byte_fixed.pair
    (wordU16_fixed.pair wordU16_fixed)))).convert (fun _ => rfl) (fun _ => rfl)

end PlatformMessaging.Repository

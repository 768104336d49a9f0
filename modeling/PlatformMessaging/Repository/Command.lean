import PlatformMessaging.Wire.LittleEndian

/-!
# Commands of message type 2

Platform monitoring and control, as far as the repository of platform descriptor records goes: its
commands, completion codes, record types and states.
-/

namespace PlatformMessaging.Repository

/-- The message type of these commands. -/
def messageType : UInt8 := 2

inductive Command where
  | getRepositoryInfo
  | getRecord
  | findRecord
  | getRepositorySignature
  | runInitAgent
  deriving DecidableEq, Repr

namespace Command

def code : Command → UInt8
  | getRepositoryInfo => 0x50
  | getRecord => 0x51
  | findRecord => 0x52
  | getRepositorySignature => 0x53
  | runInitAgent => 0x58

def name : Command → String
  | getRepositoryInfo => "GetPDRRepositoryInfo"
  | getRecord => "GetPDR"
  | findRecord => "FindPDR"
  | getRepositorySignature => "GetPDRRepositorySignature"
  | runInitAgent => "RunInitAgent"

def all : List Command :=
  [getRepositoryInfo, getRecord, findRecord, getRepositorySignature, runInitAgent]

def ofByte? (b : UInt8) : Option Command :=
  all.find? fun c => c.code = b

@[simp] theorem ofByte?_code (c : Command) : ofByte? c.code = some c := by
  cases c <;> rfl

end Command

/-! ## Completion codes of these commands

A requester hands each of them on as it came (`TransferError.completion`). Only the code of an invalid
handle is named elsewhere; the others are the vocabulary of hosts that read such an error.
-/

def invalidDataTransferHandle : UInt8 := 0x80
def invalidTransferOperationFlag : UInt8 := 0x81
def invalidRecordHandle : UInt8 := 0x82
def invalidRecordChangeNumber : UInt8 := 0x83
def transferTimeout : UInt8 := 0x84
def repositoryUpdateInProgress : UInt8 := 0x85

/-! ## Record types -/

/-- What a record describes. -/
inductive RecordType where
  | terminusLocator
  | numericSensor
  | numericSensorInitialization
  | stateSensor
  | stateSensorInitialization
  | sensorAuxiliaryNames
  | oemUnit
  | oemStateSet
  | numericEffecter
  | numericEffecterInitialization
  | stateEffecter
  | stateEffecterInitialization
  | effecterAuxiliaryNames
  | effecterOemSemantic
  | entityAssociation
  | entityAuxiliaryNames
  | oemEntityIdHandle
  | interruptAssociation
  | eventLog
  | fruRecordSet
  | compactNumericSensor
  | redfishResource
  | redfishEntityAssociation
  | redfishAction
  | oem
  deriving DecidableEq, Repr

namespace RecordType

def code : RecordType → UInt8
  | terminusLocator => 1
  | numericSensor => 2
  | numericSensorInitialization => 3
  | stateSensor => 4
  | stateSensorInitialization => 5
  | sensorAuxiliaryNames => 6
  | oemUnit => 7
  | oemStateSet => 8
  | numericEffecter => 9
  | numericEffecterInitialization => 10
  | stateEffecter => 11
  | stateEffecterInitialization => 12
  | effecterAuxiliaryNames => 13
  | effecterOemSemantic => 14
  | entityAssociation => 15
  | entityAuxiliaryNames => 16
  | oemEntityIdHandle => 17
  | interruptAssociation => 18
  | eventLog => 19
  | fruRecordSet => 20
  | compactNumericSensor => 21
  | redfishResource => 22
  | redfishEntityAssociation => 23
  | redfishAction => 24
  | oem => 126

def name : RecordType → String
  | terminusLocator => "TerminusLocator"
  | numericSensor => "NumericSensor"
  | numericSensorInitialization => "NumericSensorInitialization"
  | stateSensor => "StateSensor"
  | stateSensorInitialization => "StateSensorInitialization"
  | sensorAuxiliaryNames => "SensorAuxiliaryNames"
  | oemUnit => "OemUnit"
  | oemStateSet => "OemStateSet"
  | numericEffecter => "NumericEffecter"
  | numericEffecterInitialization => "NumericEffecterInitialization"
  | stateEffecter => "StateEffecter"
  | stateEffecterInitialization => "StateEffecterInitialization"
  | effecterAuxiliaryNames => "EffecterAuxiliaryNames"
  | effecterOemSemantic => "EffecterOemSemantic"
  | entityAssociation => "EntityAssociation"
  | entityAuxiliaryNames => "EntityAuxiliaryNames"
  | oemEntityIdHandle => "OemEntityIdHandle"
  | interruptAssociation => "InterruptAssociation"
  | eventLog => "EventLog"
  | fruRecordSet => "FruRecordSet"
  | compactNumericSensor => "CompactNumericSensor"
  | redfishResource => "RedfishResource"
  | redfishEntityAssociation => "RedfishEntityAssociation"
  | redfishAction => "RedfishActionPdr"
  | oem => "Oem"

def all : List RecordType :=
  [terminusLocator, numericSensor, numericSensorInitialization, stateSensor,
    stateSensorInitialization, sensorAuxiliaryNames, oemUnit, oemStateSet, numericEffecter,
    numericEffecterInitialization, stateEffecter, stateEffecterInitialization,
    effecterAuxiliaryNames, effecterOemSemantic, entityAssociation, entityAuxiliaryNames,
    oemEntityIdHandle, interruptAssociation, eventLog, fruRecordSet, compactNumericSensor,
    redfishResource, redfishEntityAssociation, redfishAction, oem]

def ofByte? (b : UInt8) : Option RecordType :=
  all.find? fun t => t.code = b

@[simp] theorem ofByte?_code (t : RecordType) : ofByte? t.code = some t := by
  cases t <;> rfl

end RecordType

/-! ## Repository states -/

/-- Whether a repository can be read. A requester hands the byte for it on as it came
(`InfoResponse.state`); what it stands for is for hosts to ask. -/
inductive State where
  | available
  | updateInProgress
  | failed
  deriving DecidableEq, Repr

namespace State

def code : State → UInt8
  | available => 0
  | updateInProgress => 1
  | failed => 2

def name : State → String
  | available => "Available"
  | updateInProgress => "UpdateInProgress"
  | failed => "Failed"

def all : List State := [available, updateInProgress, failed]

def ofByte? (b : UInt8) : Option State :=
  all.find? fun s => s.code = b

@[simp] theorem ofByte?_code (s : State) : ofByte? s.code = some s := by
  cases s <;> rfl

end State

end PlatformMessaging.Repository

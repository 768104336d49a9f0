import PlatformMessaging.Message.Error

/-!
# Transfer flags and operations

A record that does not fit one message is sent in parts. Each part carries a `TransferFlag` that
says where it stands in the record; each request carries a `TransferOperation` that asks for the
first part or the next one.
-/

namespace PlatformMessaging

/-- Where a part stands in its record. -/
inductive TransferFlag where
  | start
  | middle
  | finish
  | startAndEnd
  deriving DecidableEq, Repr

namespace TransferFlag

def code : TransferFlag → UInt8
  | start => 1
  | middle => 2
  | finish => 4
  | startAndEnd => 5

def name : TransferFlag → String
  | start => "Start"
  | middle => "Middle"
  | finish => "End"
  | startAndEnd => "StartAndEnd"

def all : List TransferFlag := [start, middle, finish, startAndEnd]

def ofByte (b : UInt8) : Except MessageError TransferFlag :=
  match all.find? fun f => f.code = b with
  | some f => .ok f
  | none => .error (.protocol (.unknownTransferFlag b))

def isStart : TransferFlag → Bool
  | start | startAndEnd => true
  | middle | finish => false

def isEnd : TransferFlag → Bool
  | finish | startAndEnd => true
  | start | middle => false

@[simp] theorem ofByte_code (f : TransferFlag) : ofByte f.code = .ok f := by
  cases f <;> rfl

end TransferFlag

/-- Which part a request asks for. -/
inductive TransferOperation where
  | nextPart
  | firstPart
  deriving DecidableEq, Repr

namespace TransferOperation

def code : TransferOperation → UInt8
  | nextPart => 0
  | firstPart => 1

def name : TransferOperation → String
  | nextPart => "NextPart"
  | firstPart => "FirstPart"

def all : List TransferOperation := [nextPart, firstPart]

def ofByte? (b : UInt8) : Option TransferOperation :=
  all.find? fun o => o.code = b

@[simp] theorem ofByte?_code (o : TransferOperation) : ofByte? o.code = some o := by
  cases o <;> rfl

end TransferOperation

end PlatformMessaging

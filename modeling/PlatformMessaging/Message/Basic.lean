import PlatformMessaging.Message.Error

/-!
# Messages

Every message starts with three bytes: request bit, datagram bit and instance ID; header version and
type; command. A response goes on with a completion code. An instance ID has five bits and a type
six. A `Request` outside of these ranges is not sent; a `Response` is written with the bits that
fit.
-/

namespace PlatformMessaging

/-- The number that pairs a response with its request. -/
abbrev InstanceId := UInt8

namespace Message

/-- The largest message. Messages are lists here and are cut nowhere: this, like the next two sizes, is
for hosts that lay out buffers. -/
def maxSize : Nat := 1024

/-- Bytes of a header. -/
def headerLength : Nat := 3

/-- Bytes of a response's header with its completion code. -/
def responseHeaderLength : Nat := 4

def maxInstanceId : UInt8 := 0x1f

def maxType : UInt8 := 0x3f

end Message

/-- The start of every message. -/
structure Header where
  request : Bool
  datagram : Bool
  iid : InstanceId
  typ : UInt8
  cmd : UInt8
  deriving DecidableEq, Repr

namespace Header

/-- The three bytes of a header, each field cut to its width. -/
def encode (h : Header) : Bytes :=
  [(h.iid &&& 0x1f) ||| (if h.request then 0x80 else 0) ||| (if h.datagram then 0x40 else 0),
    h.typ &&& 0x3f, h.cmd]

/-- Reads a header, leaving what follows it. Only header version zero is known. -/
def decode : Bytes → Except MessageError (Header × Bytes)
  | b0 :: b1 :: b2 :: rest =>
    if b1 &&& 0xc0 ≠ 0 then
      .error (.protocol (.unsupportedVersion (b1 >>> 6)))
    else
      .ok (⟨b0 &&& 0x80 ≠ 0, b0 &&& 0x40 ≠ 0, b0 &&& 0x1f, b1 &&& 0x3f, b2⟩, rest)
  | short => .error (.protocol (.shortHeader short.length))

end Header

/-- What is asked of an endpoint. The instance ID is chosen when it is sent. -/
structure Request where
  typ : UInt8
  cmd : UInt8
  data : Bytes := []
  deriving DecidableEq, Repr

/-- What an endpoint answers. -/
structure Response where
  iid : InstanceId
  typ : UInt8
  cmd : UInt8
  code : UInt8
  data : Bytes
  deriving DecidableEq, Repr

namespace Request

/-- The message that makes a request under an instance ID. -/
def encode (r : Request) (iid : InstanceId) : Except MessageError Bytes :=
  if Message.maxInstanceId < iid ∨ Message.maxType < r.typ then
    .error .invalidArgument
  else
    .ok (Header.encode ⟨true, false, iid, r.typ, r.cmd⟩ ++ r.data)

/-- The successful response to a request that carries no data yet. -/
def response (r : Request) (iid : InstanceId) : Response :=
  ⟨iid, r.typ, r.cmd, CompletionCode.success.code, []⟩

end Request

namespace Response

/-- The response whose header held the given fields and was followed by `rest`. -/
def ofParts (iid : InstanceId) (typ cmd : UInt8) : Bytes → Except MessageError Response
  | [] => .error (.protocol .missingCompletionCode)
  | code :: data => .ok ⟨iid, typ, cmd, code, data⟩

def decode (msg : Bytes) : Except MessageError Response :=
  match Header.decode msg with
  | .error e => .error e
  | .ok (h, rest) =>
    if h.request then .error (.protocol .notResponse)
    else ofParts h.iid h.typ h.cmd rest

def encode (r : Response) : Bytes :=
  Header.encode ⟨false, false, r.iid, r.typ, r.cmd⟩ ++ r.code :: r.data

/-- Accepts a successful response and reports any other completion code. -/
def succeeded (r : Response) : Except MessageError Unit :=
  if r.code = CompletionCode.success.code then .ok ()
  else .error (.protocol (.failure r.code))

end Response

end PlatformMessaging

import Muduo.Machine.Loop
import Muduo.Machine.Size
import Muduo.Net.Buffer

/-!
# The FastCGI codec

`FastCgiCodec` of `fastcgi/fastcgi.{h,cc}`: the parser of the records that a web server sends, and
the records of a response.

A `std::map` is its lookup function. The calls of `cb_` are recorded with the parameters and the
bytes of `stdin_` that it is given; whatever it does to them, they are cleared afterwards.
-/

namespace Muduo

open Machine

/-- `hostToNetwork16`, and `networkToHost16` as well. -/
def swap16 (x : UInt16) : UInt16 := UInt16.ofNat (byteSwap 2 x.toNat)

/-- The type of a record. -/
inductive FcgiType where
  | kFcgiInvalid
  | kFcgiBeginRequest
  | kFcgiAbortRequest
  | kFcgiEndRequest
  | kFcgiParams
  | kFcgiStdin
  | kFcgiStdout
  | kFcgiStderr
  | kFcgiData
  | kFcgiGetValues
  | kFcgiGetValuesResult
  deriving DecidableEq, Repr

def FcgiType.value : FcgiType → UInt8
  | .kFcgiInvalid => 0
  | .kFcgiBeginRequest => 1
  | .kFcgiAbortRequest => 2
  | .kFcgiEndRequest => 3
  | .kFcgiParams => 4
  | .kFcgiStdin => 5
  | .kFcgiStdout => 6
  | .kFcgiStderr => 7
  | .kFcgiData => 8
  | .kFcgiGetValues => 9
  | .kFcgiGetValuesResult => 10

/-- `FcgiRole`. -/
def kFcgiResponder : ℕ := 1

/-- `FcgiConstant`. -/
def kFcgiKeepConn : UInt8 := 1

structure RecordHeader where
  version : UInt8
  type : UInt8
  id : UInt16
  length : UInt16
  padding : UInt8
  unused : UInt8
  deriving DecidableEq, Repr

namespace RecordHeader

/-- The memory of a header. -/
def bytes (h : RecordHeader) : List UInt8 :=
  [h.version, h.type] ++ leBytes 2 h.id.toNat ++ leBytes 2 h.length.toNat ++ [h.padding, h.unused]

/-- The header that has these bytes in memory. -/
def ofBytes (l : List UInt8) : RecordHeader where
  version := l.getD 0 0
  type := l.getD 1 0
  id := UInt16.ofNat (ofLeBytes (slice l 2 4))
  length := UInt16.ofNat (ofLeBytes (slice l 4 6))
  padding := l.getD 6 0
  unused := l.getD 7 0

/-- The header that is read from the network. -/
def ofNetwork (l : List UInt8) : RecordHeader :=
  let header := ofBytes l
  { header with id := swap16 header.id, length := swap16 header.length }

end RecordHeader

structure FastCgiCodec where
  gotRequest : Bool
  keepConn : Bool
  stdin : Buffer
  paramsStream : Buffer
  params : List UInt8 → Option (List UInt8)

namespace FastCgiCodec

def kRecordHeader : ℕ := 8

def new : FastCgiCodec := ⟨false, false, .new, .new, fun _ => none⟩

/-! ### Parameters -/

/-- The length at the front of `paramsStream_`. `-1` says that it is not there. -/
def readLen (stream : Buffer) : Code (BitVec 32 × Buffer) :=
  if 1 ≤ stream.readableBytes then do
    let byte : BitVec 8 ← stream.peekInt 1
    if byte &&& 0x80#8 ≠ 0#8 then
      if 4 ≤ stream.readableBytes then do
        let (len, stream) ← (stream.readInt 4 : Code (BitVec 32 × Buffer))
        return (len &&& 0x7fffffff#32, stream)
      else
        return (-1#32, stream)
    else do
      let (len, stream) ← (stream.readInt 1 : Code (BitVec 8 × Buffer))
      -- `readInt8` returns an `int8_t`.
      return (len.signExtend 32, stream)
  else
    return (-1#32, stream)

/-- A round of the loop of `parseAllParams`, with what the function returns if it is the last. -/
def paramRound (s : Bool × FastCgiCodec) : Code (Round (Bool × FastCgiCodec)) :=
  let c := s.2
  if 0 < c.paramsStream.readableBytes then do
    let (nameLen, stream) ← readLen c.paramsStream
    if nameLen = -1#32 then
      return .stop (false, { c with paramsStream := stream })
    else do
      let (valueLen, stream) ← readLen stream
      if valueLen = -1#32 then
        return .stop (false, { c with paramsStream := stream })
      else if (nameLen + valueLen).toNat ≤ stream.readableBytes then do
        let (name, stream) ← stream.retrieveAsString nameLen.toNat
        let (value, stream) ← stream.retrieveAsString valueLen.toNat
        return .again (true, { c with
          paramsStream := stream
          params := Function.update c.params name (some value) })
      else
        return .stop (false, { c with paramsStream := stream })
  else
    return .stop (true, c)

def parseAllParams (c : FastCgiCodec) : Code (Bool × FastCgiCodec) :=
  loop .outOfFuel paramRound (fun s => s.2.paramsStream.readableBytes) (true, c)

def onParams (c : FastCgiCodec) (content : List UInt8) : Code (Bool × FastCgiCodec) :=
  if 0 < content.length then do
    let stream ← c.paramsStream.append content
    return (true, { c with paramsStream := stream })
  else
    c.parseAllParams

/-! ### Records -/

def onStdin (c : FastCgiCodec) (content : List UInt8) : Code FastCgiCodec :=
  if 0 < content.length then do
    let stdin ← c.stdin.append content
    return { c with stdin := stdin }
  else
    return { c with gotRequest := true }

/-- `readInt16`. -/
def readInt16 (p : List UInt8) : ℕ := (swap16 (UInt16.ofNat (ofLeBytes (p.take 2)))).toNat

def onBeginRequest (c : FastCgiCodec) (header : RecordHeader) (buf : Buffer) :
    Code (Bool × FastCgiCodec) := do
  check .fastcgiBeginLength (header.length.toNat ≤ buf.readableBytes)
  check .fastcgiBeginType (header.type = FcgiType.kFcgiBeginRequest.value)
  if kRecordHeader ≤ header.length.toNat then do
    check .bufferOverrun (kRecordHeader + 2 < buf.readableBytes)
    let role := readInt16 (buf.readable.drop kRecordHeader)
    let flags := buf.readable.getD (kRecordHeader + 2) 0
    if role = kFcgiResponder then
      return (true, { c with keepConn := flags = kFcgiKeepConn })
    else
      return (false, c)
  else
    return (false, c)

/-- The `switch` of `parseRequest`, which looks at no result. -/
def onRecord (c : FastCgiCodec) (header : RecordHeader) (buf : Buffer) : Code FastCgiCodec :=
  let content := (buf.readable.drop kRecordHeader).take header.length.toNat
  if header.type = FcgiType.kFcgiBeginRequest.value then
    Prod.snd <$> c.onBeginRequest header buf
  else if header.type = FcgiType.kFcgiParams.value then
    Prod.snd <$> c.onParams content
  else if header.type = FcgiType.kFcgiStdin.value then
    c.onStdin content
  else
    return c

def recordRound (s : FastCgiCodec × Buffer) : Code (Round (FastCgiCodec × Buffer)) :=
  let buf := s.2
  if kRecordHeader ≤ buf.readableBytes then
    let header := RecordHeader.ofNetwork (buf.readable.take kRecordHeader)
    let total := kRecordHeader + header.length.toNat + header.padding.toNat
    if total ≤ buf.readableBytes then do
      let c ← s.1.onRecord header buf
      let buf ← buf.retrieve total
      return .again (c, buf)
    else
      return .stop s
  else
    return .stop s

/-- `parseRequest` returns true. -/
def parseRequest (c : FastCgiCodec) (buf : Buffer) : Code (FastCgiCodec × Buffer) :=
  loop .outOfFuel recordRound (fun s => s.2.readableBytes) (c, buf)

inductive Call where
  | cb (params : List UInt8 → Option (List UInt8)) (stdin : List UInt8)
  | shutdown

/-- A connection: its codec, its input buffer, and the calls made so far. -/
structure Connection where
  codec : FastCgiCodec
  buf : Buffer
  calls : List Call

def onMessage (s : Connection) : Code Connection := do
  let (c, buf) ← parseRequest s.codec s.buf
  if c.gotRequest then
    return {
      codec := { c with
        stdin := c.stdin.retrieveAll
        paramsStream := c.paramsStream.retrieveAll
        params := fun _ => none
        gotRequest := false }
      buf
      calls := s.calls ++ [.cb c.params c.stdin.readable] ++
        if c.keepConn then [] else [.shutdown] }
  else
    return { s with codec := c, buf }

/-- The bytes `chunk` arrive. -/
def receive (s : Connection) (chunk : List UInt8) : Code Connection := do
  let buf ← s.buf.append chunk
  onMessage { s with buf }

def connect : Connection := ⟨.new, .new, []⟩

/-! ### Responses -/

def endStdout (buf : Buffer) : Code Buffer :=
  let header : RecordHeader :=
    { version := 1
      type := FcgiType.kFcgiStdout.value
      id := swap16 1
      length := 0
      padding := 0
      unused := 0 }
  buf.append header.bytes

def endRequest (buf : Buffer) : Code Buffer := do
  let header : RecordHeader :=
    { version := 1
      type := FcgiType.kFcgiEndRequest.value
      id := swap16 1
      length := swap16 (UInt16.ofNat kRecordHeader)
      padding := 0
      unused := 0 }
  let buf ← buf.append header.bytes
  let buf ← buf.appendInt32 0
  buf.appendInt32 0

/-- The header of the record that holds the content of the response. -/
def stdoutHeader (response : Buffer) : RecordHeader where
  version := 1
  type := FcgiType.kFcgiStdout.value
  id := swap16 1
  length := swap16 (UInt16.ofNat response.readableBytes)
  padding := UInt8.ofNat (subSize 0 response.readableBytes &&& 7)
  unused := 0

/-- The header is put in front of the content and the padding behind it. Without the room for it,
or with too much content, there is no header. -/
def frameContent (response : Buffer) : Code Buffer :=
  if response.readableBytes < 65536 ∧ kRecordHeader ≤ response.prependableBytes then do
    let header := stdoutHeader response
    let response ← response.prepend header.bytes
    response.append ((List.replicate 8 0).take header.padding.toNat)
  else
    return response

def respond (response : Buffer) : Code Buffer := do
  let response ← frameContent response
  let response ← endStdout response
  endRequest response

end FastCgiCodec

end Muduo

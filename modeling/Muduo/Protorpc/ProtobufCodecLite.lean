import Muduo.Machine.Loop
import Muduo.Net.Buffer

/-!
# The codec of protobuf messages

`ProtobufCodecLite` of `protorpc/muduo_protobuf_codec/ProtobufCodecLite.{h,cc}`. A frame is the
length of what follows, the tag, the payload and the checksum of tag and payload.

The message library and `adler32` are parameters: `Protobuf` holds what the codec asks of the
library, for the type of messages that `prototype_` stands for. The calls of the callbacks are
recorded in the order in which they are made.
-/

namespace Muduo

open Machine

/-- What the codec asks of the message library. -/
structure Protobuf (M : Type) where
  isInitialized : M → Bool
  byteSize : M → ℕ
  serializeWithCachedSizesToArray : M → List UInt8
  parseFromArray : List UInt8 → Option M

/-- The library as it is documented: it writes as many bytes as it says, reads what it has written,
and reads no message that lacks a required field. -/
structure Protobuf.Lawful {M : Type} (P : Protobuf M) : Prop where
  byteSize : ∀ m, P.byteSize m = (P.serializeWithCachedSizesToArray m).length
  parse_serialize : ∀ m, P.parseFromArray (P.serializeWithCachedSizesToArray m) = some m
  isInitialized : ∀ bytes m, P.parseFromArray bytes = some m → P.isInitialized m = true

/-- `ErrorCode`, where `kNoError` is the `ok` of `parse`. -/
inductive ProtobufCodecLite.ErrorCode where
  | kInvalidLength
  | kCheckSumError
  | kInvalidNameLen
  | kUnknownMessageType
  | kParseError
  deriving DecidableEq, Repr

/-- A call of `rawCb_`, `messageCallback_` or `errorCallback_`. -/
inductive Callback (M : Type) where
  | raw (frame : List UInt8)
  | message (m : M)
  | error (code : ProtobufCodecLite.ErrorCode)
  deriving DecidableEq, Repr

/-- The messages handed to `messageCallback_`. -/
def messages {M : Type} (calls : List (Callback M)) : List M :=
  calls.filterMap fun
    | .message m => some m
    | .raw _ | .error _ => none

/-- The input buffer of a connection, and the callbacks called so far. -/
structure Input (M : Type) where
  buf : Buffer
  calls : List (Callback M)

def kHeaderLen : ℕ := 4

def kChecksumLen : ℕ := 4

def kMaxMessageLen : ℕ := 64 * 1024 * 1024

/-- `errorCallback` says what the callback does to the buffer. The length of a `StringPiece` is an
`int`, and so are the sums that are made of it. -/
structure ProtobufCodecLite (M : Type) where
  prototype : Protobuf M
  adler32 : List UInt8 → UInt32
  tag : List UInt8
  tag_fits : tag.length + kChecksumLen + kHeaderLen < 2 ^ 31
  rawCb : Option (List UInt8 → Bool)
  errorCallback : ProtobufCodecLite.ErrorCode → Buffer → Code Buffer

namespace ProtobufCodecLite

variable {M : Type}

/-- `defaultErrorCallback` shuts the connection down, and leaves the buffer alone. -/
def defaultErrorCallback (_ : ErrorCode) (buf : Buffer) : Code Buffer := pure buf

def kMinMessageLen (c : ProtobufCodecLite M) : ℕ := c.tag.length + kChecksumLen

def asInt32 (buf : List UInt8) : BitVec 32 :=
  BitVec.ofNat 32 (byteSwap 4 (ofLeBytes (buf.take 4)))

def checksum (c : ProtobufCodecLite M) (buf : List UInt8) : BitVec 32 := (c.adler32 buf).toBitVec

def validateChecksum (c : ProtobufCodecLite M) (buf : List UInt8) : Bool :=
  let len := buf.length
  let expectedCheckSum := asInt32 (buf.drop (len - kChecksumLen))
  let checkSum := c.checksum (buf.take (len - kChecksumLen))
  checkSum = expectedCheckSum

def parseFromBuffer (c : ProtobufCodecLite M) (buf : List UInt8) : Option M :=
  c.prototype.parseFromArray buf

def parse (c : ProtobufCodecLite M) (buf : List UInt8) : Except ErrorCode M :=
  if c.validateChecksum buf then
    if buf.take c.tag.length = c.tag then
      let data := buf.drop c.tag.length
      let dataLen := buf.length - kChecksumLen - c.tag.length
      match c.parseFromBuffer (data.take dataLen) with
      | some message => .ok message
      | none => .error .kParseError
    else
      .error .kUnknownMessageType
  else
    .error .kCheckSumError

/-- `rawCb_ && !rawCb_(…)`, with the call recorded. -/
def raw (c : ProtobufCodecLite M) (calls : List (Callback M)) (frame : List UInt8) :
    Bool × List (Callback M) :=
  match c.rawCb with
  | some cb => (!cb frame, calls ++ [.raw frame])
  | none => (false, calls)

/-- `errorCallback_(conn, buf, receiveTime, code); break;`. -/
def reject (c : ProtobufCodecLite M) (s : Input M) (code : ErrorCode) : Code (Round (Input M)) := do
  let buf ← c.errorCallback code s.buf
  return .stop ⟨buf, s.calls ++ [.error code]⟩

/-- The round that has a whole frame in front of it, with `len` bytes behind the header. -/
def takeFrame (c : ProtobufCodecLite M) (s : Input M) (len : ℕ) : Code (Round (Input M)) :=
  let (skip, calls) := c.raw s.calls (s.buf.readable.take (kHeaderLen + len))
  if skip then do
    let buf ← s.buf.retrieve (kHeaderLen + len)
    return .again ⟨buf, calls⟩
  else
    match c.parse ((s.buf.readable.drop kHeaderLen).take len) with
    | .ok message => do
      let buf ← s.buf.retrieve (kHeaderLen + len)
      return .again ⟨buf, calls ++ [.message message]⟩
    | .error errorCode => c.reject ⟨s.buf, calls⟩ errorCode

/-- One round of the loop in `onMessage`. -/
def round (c : ProtobufCodecLite M) (s : Input M) : Code (Round (Input M)) :=
  if c.kMinMessageLen + kHeaderLen ≤ s.buf.readableBytes then do
    let len ← s.buf.peekInt32
    if kMaxMessageLen < len.toInt ∨ len.toInt < c.kMinMessageLen then
      c.reject s .kInvalidLength
    else if kHeaderLen + len.toNat ≤ s.buf.readableBytes then
      c.takeFrame s len.toNat
    else
      return .stop s
  else
    return .stop s

def onMessage (c : ProtobufCodecLite M) (s : Input M) : Code (Input M) :=
  loop .outOfFuel c.round (fun s => s.buf.readableBytes) s

/-- A chunk arrives. -/
def receive (c : ProtobufCodecLite M) (s : Input M) (chunk : List UInt8) : Code (Input M) := do
  let buf ← s.buf.append chunk
  c.onMessage ⟨buf, s.calls⟩

/-- `SerializeWithCachedSizesToArray` writes at `beginWrite()`, whatever there is room for. -/
def serializeToBuffer (c : ProtobufCodecLite M) (message : M) (buf : Buffer) :
    Code (ℕ × Buffer) := do
  check .serializeInitialized (c.prototype.isInitialized message = true)
  let byteSize := c.prototype.byteSize message
  check .serializeIntSize (byteSize + kChecksumLen < 2 ^ 31)
  let ⟨buf, _⟩ ← buf.ensureWritableBytes (byteSize + kChecksumLen)
  let bytes := c.prototype.serializeWithCachedSizesToArray message
  if h : bytes.length ≤ buf.writableBytes then
    check .serializeByteSize (bytes.length = byteSize)
    let buf ← (buf.copyIn bytes h).hasWritten byteSize
    return (byteSize, buf)
  else
    .error (.failed .bufferOverrun)

def fillEmptyBuffer (c : ProtobufCodecLite M) (buf : Buffer) (message : M) : Code Buffer := do
  check .fillNonemptyBuffer (buf.readableBytes = 0)
  let buf ← buf.append c.tag
  let (byteSize, buf) ← c.serializeToBuffer message buf
  let checkSum := c.checksum buf.readable
  let buf ← buf.appendInt32 checkSum
  check .fillLength (buf.readableBytes = c.tag.length + byteSize + kChecksumLen)
  buf.prepend (Buffer.networkBytes 4 (BitVec.ofNat 32 buf.readableBytes))

end ProtobufCodecLite

end Muduo

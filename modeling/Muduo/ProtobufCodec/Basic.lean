import Muduo.Protorpc.ProtobufCodecLite

/-!
# The codec of messages of several types

`ProtobufCodec` of `protobuf/codec/codec.{h,cc}`. The body of a frame holds the length and the
text of the type's name, the payload, and the checksum of all that. A message is read by the name
that its frame gives.

Lengths and offsets are `int`s, and one of them comes from the frame: they are integers here, and a
read that leaves the frame is a fault.
-/

namespace Muduo

open Machine

/-- What the codec asks of the message library, for the messages `M` of all types together, with
their descriptors `D`. `getPrototype` is the message that `New` makes a copy of; `parseFromArray`
says whether the message could be read, and what has become of it. -/
structure MessageLibrary (D M : Type) where
  getTypeName : M → List UInt8
  isInitialized : M → Bool
  byteSize : M → ℕ
  serializeWithCachedSizesToArray : M → List UInt8
  findMessageTypeByName : List UInt8 → Option D
  getPrototype : D → Option M
  parseFromArray : M → List UInt8 → Bool × M

namespace ProtobufCodec

inductive ErrorCode where
  | kNoError
  | kInvalidLength
  | kCheckSumError
  | kInvalidNameLen
  | kUnknownMessageType
  | kParseError
  deriving DecidableEq, Repr

/-- A call of `messageCallback_` or `errorCallback_`. -/
inductive Call (M : Type) where
  | message (m : M)
  | error (code : ErrorCode)
  deriving DecidableEq, Repr

/-- The input buffer of a connection, and the callbacks called so far. -/
structure Input (M : Type) where
  buf : Buffer
  calls : List (Call M)

/-- What `parse` returns, and the place and the length of the bytes that it hands to
`ParseFromArray`. -/
structure Parsed (M : Type) where
  message : Option M
  error : ErrorCode
  span : Option (ℤ × ℤ)
  deriving DecidableEq, Repr

def kMinMessageLen : ℕ := 2 * kHeaderLen + 2

end ProtobufCodec

/-- `errorCallback` says what the callback does to the buffer. -/
structure ProtobufCodec (D M : Type) where
  library : MessageLibrary D M
  adler32 : List UInt8 → UInt32
  errorCallback : ProtobufCodec.ErrorCode → Buffer → Code Buffer

namespace ProtobufCodec

open ProtobufCodecLite (asInt32)

variable {D M : Type}

/-- `defaultErrorCallback` shuts the connection down, and leaves the buffer alone. -/
def defaultErrorCallback (_ : ErrorCode) (buf : Buffer) : Code Buffer := pure buf

def createMessage (c : ProtobufCodec D M) (typeName : List UInt8) : Option M := do
  let descriptor ← c.library.findMessageTypeByName typeName
  c.library.getPrototype descriptor

/-- The `n` bytes from `buf + i` on, which have to be in the buffer. -/
def bytesAt (buf : List UInt8) (i n : ℤ) : Code (List UInt8) := do
  check .codecOverrun (0 ≤ i ∧ 0 ≤ n ∧ i + n ≤ buf.length)
  return slice buf i.toNat (i + n).toNat

/-- The part of `parse` behind the name. -/
def parseData (c : ProtobufCodec D M) (buf : List UInt8) (nameLen : ℤ) (message : M) :
    Code (Parsed M) := do
  let data := kHeaderLen + nameLen
  let dataLen := buf.length - nameLen - 2 * kHeaderLen
  let bytes ← bytesAt buf data dataLen
  let (parsed, message) := c.library.parseFromArray message bytes
  return ⟨some message, if parsed then .kNoError else .kParseError, some (data, dataLen)⟩

def parse (c : ProtobufCodec D M) (buf : List UInt8) : Code (Parsed M) := do
  let len : ℤ := buf.length
  let expectedCheckSum ← asInt32 <$> bytesAt buf (len - kHeaderLen) 4
  let checkSum ← (fun bytes => (c.adler32 bytes).toBitVec) <$> bytesAt buf 0 (len - kHeaderLen)
  if checkSum = expectedCheckSum then
    let nameLen ← (fun bytes => (asInt32 bytes).toInt) <$> bytesAt buf 0 4
    if 2 ≤ nameLen ∧ nameLen ≤ len - 2 * kHeaderLen then
      let typeName ← bytesAt buf kHeaderLen (nameLen - 1)
      match c.createMessage typeName with
      | some message => c.parseData buf nameLen message
      | none => return ⟨none, .kUnknownMessageType, none⟩
    else
      return ⟨none, .kInvalidNameLen, none⟩
  else
    return ⟨none, .kCheckSumError, none⟩

/-- `errorCallback_(conn, buf, receiveTime, code); break;`. -/
def reject (c : ProtobufCodec D M) (s : Input M) (code : ErrorCode) : Code (Round (Input M)) := do
  let buf ← c.errorCallback code s.buf
  return .stop ⟨buf, s.calls ++ [.error code]⟩

/-- The round that has a whole frame in front of it, with `len` bytes behind the header. -/
def takeFrame (c : ProtobufCodec D M) (s : Input M) (len : ℕ) : Code (Round (Input M)) := do
  let r ← c.parse ((s.buf.readable.drop kHeaderLen).take len)
  match r.error, r.message with
  | .kNoError, some message => do
    let buf ← s.buf.retrieve (kHeaderLen + len)
    return .again ⟨buf, s.calls ++ [.message message]⟩
  | code, _ => c.reject s code

/-- One round of the loop in `onMessage`. -/
def round (c : ProtobufCodec D M) (s : Input M) : Code (Round (Input M)) :=
  if kMinMessageLen + kHeaderLen ≤ s.buf.readableBytes then do
    let len ← s.buf.peekInt32
    if kMaxMessageLen < len.toInt ∨ len.toInt < kMinMessageLen then
      c.reject s .kInvalidLength
    else if len.toNat + kHeaderLen ≤ s.buf.readableBytes then
      c.takeFrame s len.toNat
    else
      return .stop s
  else
    return .stop s

def onMessage (c : ProtobufCodec D M) (s : Input M) : Code (Input M) :=
  loop .outOfFuel c.round (fun s => s.buf.readableBytes) s

/-- The middle of `fillEmptyBuffer`, which is also that of `SerializeToArray`. The library writes at
`beginWrite()`, whatever there is room for. -/
def serializeToBuffer (c : ProtobufCodec D M) (buf : Buffer) (message : M) :
    Code (ℕ × Buffer) := do
  check .codecInitialized (c.library.isInitialized message = true)
  let byteSize := c.library.byteSize message
  check .codecIntSize (byteSize < 2 ^ 31)
  let ⟨buf, _⟩ ← buf.ensureWritableBytes byteSize
  let bytes := c.library.serializeWithCachedSizesToArray message
  if h : bytes.length ≤ buf.writableBytes then
    check .codecByteSize (bytes.length = byteSize)
    let buf ← (buf.copyIn bytes h).hasWritten byteSize
    return (byteSize, buf)
  else
    .error (.failed .codecOverrun)

/-- The name is written with the zero behind it. A length that is not an `int` would make
`append` read beyond it. -/
def fillEmptyBuffer (c : ProtobufCodec D M) (buf : Buffer) (message : M) : Code Buffer := do
  check .codecFillNonempty (buf.readableBytes = 0)
  let typeName := c.library.getTypeName message
  let nameLen := typeName.length + 1
  check .codecNameLength (nameLen < 2 ^ 31)
  let buf ← buf.appendInt32 (BitVec.ofNat 32 nameLen)
  let buf ← buf.append (typeName ++ [0])
  let (byteSize, buf) ← c.serializeToBuffer buf message
  let checkSum := (c.adler32 buf.readable).toBitVec
  let buf ← buf.appendInt32 checkSum
  check .codecFillLength (buf.readableBytes = 4 + nameLen + byteSize + 4)
  buf.prepend (Buffer.networkBytes 4 (BitVec.ofNat 32 buf.readableBytes))

end ProtobufCodec

end Muduo

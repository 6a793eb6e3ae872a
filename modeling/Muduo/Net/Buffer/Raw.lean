import Muduo.Machine.Size
import Muduo.Net.Buffer

/-!
# Buffer with machine sizes

The members of `muduo/net/Buffer.h` on the bare fields, a block of bytes and two indices of type
`size_t` that wrap around. Nothing keeps the indices in order but the code itself. A copy that
leaves the block is a fault, and a `resize` beyond `max_size()` throws and is not a step.

`Buffer` is the same class with its invariant: `Represents` says that the fields are those of a
well-formed buffer with given readable bytes.
-/

namespace Muduo

open Machine

structure RawBuffer where
  buffer : List UInt8
  readerIndex : ℕ
  writerIndex : ℕ
  deriving DecidableEq, Repr

namespace RawBuffer

/-- `std::vector<char>::max_size()`. -/
def maxSize : ℕ := 2 ^ 63 - 1

def new (initialSize : ℕ := kInitialSize) : RawBuffer :=
  ⟨List.replicate (kCheapPrepend + initialSize) 0, kCheapPrepend, kCheapPrepend⟩

def readableBytes (b : RawBuffer) : ℕ := subSize b.writerIndex b.readerIndex

def writableBytes (b : RawBuffer) : ℕ := subSize b.buffer.length b.writerIndex

def prependableBytes (b : RawBuffer) : ℕ := b.readerIndex

/-- The `len` bytes from `begin() + i` on. -/
def bytesAt (b : RawBuffer) (i len : ℕ) : Code (List UInt8) := do
  check .bufferOverrun (i + len ≤ b.buffer.length)
  return slice b.buffer i (i + len)

/-- `std::copy` of `data` to `begin() + i`. -/
def copyTo (b : RawBuffer) (i : ℕ) (data : List UInt8) : Code RawBuffer := do
  check .bufferOverrun (i + data.length ≤ b.buffer.length)
  return { b with buffer := copyAt b.buffer i data }

def retrieveAll (b : RawBuffer) : RawBuffer :=
  { b with readerIndex := kCheapPrepend, writerIndex := kCheapPrepend }

def retrieve (b : RawBuffer) (len : ℕ) : Code RawBuffer := do
  check .bufferRetrieve (len ≤ b.readableBytes)
  if len < b.readableBytes then
    return { b with readerIndex := addSize b.readerIndex len }
  else
    return b.retrieveAll

def retrieveAsString (b : RawBuffer) (len : ℕ) : Code (List UInt8 × RawBuffer) := do
  check .bufferRetrieve (len ≤ b.readableBytes)
  let result ← b.bytesAt b.readerIndex len
  let b ← b.retrieve len
  return (result, b)

def retrieveAllAsString (b : RawBuffer) : Code (List UInt8 × RawBuffer) :=
  b.retrieveAsString b.readableBytes

def makeSpace (b : RawBuffer) (len : ℕ) : Code RawBuffer :=
  if addSize b.writableBytes b.prependableBytes < addSize len kCheapPrepend then do
    let size := addSize b.writerIndex len
    require (size ≤ maxSize)
    return { b with buffer := resize b.buffer size 0 }
  else do
    check .bufferMakeSpaceFront (kCheapPrepend < b.readerIndex)
    let readable := b.readableBytes
    let bytes ← b.bytesAt b.readerIndex readable
    let b ← b.copyTo kCheapPrepend bytes
    let b := { b with
      readerIndex := kCheapPrepend, writerIndex := addSize kCheapPrepend readable }
    check .bufferMakeSpaceReadable (readable = b.readableBytes)
    return b

def ensureWritableBytes (b : RawBuffer) (len : ℕ) : Code RawBuffer := do
  let b ← if b.writableBytes < len then b.makeSpace len else pure b
  check .bufferEnsureWritable (len ≤ b.writableBytes)
  return b

def hasWritten (b : RawBuffer) (len : ℕ) : Code RawBuffer := do
  check .bufferHasWritten (len ≤ b.writableBytes)
  return { b with writerIndex := addSize b.writerIndex len }

/-- The caller writes `data` at `beginWrite()` and calls `hasWritten`. -/
def write (b : RawBuffer) (data : List UInt8) : Code RawBuffer := do
  let b ← b.copyTo b.writerIndex data
  b.hasWritten data.length

def append (b : RawBuffer) (data : List UInt8) : Code RawBuffer := do
  let b ← b.ensureWritableBytes data.length
  let b ← b.copyTo b.writerIndex data
  b.hasWritten data.length

/-- The length of a `StringPiece`, an `int`, as `append` takes it, a `size_t`. -/
def pieceSize (length : ℕ) : ℕ := (Int.bmod length (2 ^ 32) % (sizeMod : ℤ)).toNat

/-- `append` of a `StringPiece` that is made of `str`. -/
def appendPiece (b : RawBuffer) (str : List UInt8) : Code RawBuffer := do
  let len := pieceSize str.length
  let b ← b.ensureWritableBytes len
  check .bufferOverrun (len ≤ str.length)
  let b ← b.copyTo b.writerIndex (str.take len)
  b.hasWritten len

def unwrite (b : RawBuffer) (len : ℕ) : Code RawBuffer := do
  check .bufferUnwrite (len ≤ b.readableBytes)
  return { b with writerIndex := subSize b.writerIndex len }

def prepend (b : RawBuffer) (data : List UInt8) : Code RawBuffer := do
  check .bufferPrepend (data.length ≤ b.prependableBytes)
  let b := { b with readerIndex := subSize b.readerIndex data.length }
  b.copyTo b.readerIndex data

/-- The bytes go through `toStringPiece()`. -/
def shrink (b : RawBuffer) (reserve : ℕ) : Code RawBuffer := do
  let other ← new.ensureWritableBytes (addSize b.readableBytes reserve)
  let bytes ← b.bytesAt b.readerIndex (pieceSize b.readableBytes)
  other.append bytes

/-! ### Integers in network order -/

def appendInt (b : RawBuffer) (n : ℕ) (x : BitVec (8 * n)) : Code RawBuffer :=
  b.append (Buffer.networkBytes n x)

def appendInt8 (b : RawBuffer) (x : BitVec 8) : Code RawBuffer := b.appendInt 1 x

def appendInt16 (b : RawBuffer) (x : BitVec 16) : Code RawBuffer := b.appendInt 2 x

def appendInt32 (b : RawBuffer) (x : BitVec 32) : Code RawBuffer := b.appendInt 4 x

def appendInt64 (b : RawBuffer) (x : BitVec 64) : Code RawBuffer := b.appendInt 8 x

def prependInt (b : RawBuffer) (n : ℕ) (x : BitVec (8 * n)) : Code RawBuffer :=
  b.prepend (Buffer.networkBytes n x)

def prependInt8 (b : RawBuffer) (x : BitVec 8) : Code RawBuffer := b.prependInt 1 x

def prependInt16 (b : RawBuffer) (x : BitVec 16) : Code RawBuffer := b.prependInt 2 x

def prependInt32 (b : RawBuffer) (x : BitVec 32) : Code RawBuffer := b.prependInt 4 x

def prependInt64 (b : RawBuffer) (x : BitVec 64) : Code RawBuffer := b.prependInt 8 x

def peekInt (b : RawBuffer) (n : ℕ) : Code (BitVec (8 * n)) := do
  check .bufferPeekInt (n ≤ b.readableBytes)
  let bytes ← b.bytesAt b.readerIndex n
  return BitVec.ofNat (8 * n) (byteSwap n (ofLeBytes bytes))

def peekInt8 (b : RawBuffer) : Code (BitVec 8) := b.peekInt 1

def peekInt16 (b : RawBuffer) : Code (BitVec 16) := b.peekInt 2

def peekInt32 (b : RawBuffer) : Code (BitVec 32) := b.peekInt 4

def peekInt64 (b : RawBuffer) : Code (BitVec 64) := b.peekInt 8

def readInt (b : RawBuffer) (n : ℕ) : Code (BitVec (8 * n) × RawBuffer) := do
  let result ← b.peekInt n
  let b ← b.retrieve n
  return (result, b)

def readInt8 (b : RawBuffer) : Code (BitVec 8 × RawBuffer) := b.readInt 1

def readInt16 (b : RawBuffer) : Code (BitVec 16 × RawBuffer) := b.readInt 2

def readInt32 (b : RawBuffer) : Code (BitVec 32 × RawBuffer) := b.readInt 4

def readInt64 (b : RawBuffer) : Code (BitVec 64 × RawBuffer) := b.readInt 8

end RawBuffer

/-! ### The fields of a well-formed buffer -/

namespace Buffer

/-- The fields of a buffer. -/
def raw (b : Buffer) : RawBuffer := ⟨b.buffer, b.readerIndex, b.writerIndex⟩

@[simp] lemma raw_buffer (b : Buffer) : b.raw.buffer = b.buffer := rfl

@[simp] lemma raw_readerIndex (b : Buffer) : b.raw.readerIndex = b.readerIndex := rfl

@[simp] lemma raw_writerIndex (b : Buffer) : b.raw.writerIndex = b.writerIndex := rfl

@[simp] lemma raw_prependableBytes (b : Buffer) :
    b.raw.prependableBytes = b.prependableBytes := rfl

lemma bytesAt_raw {b : Buffer} {len : ℕ} (h : len ≤ b.readableBytes) :
    b.raw.bytesAt b.readerIndex len = .ok (b.readable.take len) := by
  have hr := b.reader_le_writer
  have hw := b.writer_le_size
  have hend : b.readerIndex + len ≤ b.writerIndex := by unfold readableBytes at h; omega
  have hfit : b.readerIndex + len ≤ b.raw.buffer.length := by rw [raw_buffer]; omega
  rw [RawBuffer.bytesAt, check_of hfit, ok_bind, readable, take_slice b.buffer hend]
  rfl

/-! ### The size of the block -/

lemma length_makeSpace {b : Buffer} {len : ℕ} (h : b.writableBytes < len) :
    Safe (b.makeSpace len h) fun b' => b'.buffer.length =
      if b.writableBytes + b.prependableBytes < len + kCheapPrepend then b.writerIndex + len
      else b.buffer.length := by
  have hw := b.writer_le_size
  have hr := b.reader_le_writer
  unfold makeSpace
  split
  · exact length_resize ..
  · split
    · have hsize : kCheapPrepend + b.readable.length ≤ b.buffer.length := by
        rw [length_readable, readableBytes]
        omega
      simp only [safe_bind, safe_check, safe_pure]
      exact ⟨by simp [readableBytes], length_copyAt hsize⟩
    · rename_i hroom hfront
      unfold prependableBytes at hroom
      omega

lemma length_retrieve (b : Buffer) (len : ℕ) (hlen : len ≤ b.readableBytes) :
    Safe (b.retrieve len) fun b' => b'.buffer.length = b.buffer.length := by
  rw [retrieve, safe_bind, safe_check]
  refine ⟨hlen, ?_⟩
  split <;> rfl

section

variable {b : Buffer} (hsize : b.buffer.length ≤ RawBuffer.maxSize)

include hsize

lemma size_lt_sizeMod : b.buffer.length < sizeMod := by
  have hmax : RawBuffer.maxSize < sizeMod := by decide
  omega

lemma readableBytes_raw : b.raw.readableBytes = b.readableBytes := by
  have hmod := size_lt_sizeMod hsize
  have hw := b.writer_le_size
  exact subSize_eq b.reader_le_writer (by rw [raw_writerIndex]; omega)

lemma writableBytes_raw : b.raw.writableBytes = b.writableBytes :=
  subSize_eq b.writer_le_size (size_lt_sizeMod hsize)

lemma retrieve_raw (len : ℕ) : b.raw.retrieve len = raw <$> b.retrieve len := by
  have hmod := size_lt_sizeMod hsize
  have hr := b.reader_le_writer
  have hw := b.writer_le_size
  rw [RawBuffer.retrieve, retrieve, readableBytes_raw hsize]
  by_cases hle : len ≤ b.readableBytes
  · rw [check_of hle, ok_bind, ok_bind]
    by_cases hlt : len < b.readableBytes
    · have hsum : addSize b.readerIndex len = b.readerIndex + len :=
        addSize_eq (by unfold readableBytes at hlt; omega)
      rw [if_pos hlt, dif_pos hlt, raw_readerIndex, hsum]
      rfl
    · rw [if_neg hlt, dif_neg hlt]
      rfl
  · simp only [check, hle, if_false]
    rfl

lemma makeSpace_raw {len : ℕ} (h : b.writableBytes < len) (hlen : len + kCheapPrepend < sizeMod)
    (hfit : b.writableBytes + b.prependableBytes < len + kCheapPrepend →
      b.writerIndex + len ≤ RawBuffer.maxSize) :
    b.raw.makeSpace len = raw <$> b.makeSpace len h := by
  have hmod := size_lt_sizeMod hsize
  have hr := b.reader_le_writer
  have hw := b.writer_le_size
  have hmax : RawBuffer.maxSize < sizeMod := by decide
  have hroom : addSize b.writableBytes b.prependableBytes =
      b.writableBytes + b.prependableBytes :=
    addSize_eq (by unfold writableBytes prependableBytes; omega)
  rw [RawBuffer.makeSpace, writableBytes_raw hsize, raw_prependableBytes, hroom, addSize_eq hlen,
    makeSpace]
  split
  · rename_i hgrow
    have hsum : addSize b.writerIndex len = b.writerIndex + len :=
      addSize_eq (by have := hfit hgrow; omega)
    simp only [raw_writerIndex, hsum, require, hfit hgrow, if_true]
    rfl
  · rename_i hroom'
    have hfront : kCheapPrepend < b.readerIndex := by
      unfold prependableBytes at hroom'
      omega
    have hall : b.readable.take b.readableBytes = b.readable := by
      rw [← length_readable, List.take_length]
    have hfits : kCheapPrepend + b.readable.length ≤ b.raw.buffer.length := by
      rw [length_readable, raw_buffer, readableBytes]
      omega
    have hsum : addSize kCheapPrepend b.readableBytes = kCheapPrepend + b.readableBytes :=
      addSize_eq (by unfold readableBytes; omega)
    have hsub : subSize (kCheapPrepend + b.readableBytes) kCheapPrepend = b.readableBytes := by
      rw [subSize_eq (by omega) (by unfold readableBytes; omega)]
      omega
    rw [dif_pos hfront]
    simp only [raw_readerIndex, readableBytes_raw hsize, bytesAt_raw (le_refl b.readableBytes),
      hall, RawBuffer.copyTo, check_of hfits, ok_bind, pure_bind, hsum]
    simp only [RawBuffer.readableBytes, hsub, check, hfront, if_true, ok_bind]
    simp [readableBytes]
    rfl

/-- The block after a request that it can grow to. -/
lemma length_ensureWritableBytes {len : ℕ}
    (hfit : b.writableBytes < len → b.writableBytes + b.prependableBytes < len + kCheapPrepend →
      b.writerIndex + len ≤ RawBuffer.maxSize) :
    Safe (b.ensureWritableBytes len) fun b' => b'.1.buffer.length ≤ RawBuffer.maxSize := by
  unfold ensureWritableBytes
  by_cases h : b.writableBytes < len
  · obtain ⟨b', hb', -, hroom⟩ := makeSpace_spec h
    have hlen := (length_makeSpace h).of_ok hb'
    simp only [h, dif_pos, hb', hroom, safe_bind, safe_ok, safe_pure]
    rw [hlen]
    split
    · rename_i hgrow
      exact hfit h hgrow
    · exact hsize
  · simpa [h, not_lt.mp h] using hsize

/-- The fields follow the buffer for every request that is addressable and that it can grow to. -/
lemma ensureWritableBytes_raw {len : ℕ}
    (hlen : b.writableBytes < len → len + kCheapPrepend < sizeMod)
    (hfit : b.writableBytes < len → b.writableBytes + b.prependableBytes < len + kCheapPrepend →
      b.writerIndex + len ≤ RawBuffer.maxSize) :
    b.raw.ensureWritableBytes len = (fun b' => b'.1.raw) <$> b.ensureWritableBytes len := by
  by_cases h : b.writableBytes < len
  · obtain ⟨b', hb', -, hroom⟩ := makeSpace_spec h
    have hsize' : b'.buffer.length ≤ RawBuffer.maxSize := by
      rw [(length_makeSpace h).of_ok hb']
      split
      · rename_i hgrow
        exact hfit h hgrow
      · exact hsize
    have hraw : b.raw.makeSpace len = .ok b'.raw := by
      rw [makeSpace_raw hsize h (hlen h) (hfit h), hb']
      rfl
    have hroom' : len ≤ b'.raw.writableBytes := by rwa [writableBytes_raw hsize']
    simp only [RawBuffer.ensureWritableBytes, ensureWritableBytes, writableBytes_raw hsize, h,
      if_true, dif_pos, hraw, hb', ok_bind, check_of hroom', hroom]
    rfl
  · simp only [RawBuffer.ensureWritableBytes, ensureWritableBytes, writableBytes_raw hsize, h,
      if_false, dif_neg, not_false_iff, pure_bind, not_lt.mp h, dif_pos, check, if_true]
    rfl

lemma unwrite_raw {len : ℕ} (h : len ≤ b.readableBytes) :
    b.raw.unwrite len = raw <$> b.unwrite len := by
  have hmod := size_lt_sizeMod hsize
  have hw := b.writer_le_size
  have hsub : subSize b.writerIndex len = b.writerIndex - len :=
    subSize_eq (by unfold readableBytes at h; omega) (by omega)
  rw [RawBuffer.unwrite, readableBytes_raw hsize, check_of h, ok_bind, unwrite, dif_pos h,
    raw_writerIndex, hsub]
  rfl

lemma prepend_raw {data : List UInt8} (h : data.length ≤ b.prependableBytes) :
    b.raw.prepend data = raw <$> b.prepend data := by
  have hmod := size_lt_sizeMod hsize
  have hr := b.reader_le_writer
  have hw := b.writer_le_size
  have h' : data.length ≤ b.readerIndex := h
  have hsub : subSize b.readerIndex data.length = b.readerIndex - data.length :=
    subSize_eq h' (by omega)
  have hfit : b.readerIndex - data.length + data.length ≤ b.buffer.length := by omega
  rw [RawBuffer.prepend, raw_prependableBytes, check_of h, ok_bind, prepend, dif_pos h]
  simp only [raw_readerIndex, hsub, RawBuffer.copyTo, raw_buffer, check_of hfit, ok_bind]
  rfl

/-- Writing into the writable area and moving the writer index. -/
lemma write_raw {data : List UInt8} (h : data.length ≤ b.writableBytes) :
    b.raw.write data = raw <$> (b.copyIn data h).hasWritten data.length := by
  have hmod := size_lt_sizeMod hsize
  have hw := b.writer_le_size
  have hfit : b.writerIndex + data.length ≤ b.buffer.length := by
    unfold writableBytes at h
    omega
  have hlen : (b.copyIn data h).buffer.length = b.buffer.length := length_copyAt hfit
  have hcopy : b.raw.copyTo b.writerIndex data = .ok (b.copyIn data h).raw := by
    rw [RawBuffer.copyTo, raw_buffer, check_of hfit]
    rfl
  have hroom : data.length ≤ (b.copyIn data h).writableBytes := by
    unfold writableBytes at h ⊢
    rw [hlen]
    exact h
  have hsum : addSize (b.copyIn data h).writerIndex data.length = b.writerIndex + data.length :=
    addSize_eq (show b.writerIndex + data.length < sizeMod by omega)
  rw [RawBuffer.write, raw_writerIndex, hcopy, ok_bind, RawBuffer.hasWritten,
    writableBytes_raw (by rw [hlen]; exact hsize), check_of hroom, ok_bind, raw_writerIndex, hsum,
    hasWritten, dif_pos hroom]
  rfl

end

end Buffer
end Muduo

import Muduo.Base.Code
import Muduo.Machine.Bytes
import Muduo.Machine.Memory

/-!
# Buffer

`Buffer` of `muduo/net/Buffer.h`: one block of bytes with a reader and a writer index. The structure
carries the picture of the header's comment, `0 ≤ readerIndex ≤ writerIndex ≤ size`, so that a
buffer with crossed indices cannot be built. `readable` is what the buffer means to its clients:
growth, compaction and index resets are lemmas about it.
-/

namespace Muduo

open Machine

/-- `Buffer::kCheapPrepend`. -/
def kCheapPrepend : ℕ := 8

/-- `Buffer::kInitialSize`. -/
def kInitialSize : ℕ := 1024

structure Buffer where
  buffer : List UInt8
  readerIndex : ℕ
  writerIndex : ℕ
  reader_le_writer : readerIndex ≤ writerIndex
  writer_le_size : writerIndex ≤ buffer.length
  prepend_le_size : kCheapPrepend ≤ buffer.length

namespace Buffer

/-- The constructor `Buffer(size_t initialSize = kInitialSize)`. -/
def new (initialSize : ℕ := kInitialSize) : Buffer where
  buffer := List.replicate (kCheapPrepend + initialSize) 0
  readerIndex := kCheapPrepend
  writerIndex := kCheapPrepend
  reader_le_writer := le_refl _
  writer_le_size := by simp
  prepend_le_size := by simp

def readableBytes (b : Buffer) : ℕ := b.writerIndex - b.readerIndex

def writableBytes (b : Buffer) : ℕ := b.buffer.length - b.writerIndex

def prependableBytes (b : Buffer) : ℕ := b.readerIndex

/-- The readable bytes, from `peek()` on. -/
def readable (b : Buffer) : List UInt8 := slice b.buffer b.readerIndex b.writerIndex

def retrieveAll (b : Buffer) : Buffer :=
  { b with
    readerIndex := kCheapPrepend
    writerIndex := kCheapPrepend
    reader_le_writer := le_refl _
    writer_le_size := b.prepend_le_size }

def retrieve (b : Buffer) (len : ℕ) : Code Buffer := do
  check .bufferRetrieve (len ≤ b.readableBytes)
  if h : len < b.readableBytes then
    return { b with
      readerIndex := b.readerIndex + len
      reader_le_writer := by unfold readableBytes at h; omega }
  else
    return b.retrieveAll

/-- Grow the block, or move the readable bytes down to `kCheapPrepend`. The only caller is
`ensureWritableBytes`, which has found the writable bytes too few. -/
def makeSpace (b : Buffer) (len : ℕ) (h : b.writableBytes < len) : Code Buffer :=
  if b.writableBytes + b.prependableBytes < len + kCheapPrepend then
    return { b with
      buffer := resize b.buffer (b.writerIndex + len) 0
      writer_le_size := by rw [length_resize]; omega
      prepend_le_size := by
        have := b.prepend_le_size
        unfold writableBytes at h
        rw [length_resize]; omega }
  else if hfront : kCheapPrepend < b.readerIndex then do
    have hsize : kCheapPrepend + b.readable.length ≤ b.buffer.length := by
      have hw := b.writer_le_size
      have hr := b.reader_le_writer
      rw [readable, length_slice hw]; omega
    let readable := b.readableBytes
    let b' : Buffer :=
      { buffer := copyAt b.buffer kCheapPrepend b.readable
        readerIndex := kCheapPrepend
        writerIndex := kCheapPrepend + readable
        reader_le_writer := by omega
        writer_le_size := by
          rw [length_copyAt hsize]
          rwa [Buffer.readable, length_slice b.writer_le_size] at hsize
        prepend_le_size := by rw [length_copyAt hsize]; exact b.prepend_le_size }
    check .bufferMakeSpaceReadable (readable = b'.readableBytes)
    return b'
  else
    .error (.failed .bufferMakeSpaceFront)

def ensureWritableBytes (b : Buffer) (len : ℕ) :
    Code { b' : Buffer // len ≤ b'.writableBytes } := do
  let b' ← if h : b.writableBytes < len then b.makeSpace len h else pure b
  if h : len ≤ b'.writableBytes then return ⟨b', h⟩ else .error (.failed .bufferEnsureWritable)

/-- Write `data` at `beginWrite()`. -/
def copyIn (b : Buffer) (data : List UInt8) (h : data.length ≤ b.writableBytes) : Buffer :=
  have hsize : b.writerIndex + data.length ≤ b.buffer.length := by
    have := b.writer_le_size
    unfold writableBytes at h; omega
  { b with
    buffer := copyAt b.buffer b.writerIndex data
    writer_le_size := by rw [length_copyAt hsize]; exact b.writer_le_size
    prepend_le_size := by rw [length_copyAt hsize]; exact b.prepend_le_size }

def hasWritten (b : Buffer) (len : ℕ) : Code Buffer :=
  if h : len ≤ b.writableBytes then
    return { b with
      writerIndex := b.writerIndex + len
      reader_le_writer := by have := b.reader_le_writer; omega
      writer_le_size := by have := b.writer_le_size; unfold writableBytes at h; omega }
  else
    .error (.failed .bufferHasWritten)

def append (b : Buffer) (data : List UInt8) : Code Buffer := do
  let ⟨b', h⟩ ← b.ensureWritableBytes data.length
  (b'.copyIn data h).hasWritten data.length

/-- `sizeof extrabuf` in `readFd`. -/
def extrabufSize : ℕ := 65536

/-- `readFd` when `readv` returns the bytes `r`: they fill the writable area first, and what does
not fit has gone to `extrabuf` and is appended. -/
def readFd (b : Buffer) (r : List UInt8) : Code Buffer := do
  let writable := b.writableBytes
  require (r.length ≤ if writable < extrabufSize then writable + extrabufSize else writable)
  if h : r.length ≤ b.writableBytes then
    (b.copyIn r h).hasWritten r.length
  else
    let b' ← (b.copyIn (r.take b.writableBytes) (by simp)).hasWritten b.writableBytes
    b'.append (r.drop b.writableBytes)

def unwrite (b : Buffer) (len : ℕ) : Code Buffer :=
  if h : len ≤ b.readableBytes then
    return { b with
      writerIndex := b.writerIndex - len
      reader_le_writer := by unfold readableBytes at h; have := b.reader_le_writer; omega
      writer_le_size := by have := b.writer_le_size; omega }
  else
    .error (.failed .bufferUnwrite)

/-- Write `data` in front of the readable bytes. -/
def prepend (b : Buffer) (data : List UInt8) : Code Buffer :=
  if h : data.length ≤ b.prependableBytes then
    have hsize : b.readerIndex - data.length + data.length ≤ b.buffer.length := by
      have := b.reader_le_writer
      have := b.writer_le_size
      unfold prependableBytes at h; omega
    return { b with
      buffer := copyAt b.buffer (b.readerIndex - data.length) data
      readerIndex := b.readerIndex - data.length
      reader_le_writer := by have := b.reader_le_writer; omega
      writer_le_size := by rw [length_copyAt hsize]; exact b.writer_le_size
      prepend_le_size := by rw [length_copyAt hsize]; exact b.prepend_le_size }
  else
    .error (.failed .bufferPrepend)

def retrieveAsString (b : Buffer) (len : ℕ) : Code (List UInt8 × Buffer) := do
  check .bufferRetrieve (len ≤ b.readableBytes)
  let result := b.readable.take len
  let b' ← b.retrieve len
  return (result, b')

def retrieveAllAsString (b : Buffer) : Code (List UInt8 × Buffer) :=
  b.retrieveAsString b.readableBytes

/-! ### Integers in network order

`n` is the size of the integer. The host is little-endian: `hostToNetwork` and `networkToHost` swap
the bytes, and `memcpy` copies them as they stand in memory. -/

/-- The memory of an integer after `hostToNetwork`. -/
def networkBytes (n : ℕ) (x : BitVec (8 * n)) : List UInt8 := leBytes n (byteSwap n x.toNat)

def appendInt (b : Buffer) (n : ℕ) (x : BitVec (8 * n)) : Code Buffer :=
  b.append (networkBytes n x)

def prependInt (b : Buffer) (n : ℕ) (x : BitVec (8 * n)) : Code Buffer :=
  b.prepend (networkBytes n x)

def peekInt (b : Buffer) (n : ℕ) : Code (BitVec (8 * n)) := do
  check .bufferPeekInt (n ≤ b.readableBytes)
  let be := ofLeBytes (b.readable.take n)
  return BitVec.ofNat (8 * n) (byteSwap n be)

def appendInt32 (b : Buffer) (x : BitVec 32) : Code Buffer := b.appendInt 4 x

def peekInt32 (b : Buffer) : Code (BitVec 32) := b.peekInt 4

def readInt (b : Buffer) (n : ℕ) : Code (BitVec (8 * n) × Buffer) := do
  let result ← b.peekInt n
  let b' ← b.retrieve n
  return (result, b')

/-! ### The operations on the readable bytes -/

lemma length_readable (b : Buffer) : b.readable.length = b.readableBytes :=
  length_slice b.writer_le_size

lemma readable_eq_nil {b : Buffer} : b.readable = [] ↔ b.readableBytes = 0 := by
  rw [← List.length_eq_zero_iff, length_readable]

@[simp] lemma readable_new (n : ℕ) : (Buffer.new n).readable = [] := by
  simp [readable, new]

@[simp] lemma readable_retrieveAll (b : Buffer) : b.retrieveAll.readable = [] := by
  simp [readable, retrieveAll]

theorem retrieve_spec {b : Buffer} {len : ℕ} (h : len ≤ b.readable.length) :
    Yields (b.retrieve len) fun b' => b'.readable = b.readable.drop len := by
  have hle : len ≤ b.readableBytes := by rwa [length_readable] at h
  by_cases hlt : len < b.readableBytes
  · refine ⟨_, by simp [retrieve, check, hle, hlt]; rfl, ?_⟩
    simp [readable, drop_slice]
  · refine ⟨_, by simp [retrieve, check, hle, hlt]; rfl, ?_⟩
    have hdone : b.readable.length ≤ len := by rw [length_readable]; omega
    simp [List.drop_eq_nil_of_le hdone]

lemma retrieve_lt {b b' : Buffer} {len : ℕ} (hb' : b.retrieve len = .ok b') (hlen : 0 < len) :
    b'.readableBytes < b.readableBytes := by
  have hle : len ≤ b.readable.length := by
    by_contra hlt
    rw [length_readable] at hlt
    simp [retrieve, check, hlt, bind, Except.bind] at hb'
  have hread := (retrieve_spec hle).safe.of_ok hb'
  rw [← length_readable, ← length_readable, hread, List.length_drop]
  omega

/-- Growing and compacting keep the readable bytes, and afterwards `len` bytes can be written. -/
lemma makeSpace_spec {b : Buffer} {len : ℕ} (h : b.writableBytes < len) :
    Yields (b.makeSpace len h) fun b' => b'.readable = b.readable ∧ len ≤ b'.writableBytes := by
  have hw := b.writer_le_size
  have hr := b.reader_le_writer
  unfold makeSpace
  split
  · refine ⟨_, rfl, ?_, ?_⟩
    · exact slice_resize hw (Nat.le_add_right _ _)
    · simp [writableBytes, length_resize]
  · rename_i hroom
    have hfront : kCheapPrepend < b.readerIndex := by
      unfold prependableBytes at hroom; omega
    have hlen : b.readable.length = b.readableBytes := b.length_readable
    have hsize : kCheapPrepend + b.readable.length ≤ b.buffer.length := by
      rw [hlen, readableBytes]; omega
    simp only [hfront, ↓reduceDIte]
    refine ⟨_, by simp [check, readableBytes]; rfl, ?_, ?_⟩
    · have := slice_copyAt_self (d := b.readable) b.prepend_le_size
      rw [hlen] at this
      exact this
    · simp only [writableBytes, length_copyAt hsize]
      unfold writableBytes prependableBytes readableBytes at *
      omega

lemma ensureWritableBytes_spec (b : Buffer) (len : ℕ) :
    Yields (b.ensureWritableBytes len) fun b' => b'.1.readable = b.readable := by
  unfold ensureWritableBytes
  by_cases h : b.writableBytes < len
  · obtain ⟨b', hb', hread, hroom⟩ := makeSpace_spec h
    exact ⟨⟨b', hroom⟩, by simp [h, hb', hroom, bind, Except.bind]; rfl, hread⟩
  · exact ⟨⟨b, by omega⟩, by simp [h, bind, Except.bind, pure, Except.pure, not_lt.mp h], rfl⟩

/-- Writing `data` behind the readable bytes and moving the writer index over it. -/
lemma copyIn_hasWritten_spec {b : Buffer} {data : List UInt8} (h : data.length ≤ b.writableBytes) :
    Yields ((b.copyIn data h).hasWritten data.length)
      fun b' => b'.readable = b.readable ++ data := by
  have hw := b.writer_le_size
  have hfit : data.length ≤ (b.copyIn data h).writableBytes := by
    have hsize : b.writerIndex + data.length ≤ b.buffer.length := by
      unfold writableBytes at h; omega
    simpa [writableBytes, copyIn, length_copyAt hsize] using h
  refine ⟨_, by simp [hasWritten, hfit]; rfl, ?_⟩
  simp only [readable, copyIn]
  rw [← slice_append b.reader_le_writer (Nat.le_add_right _ data.length),
    slice_copyAt_before hw (le_refl _), slice_copyAt_self hw]

theorem append_spec (b : Buffer) (data : List UInt8) :
    Yields (b.append data) fun b' => b'.readable = b.readable ++ data := by
  obtain ⟨⟨b', hroom⟩, hb', hread⟩ := b.ensureWritableBytes_spec data.length
  obtain ⟨b'', hb'', hread'⟩ := copyIn_hasWritten_spec hroom
  have hall : b''.readable = b.readable ++ data := by rw [hread', hread]
  refine ⟨b'', ?_, hall⟩
  rw [append, bind_eq_ok]
  exact ⟨_, hb', hb''⟩

theorem readFd_spec (b : Buffer) (r : List UInt8) :
    Safe (b.readFd r) fun b' => b'.readable = b.readable ++ r := by
  rw [readFd, safe_bind, safe_require]
  intro _
  split
  · rename_i h
    exact (copyIn_hasWritten_spec h).safe
  · rename_i h
    have htake : (r.take b.writableBytes).length = b.writableBytes := by
      rw [List.length_take]; omega
    have hle : (r.take b.writableBytes).length ≤ b.writableBytes := by simp
    have hcopy := copyIn_hasWritten_spec hle
    simp only [htake] at hcopy
    rw [safe_bind]
    apply hcopy.safe.mono
    intro b' hread
    apply (b'.append_spec _).safe.mono
    intro b'' hread'
    rw [hread', hread, List.append_assoc, List.take_append_drop]

/-! ### A buffer that is written to only

The room in front of the readable bytes, from which `prepend` takes, is not used up by writing. -/

/-- The readable bytes are `x`, with `kCheapPrepend` bytes in front of them. -/
def Holds (b : Buffer) (x : List UInt8) : Prop := b.readable = x ∧ kCheapPrepend ≤ b.readerIndex

lemma holds_new (n : ℕ) : (Buffer.new n).Holds [] := ⟨readable_new n, le_refl _⟩

lemma makeSpace_front {b b' : Buffer} {len : ℕ} {h : b.writableBytes < len}
    (hfront : kCheapPrepend ≤ b.readerIndex) (hb' : b.makeSpace len h = .ok b') :
    kCheapPrepend ≤ b'.readerIndex := by
  unfold makeSpace at hb'
  split at hb'
  · cases hb'
    exact hfront
  · split at hb'
    · obtain ⟨-, -, hb'⟩ := bind_eq_ok.mp hb'
      cases hb'
      exact le_refl _
    · cases hb'

lemma Holds.ensureWritableBytes {b : Buffer} {x : List UInt8} (h : b.Holds x) (len : ℕ) :
    Yields (b.ensureWritableBytes len) fun b' => b'.1.Holds x := by
  unfold Buffer.ensureWritableBytes
  by_cases hlen : b.writableBytes < len
  · obtain ⟨b', hb', hread, hroom⟩ := makeSpace_spec hlen
    refine ⟨⟨b', hroom⟩, ?_, hread.trans h.1, makeSpace_front h.2 hb'⟩
    rw [dif_pos hlen, hb', ok_bind]
    exact dif_pos hroom
  · refine ⟨⟨b, not_lt.mp hlen⟩, ?_, h⟩
    rw [dif_neg hlen]
    exact dif_pos (not_lt.mp hlen)

lemma Holds.write {b : Buffer} {x data : List UInt8} (h : b.Holds x)
    (hroom : data.length ≤ b.writableBytes) :
    Yields ((b.copyIn data hroom).hasWritten data.length) fun b' => b'.Holds (x ++ data) := by
  obtain ⟨b', hb', hread⟩ := copyIn_hasWritten_spec hroom
  refine ⟨b', hb', by rw [hread, h.1], ?_⟩
  unfold hasWritten at hb'
  split at hb'
  · cases hb'
    exact h.2
  · cases hb'

lemma Holds.append {b : Buffer} {x : List UInt8} (h : b.Holds x) (data : List UInt8) :
    Yields (b.append data) fun b' => b'.Holds (x ++ data) := by
  obtain ⟨⟨b', hroom⟩, hb', hholds⟩ := h.ensureWritableBytes data.length
  obtain ⟨b'', hb'', hholds'⟩ := hholds.write hroom
  refine ⟨b'', ?_, hholds'⟩
  rw [Buffer.append, hb']
  exact hb''

/-! ### Specifications of the other members -/

theorem unwrite_spec {b : Buffer} {len : ℕ} (h : len ≤ b.readable.length) :
    Yields (b.unwrite len) fun b' => b'.readable = b.readable.take (b.readable.length - len) := by
  have hr := b.reader_le_writer
  rw [length_readable] at h
  refine ⟨_, by simp [unwrite, h]; rfl, ?_⟩
  have htake := take_slice b.buffer (i := b.readerIndex) (j := b.writerIndex)
    (n := b.readableBytes - len) (by unfold readableBytes; omega)
  have hend : b.readerIndex + (b.readableBytes - len) = b.writerIndex - len := by
    unfold readableBytes at h ⊢
    omega
  rw [hend] at htake
  rw [length_readable]
  exact htake.symm

theorem prepend_spec {b : Buffer} {data : List UInt8} (h : data.length ≤ b.prependableBytes) :
    Yields (b.prepend data) fun b' => b'.readable = data ++ b.readable := by
  have hr := b.reader_le_writer
  have hw := b.writer_le_size
  have h' : data.length ≤ b.readerIndex := h
  refine ⟨_, by simp [prepend, h]; rfl, ?_⟩
  simp only [readable]
  rw [← slice_append (j := b.readerIndex) (by omega) hr]
  congr 1
  · have hself := slice_copyAt_self (l := b.buffer) (i := b.readerIndex - data.length) (d := data)
      (by omega)
    rwa [Nat.sub_add_cancel h'] at hself
  · exact slice_copyAt_after (by omega) (by omega)

theorem retrieveAsString_spec {b : Buffer} {len : ℕ} (h : len ≤ b.readable.length) :
    Yields (b.retrieveAsString len) fun r =>
      r.1 = b.readable.take len ∧ r.2.readable = b.readable.drop len := by
  obtain ⟨b', hb', hread⟩ := retrieve_spec h
  rw [length_readable] at h
  refine ⟨(b.readable.take len, b'), ?_, rfl, hread⟩
  rw [retrieveAsString, check_of h, ok_bind, hb']
  rfl

lemma networkBytes_eq (n : ℕ) (x : BitVec (8 * n)) : networkBytes n x = beBytes n x.toNat :=
  leBytes_byteSwap n x.toNat

theorem peekInt_spec {b : Buffer} {n : ℕ} (h : n ≤ b.readable.length) :
    b.peekInt n = .ok (BitVec.ofNat (8 * n) (ofBeBytes (b.readable.take n))) := by
  have hlen : (b.readable.take n).length = n := by rw [List.length_take]; omega
  have hswap := byteSwap_ofLeBytes (b.readable.take n)
  rw [hlen] at hswap
  rw [length_readable] at h
  rw [peekInt, check_of h, ok_bind, ← hswap]
  rfl

theorem peekInt32_spec {b : Buffer} (h : 4 ≤ b.readable.length) :
    b.peekInt32 = .ok (BitVec.ofNat 32 (ofBeBytes (b.readable.take 4))) := peekInt_spec h

theorem readInt_spec {b : Buffer} {n : ℕ} (h : n ≤ b.readable.length) :
    Yields (b.readInt n) fun r =>
      r.1 = BitVec.ofNat (8 * n) (ofBeBytes (b.readable.take n)) ∧
        r.2.readable = b.readable.drop n := by
  obtain ⟨b', hb', hread⟩ := retrieve_spec h
  refine ⟨(_, b'), ?_, rfl, hread⟩
  rw [readInt, peekInt_spec h, ok_bind, hb']
  rfl

end Buffer
end Muduo

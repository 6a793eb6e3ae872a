import Muduo.Net.Buffer.Queue

/-!
# Reading from a descriptor

`Buffer::readFd` of `muduo/net/Buffer.cc`, on the bare fields. The kernel scatters what it has over
two vectors, the writable bytes of the buffer and a block on the stack, and `readFd` joins the two
parts. To the clients of the buffer it is an `append`.

## Main results

* `readFd_appends`: the bytes that were read come behind the readable bytes, and an error changes
  nothing.
-/

namespace Muduo

open Machine

/-- What `readv` returns: the bytes that it has read, or an error. -/
inductive Readv where
  | read (bytes : List UInt8)
  | failed (errno : Errno)
  deriving DecidableEq, Repr

namespace RawBuffer

/-- The lengths of the vectors that are set up. -/
def iovecs (b : RawBuffer) : List ℕ :=
  if b.writableBytes < Buffer.extrabufSize then [b.writableBytes, Buffer.extrabufSize]
  else [b.writableBytes]

/-- `readFd` returns the result of `readv`. The first vector is filled before the second one. -/
def readFd (b : RawBuffer) (readv : Readv) (savedErrno : Option Errno) :
    Code (ℤ × Option Errno × RawBuffer) :=
  match readv with
  | .failed errno => return (-1, some errno, b)
  | .read bytes => do
    require (bytes.length ≤ b.iovecs.sum)
    let writable := b.writableBytes
    let b ← b.copyTo b.writerIndex (bytes.take writable)
    let extrabuf := bytes.drop writable
    let n := bytes.length
    if n ≤ writable then
      return (n, savedErrno, { b with writerIndex := addSize b.writerIndex n })
    else
      let b ← { b with writerIndex := b.buffer.length }.append
        (extrabuf.take (subSize n writable))
      return (n, savedErrno, b)

variable {b : RawBuffer} {q bytes : List UInt8}

lemma sum_iovecs_le (b : RawBuffer) : b.iovecs.sum ≤ b.writableBytes + Buffer.extrabufSize := by
  unfold iovecs
  split <;> simp

/-- The two steps of `write`. -/
lemma write_eq_ok {b' : RawBuffer} (h : b.write bytes = .ok b') :
    ∃ b₁, b.copyTo b.writerIndex bytes = .ok b₁ ∧
      b' = { b₁ with writerIndex := addSize b₁.writerIndex bytes.length } := by
  rw [write, bind_eq_ok] at h
  obtain ⟨b₁, hcopy, h⟩ := h
  rw [hasWritten, bind_eq_ok] at h
  obtain ⟨-, -, h⟩ := h
  cases h
  exact ⟨b₁, hcopy, rfl⟩

lemma copyTo_eq_ok {b' : RawBuffer} {i : ℕ} (h : b.copyTo i bytes = .ok b') :
    b'.buffer.length = b.buffer.length ∧ b'.writerIndex = b.writerIndex := by
  rw [copyTo, bind_eq_ok] at h
  obtain ⟨_, hcheck, h⟩ := h
  cases h
  have hfit : i + bytes.length ≤ b.buffer.length := by
    by_contra hfit
    simp [check, hfit] at hcheck
  exact ⟨length_copyAt hfit, rfl⟩

namespace Represents

lemma writableBytes_eq (h : Represents b q) :
    b.writableBytes = b.buffer.length - b.writerIndex ∧ b.writerIndex ≤ b.buffer.length ∧
      b.buffer.length ≤ maxSize := by
  obtain ⟨b, rfl, -, hsize⟩ := h
  exact ⟨Buffer.writableBytes_raw hsize, b.writer_le_size, hsize⟩

/-- Everything fits into the writable bytes. -/
lemma readFd_of_le (h : Represents b q) (hle : bytes.length ≤ b.writableBytes)
    (hsum : bytes.length ≤ b.iovecs.sum) (savedErrno : Option Errno) :
    Yields (b.readFd (.read bytes) savedErrno) fun p =>
      p.1 = bytes.length ∧ p.2.1 = savedErrno ∧ Represents p.2.2 (q ++ bytes) := by
  obtain ⟨b', hb', hrep⟩ := h.write hle
  obtain ⟨b₁, hcopy, rfl⟩ := write_eq_ok hb'
  refine ⟨(bytes.length, savedErrno, _), ?_, rfl, rfl, hrep⟩
  simp only [readFd, require, hsum, if_true, ok_bind, List.take_of_length_le hle, hcopy, hle]
  rfl

/-- The writable bytes are full, and the rest is appended. -/
lemma readFd_of_lt (h : Represents b q) (hlt : b.writableBytes < bytes.length)
    (hsum : bytes.length ≤ b.iovecs.sum) (savedErrno : Option Errno) :
    ∃ b', Represents b' (q ++ bytes.take b.writableBytes) ∧
      b'.buffer.length = b.buffer.length ∧ b'.writerIndex = b'.buffer.length ∧
      b.readFd (.read bytes) savedErrno = do
        let b'' ← b'.append (bytes.drop b.writableBytes)
        return (↑bytes.length, savedErrno, b'') := by
  obtain ⟨hwritable, hindex, hmax⟩ := h.writableBytes_eq
  have hmod : maxSize < sizeMod := by decide
  have htake : (bytes.take b.writableBytes).length = b.writableBytes :=
    List.length_take_of_le hlt.le
  obtain ⟨b', hb', hrep⟩ := h.write htake.le
  obtain ⟨b₁, hcopy, rfl⟩ := write_eq_ok hb'
  obtain ⟨hlen, hwriter⟩ := copyTo_eq_ok hcopy
  have hfull : addSize b₁.writerIndex (bytes.take b.writableBytes).length = b₁.buffer.length := by
    rw [htake, hwriter, hlen, addSize_eq (by omega)]
    omega
  rw [hfull] at hrep
  refine ⟨_, hrep, hlen, rfl, ?_⟩
  have hrest : (bytes.drop b.writableBytes).take (subSize bytes.length b.writableBytes) =
      bytes.drop b.writableBytes := by
    have hsum' := b.sum_iovecs_le
    have hextra : Buffer.extrabufSize = 65536 := rfl
    have hsize : maxSize = 2 ^ 63 - 1 := rfl
    have hmod' : sizeMod = 2 ^ 64 := rfl
    rw [subSize_eq hlt.le (by omega), List.take_of_length_le (by rw [List.length_drop])]
  simp only [readFd, require, hsum, if_true, ok_bind, hcopy, not_le.mpr hlt, if_false, hrest]

/-- Appending to a full buffer, which may be as large as a `vector` can get. -/
lemma append_full (h : Represents b q) (hfull : b.writerIndex = b.buffer.length)
    (hlen : bytes.length ≤ Buffer.extrabufSize) :
    Yields (b.append bytes) (fun b' => Represents b' (q ++ bytes)) ∨
      b.append bytes = .error .disabled ∧ maxSize < b.buffer.length + bytes.length := by
  obtain ⟨-, -, hmax⟩ := h.writableBytes_eq
  have hextra : Buffer.extrabufSize = 65536 := rfl
  have hsize : maxSize = 2 ^ 63 - 1 := rfl
  have hmod : sizeMod = 2 ^ 64 := rfl
  have hcheap : kCheapPrepend = 8 := rfl
  have haddr : b.Addressable bytes.length := fun _ => ⟨by omega, by omega⟩
  by_cases hfits : b.Fits bytes.length
  · obtain ⟨b', hb', hrep, hroom⟩ := h.ensureWritableBytes haddr hfits
    obtain ⟨b'', hb'', hrep'⟩ := hrep.write hroom
    refine .inl ⟨b'', ?_, hrep'⟩
    rw [RawBuffer.append, hb', ok_bind]
    exact hb''
  · have hthrows := h.ensureWritableBytes_throws haddr hfits
    refine .inr ⟨?_, ?_⟩
    · rw [RawBuffer.append, hthrows]
      rfl
    · simp only [Fits, not_forall] at hfits
      obtain ⟨-, -, hbig⟩ := hfits
      omega

/-- The bytes are appended, unless the block cannot grow. -/
lemma readFd (h : Represents b q) (hsum : bytes.length ≤ b.iovecs.sum)
    (savedErrno : Option Errno) :
    Yields (b.readFd (.read bytes) savedErrno) (fun p =>
      p.1 = bytes.length ∧ p.2.1 = savedErrno ∧ Represents p.2.2 (q ++ bytes)) ∨
    b.readFd (.read bytes) savedErrno = .error .disabled ∧
      maxSize < b.buffer.length + (bytes.length - b.writableBytes) := by
  rcases Nat.lt_or_ge b.writableBytes bytes.length with hlt | hle
  · have hsum' := b.sum_iovecs_le
    obtain ⟨b', hrep, hlen, hfull, heq⟩ := h.readFd_of_lt hlt hsum savedErrno
    rw [heq]
    have hextra : (bytes.drop b.writableBytes).length ≤ Buffer.extrabufSize := by
      rw [List.length_drop]
      omega
    rcases hrep.append_full hfull hextra with ⟨b'', hb'', hrep'⟩ | ⟨hthrows, hbig⟩
    · rw [List.append_assoc, List.take_append_drop] at hrep'
      rw [hb'', ok_bind]
      exact .inl ⟨_, rfl, rfl, rfl, hrep'⟩
    · rw [hlen, List.length_drop] at hbig
      rw [hthrows]
      exact .inr ⟨rfl, hbig⟩
  · exact .inl (h.readFd_of_le hle hsum savedErrno)

end Represents

/-- `readFd` is an append of the bytes that were read, as long as the block can grow: they come
behind the readable bytes, the indices stay in order, no assertion fails and their number is
returned. If nothing could be read, then the error is saved and the buffer is as it was. -/
theorem readFd_appends (b : RawBuffer) (q : List UInt8) (h : Represents b q)
    (savedErrno : Option Errno) :
    (∀ bytes : List UInt8, bytes.length ≤ b.iovecs.sum →
      Yields (b.readFd (.read bytes) savedErrno) (fun p =>
        p.1 = bytes.length ∧ p.2.1 = savedErrno ∧
        p.2.2.readerIndex ≤ p.2.2.writerIndex ∧ p.2.2.writerIndex ≤ p.2.2.buffer.length ∧
        slice p.2.2.buffer p.2.2.readerIndex p.2.2.writerIndex = q ++ bytes) ∨
      b.readFd (.read bytes) savedErrno = .error .disabled ∧
        maxSize < b.buffer.length + (bytes.length - b.writableBytes)) ∧
    ∀ errno, b.readFd (.failed errno) savedErrno = .ok (-1, some errno, b) := by
  refine ⟨fun bytes hsum => ?_, fun errno => rfl⟩
  rcases h.readFd hsum savedErrno with ⟨p, hp, hn, herrno, hrep⟩ | hthrows
  · exact .inl ⟨p, hp, hn, herrno, hrep.indices.1, hrep.indices.2, hrep.readable_eq⟩
  · exact .inr hthrows

/-- More bytes than there is room for, two of them behind a full buffer, and a failed call. -/
theorem readFd_appends_full :
    let b : RawBuffer := ⟨[0, 0, 0, 0, 0, 0, 0, 0, 1, 0, 0], 8, 9⟩
    Yields (b.readFd (.read [2, 3, 4, 5]) none) (fun p => p.1 = 4 ∧
      slice p.2.2.buffer p.2.2.readerIndex p.2.2.writerIndex = [1] ++ [2, 3, 4, 5]) ∧
    b.readFd (.failed .EAGAIN) none = .ok (-1, some .EAGAIN, b) := by
  intro b
  have hrep : Represents b [1] :=
    ⟨⟨b.buffer, b.readerIndex, b.writerIndex, by decide, by decide, by decide⟩, rfl, rfl, by decide⟩
  obtain ⟨hread, hfailed⟩ := readFd_appends b [1] hrep none
  refine ⟨?_, hfailed .EAGAIN⟩
  rcases hread [2, 3, 4, 5] (by decide) with ⟨p, hp, hn, -, -, -, hreadable⟩ | ⟨-, hbig⟩
  · exact ⟨p, hp, hn, hreadable⟩
  · exact absurd hbig (by decide)

end RawBuffer

end Muduo

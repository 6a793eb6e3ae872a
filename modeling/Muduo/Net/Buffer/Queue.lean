import Muduo.Net.Buffer.Raw

/-!
# Buffer is a queue of bytes

A buffer is used as a queue of bytes: bytes are added at the end and at the front and taken from
either. `Represents b q` says that the fields of `b` are in order and that its readable bytes are
`q`. Each member keeps this relation, and so does every run of members over any number of buffers.

The exception is a request for room that overflows a `size_t`. `makeSpace` adds the request to the
writer index and to `kCheapPrepend` without looking: `Addressable` says that these sums are what
they look like.
-/

namespace Muduo

open Machine

namespace RawBuffer

/-- The fields are those of a well-formed buffer whose readable bytes are `q`. -/
def Represents (r : RawBuffer) (q : List UInt8) : Prop :=
  ∃ b : Buffer, b.raw = r ∧ b.readable = q ∧ b.buffer.length ≤ maxSize

/-- The sums that `makeSpace` computes for a request of `len` bytes do not overflow. -/
def Addressable (r : RawBuffer) (len : ℕ) : Prop :=
  r.writableBytes < len → len + kCheapPrepend < sizeMod ∧ r.writerIndex + len < sizeMod

/-- The block that `makeSpace` asks for, if it asks for one, is not larger than `max_size()`. -/
def Fits (r : RawBuffer) (len : ℕ) : Prop :=
  r.writableBytes < len → r.writableBytes + r.prependableBytes < len + kCheapPrepend →
    r.writerIndex + len ≤ maxSize

instance (r : RawBuffer) (len : ℕ) : Decidable (r.Addressable len) :=
  inferInstanceAs (Decidable (_ → _))

instance (r : RawBuffer) (len : ℕ) : Decidable (r.Fits len) :=
  inferInstanceAs (Decidable (_ → _ → _))

/-! ### Pieces -/

/-- What `append` takes of a string: the length of a `StringPiece` is an `int`. -/
def cutPiece (str : List UInt8) : List UInt8 := str.take (str.length % 2 ^ 32)

lemma length_cutPiece (str : List UInt8) : (cutPiece str).length = str.length % 2 ^ 32 := by
  rw [cutPiece, List.length_take]
  exact min_eq_left (Nat.mod_le _ _)

lemma cutPiece_eq_self {str : List UInt8} (h : str.length < 2 ^ 31) : cutPiece str = str := by
  rw [cutPiece, Nat.mod_eq_of_lt (by omega), List.take_length]

lemma pieceSize_of_lt {n : ℕ} (h : n % 2 ^ 32 < 2 ^ 31) : pieceSize n = n % 2 ^ 32 := by
  have hpow : ((2 ^ 32 : ℕ) : ℤ) = 4294967296 := by norm_num
  have hint : Int.bmod (n : ℤ) (2 ^ 32) = (n % 2 ^ 32 : ℕ) := by
    rw [Int.bmod_def, hpow]
    omega
  have hmod : sizeMod = 2 ^ 64 := rfl
  unfold pieceSize
  rw [hint, hmod]
  omega

/-- A negative length is a huge one. -/
lemma lt_pieceSize {n : ℕ} (h : 2 ^ 31 ≤ n % 2 ^ 32) : maxSize < pieceSize n := by
  have hpow : ((2 ^ 32 : ℕ) : ℤ) = 4294967296 := by norm_num
  have hint : Int.bmod (n : ℤ) (2 ^ 32) = (n % 2 ^ 32 : ℕ) - 2 ^ 32 := by
    rw [Int.bmod_def, hpow]
    omega
  have hmod : sizeMod = 2 ^ 64 := rfl
  have hmax : maxSize = 2 ^ 63 - 1 := rfl
  unfold pieceSize
  rw [hint, hmod, hmax]
  omega

namespace Represents

variable {r : RawBuffer} {q : List UInt8}

lemma new {initialSize : ℕ} (h : kCheapPrepend + initialSize ≤ maxSize) :
    Represents (RawBuffer.new initialSize) [] :=
  ⟨Buffer.new initialSize, rfl, Buffer.readable_new initialSize, by simpa [Buffer.new] using h⟩

/-- The picture in the header's comment. -/
lemma indices (h : Represents r q) :
    r.readerIndex ≤ r.writerIndex ∧ r.writerIndex ≤ r.buffer.length := by
  obtain ⟨b, rfl, -, -⟩ := h
  exact ⟨b.reader_le_writer, b.writer_le_size⟩

lemma readable_eq (h : Represents r q) : slice r.buffer r.readerIndex r.writerIndex = q := by
  obtain ⟨b, rfl, hread, -⟩ := h
  exact hread

lemma readableBytes_eq (h : Represents r q) : r.readableBytes = q.length := by
  obtain ⟨b, rfl, rfl, hsize⟩ := h
  rw [Buffer.readableBytes_raw hsize, Buffer.length_readable]

lemma retrieveAll (h : Represents r q) : Represents r.retrieveAll [] := by
  obtain ⟨b, rfl, -, hsize⟩ := h
  exact ⟨b.retrieveAll, rfl, Buffer.readable_retrieveAll b, hsize⟩

lemma retrieve (h : Represents r q) {len : ℕ} (hlen : len ≤ q.length) :
    Yields (r.retrieve len) fun r' => Represents r' (q.drop len) := by
  obtain ⟨b, rfl, rfl, hsize⟩ := h
  obtain ⟨b', hb', hread⟩ := Buffer.retrieve_spec hlen
  rw [Buffer.length_readable] at hlen
  refine ⟨b'.raw, ?_, b', rfl, hread, ?_⟩
  · rw [Buffer.retrieve_raw hsize, hb']
    rfl
  · rw [(Buffer.length_retrieve b len hlen).of_ok hb']
    exact hsize

lemma bytesAt (h : Represents r q) {len : ℕ} (hlen : len ≤ q.length) :
    r.bytesAt r.readerIndex len = .ok (q.take len) := by
  obtain ⟨b, rfl, rfl, -⟩ := h
  rw [Buffer.length_readable] at hlen
  exact Buffer.bytesAt_raw hlen

lemma retrieveAsString (h : Represents r q) {len : ℕ} (hlen : len ≤ q.length) :
    Yields (r.retrieveAsString len) fun p => p.1 = q.take len ∧ Represents p.2 (q.drop len) := by
  obtain ⟨r', hr', hrep⟩ := h.retrieve hlen
  have hcheck : len ≤ r.readableBytes := by rwa [h.readableBytes_eq]
  refine ⟨(q.take len, r'), ?_, rfl, hrep⟩
  rw [RawBuffer.retrieveAsString, check_of hcheck, ok_bind, h.bytesAt hlen, ok_bind, hr', ok_bind]
  rfl

lemma peekInt (h : Represents r q) {n : ℕ} (hn : n ≤ q.length) :
    r.peekInt n = .ok (BitVec.ofNat (8 * n) (ofBeBytes (q.take n))) := by
  have hcheck : n ≤ r.readableBytes := by rwa [h.readableBytes_eq]
  have hlen : (q.take n).length = n := by rw [List.length_take]; omega
  have hswap := byteSwap_ofLeBytes (q.take n)
  rw [hlen] at hswap
  rw [RawBuffer.peekInt, check_of hcheck, ok_bind, h.bytesAt hn, ok_bind, hswap]
  rfl

lemma readInt (h : Represents r q) {n : ℕ} (hn : n ≤ q.length) :
    Yields (r.readInt n) fun p =>
      p.1 = BitVec.ofNat (8 * n) (ofBeBytes (q.take n)) ∧ Represents p.2 (q.drop n) := by
  obtain ⟨r', hr', hrep⟩ := h.retrieve hn
  refine ⟨(_, r'), ?_, rfl, hrep⟩
  rw [RawBuffer.readInt, h.peekInt hn, ok_bind, hr', ok_bind]
  rfl

lemma unwrite (h : Represents r q) {len : ℕ} (hlen : len ≤ q.length) :
    Yields (r.unwrite len) fun r' => Represents r' (q.take (q.length - len)) := by
  obtain ⟨b, rfl, rfl, hsize⟩ := h
  obtain ⟨b', hb', hread⟩ := Buffer.unwrite_spec hlen
  rw [Buffer.length_readable] at hlen
  refine ⟨b'.raw, ?_, b', rfl, hread, ?_⟩
  · rw [Buffer.unwrite_raw hsize hlen, hb']
    rfl
  · rw [Buffer.unwrite, dif_pos hlen] at hb'
    cases hb'
    exact hsize

lemma prepend (h : Represents r q) {data : List UInt8} (hdata : data.length ≤ r.prependableBytes) :
    Yields (r.prepend data) fun r' => Represents r' (data ++ q) := by
  obtain ⟨b, rfl, rfl, hsize⟩ := h
  rw [Buffer.raw_prependableBytes] at hdata
  obtain ⟨b', hb', hread⟩ := Buffer.prepend_spec hdata
  refine ⟨b'.raw, ?_, b', rfl, hread, ?_⟩
  · rw [Buffer.prepend_raw hsize hdata, hb']
    rfl
  · have hr := b.reader_le_writer
    have hw := b.writer_le_size
    have hdata' : data.length ≤ b.readerIndex := hdata
    rw [Buffer.prepend, dif_pos hdata] at hb'
    cases hb'
    exact (length_copyAt (by omega)).trans_le hsize

lemma write (h : Represents r q) {data : List UInt8} (hdata : data.length ≤ r.writableBytes) :
    Yields (r.write data) fun r' => Represents r' (q ++ data) := by
  obtain ⟨b, rfl, rfl, hsize⟩ := h
  rw [Buffer.writableBytes_raw hsize] at hdata
  obtain ⟨b', hb', hread⟩ := Buffer.copyIn_hasWritten_spec hdata
  refine ⟨b'.raw, ?_, b', rfl, hread, ?_⟩
  · rw [Buffer.write_raw hsize hdata, hb']
    rfl
  · have hw := b.writer_le_size
    have hfit : b.writerIndex + data.length ≤ b.buffer.length := by
      unfold Buffer.writableBytes at hdata
      omega
    rw [Buffer.hasWritten] at hb'
    split at hb'
    · cases hb'
      exact (length_copyAt hfit).trans_le hsize
    · cases hb'

/-- Growing and compacting keep the readable bytes, and make the room that was asked for. -/
lemma ensureWritableBytes (h : Represents r q) {len : ℕ} (ha : r.Addressable len)
    (hf : r.Fits len) :
    Yields (r.ensureWritableBytes len) fun r' => Represents r' q ∧ len ≤ r'.writableBytes := by
  obtain ⟨b, rfl, rfl, hsize⟩ := h
  obtain ⟨⟨b', hroom⟩, hb', hread⟩ := b.ensureWritableBytes_spec len
  simp only [Addressable, Fits, Buffer.writableBytes_raw hsize] at ha hf
  have hsize' : b'.buffer.length ≤ maxSize := (Buffer.length_ensureWritableBytes hsize hf).of_ok hb'
  refine ⟨b'.raw, ?_, ⟨b', rfl, hread, hsize'⟩, ?_⟩
  · rw [Buffer.ensureWritableBytes_raw hsize (fun hlt => (ha hlt).1) hf, hb']
    rfl
  · rwa [Buffer.writableBytes_raw hsize']

/-- A request that the block cannot grow to. -/
lemma ensureWritableBytes_throws (h : Represents r q) {len : ℕ} (ha : r.Addressable len)
    (hf : ¬ r.Fits len) : r.ensureWritableBytes len = .error .disabled := by
  obtain ⟨b, rfl, -, hsize⟩ := h
  simp only [Fits, not_forall] at hf
  obtain ⟨hlt, hgrow, hfit⟩ := hf
  obtain ⟨hlen, hsum⟩ := ha hlt
  have hmod := Buffer.size_lt_sizeMod hsize
  have hr := b.reader_le_writer
  have hw := b.writer_le_size
  rw [Buffer.writableBytes_raw hsize, Buffer.raw_prependableBytes] at hgrow
  have hroom : addSize b.raw.writableBytes b.raw.prependableBytes =
      b.writableBytes + b.prependableBytes := by
    rw [Buffer.writableBytes_raw hsize, Buffer.raw_prependableBytes]
    exact addSize_eq (by unfold Buffer.prependableBytes Buffer.writableBytes; omega)
  have hmake : b.raw.makeSpace len = .error .disabled := by
    rw [RawBuffer.makeSpace, hroom, addSize_eq hlen, if_pos hgrow, addSize_eq hsum]
    simp only [require, hfit, if_false]
    rfl
  rw [RawBuffer.ensureWritableBytes, if_pos hlt, hmake]
  rfl

/-- What keeps the content below `2 ^ 31` bytes can be asked for. -/
lemma addressable_and_fits (h : Represents r q) {len : ℕ} (hlen : q.length + len < 2 ^ 31) :
    r.Addressable len ∧ r.Fits len := by
  obtain ⟨b, rfl, rfl, hsize⟩ := h
  have hr := b.reader_le_writer
  have hw := b.writer_le_size
  rw [Buffer.length_readable, Buffer.readableBytes] at hlen
  simp only [Addressable, Fits, Buffer.writableBytes_raw hsize, Buffer.raw_prependableBytes,
    Buffer.raw_writerIndex, Buffer.prependableBytes, Buffer.writableBytes, kCheapPrepend]
  have hmax : maxSize = 2 ^ 63 - 1 := rfl
  have hmod : sizeMod = 2 ^ 64 := rfl
  omega

lemma append (h : Represents r q) {data : List UInt8} (hdata : q.length + data.length < 2 ^ 31) :
    Yields (r.append data) fun r' => Represents r' (q ++ data) := by
  obtain ⟨ha, hf⟩ := h.addressable_and_fits hdata
  obtain ⟨r', hr', hrep, hroom⟩ := h.ensureWritableBytes ha hf
  obtain ⟨r'', hr'', hrep'⟩ := hrep.write hroom
  refine ⟨r'', ?_, hrep'⟩
  rw [RawBuffer.append, hr', ok_bind]
  exact hr''

/-- The readable bytes move to a new block. -/
lemma shrink (h : Represents r q) (hq : q.length < 2 ^ 31) {reserve : ℕ}
    (ha : RawBuffer.new.Addressable (addSize r.readableBytes reserve))
    (hf : RawBuffer.new.Fits (addSize r.readableBytes reserve)) :
    Yields (r.shrink reserve) fun r' => Represents r' q := by
  have hnew : Represents RawBuffer.new [] := Represents.new (by decide)
  obtain ⟨other, hother, hrep, -⟩ := hnew.ensureWritableBytes ha hf
  have hlen : ([] : List UInt8).length + q.length < 2 ^ 31 := by simpa using hq
  obtain ⟨r', hr', hrep'⟩ := hrep.append hlen
  refine ⟨r', ?_, hrep'⟩
  have hbytes := h.bytesAt (le_refl q.length)
  rw [List.take_length] at hbytes
  have hsize : pieceSize r.readableBytes = q.length := by
    rw [h.readableBytes_eq, pieceSize_of_lt (by omega)]
    omega
  rw [RawBuffer.shrink, hother, ok_bind, hsize, hbytes, ok_bind, hr']

lemma shrink_throws {reserve : ℕ}
    (ha : RawBuffer.new.Addressable (addSize r.readableBytes reserve))
    (hf : ¬ RawBuffer.new.Fits (addSize r.readableBytes reserve)) :
    r.shrink reserve = .error .disabled := by
  have hnew : Represents RawBuffer.new [] := Represents.new (by decide)
  rw [RawBuffer.shrink, hnew.ensureWritableBytes_throws ha hf]
  rfl

variable {r' : RawBuffer} {str : List UInt8}

lemma writerIndex_eq (h : Represents r q) : r.writerIndex = r.readerIndex + q.length := by
  obtain ⟨b, rfl, rfl, -⟩ := h
  have := b.reader_le_writer
  rw [Buffer.length_readable, Buffer.readableBytes]
  simp only [Buffer.raw_writerIndex, Buffer.raw_readerIndex]
  omega

/-- What room at the end, when nothing has been read yet, does to the block. -/
lemma ensureWritableBytes_front (h : Represents r q) (hr : r.readerIndex = kCheapPrepend) {len : ℕ}
    (hok : r.ensureWritableBytes len = .ok r') :
    r'.readerIndex = kCheapPrepend ∧ r'.buffer.length ≤ maxSize := by
  obtain ⟨b, rfl, -, hsize⟩ := h
  rw [RawBuffer.ensureWritableBytes] at hok
  split at hok
  · obtain ⟨r₁, h₁, hok⟩ := bind_eq_ok.mp hok
    obtain ⟨-, -, hok⟩ := bind_eq_ok.mp hok
    cases hok
    unfold makeSpace at h₁
    split at h₁
    · obtain ⟨hmax, h₁⟩ := require_bind_eq_ok.mp h₁
      cases h₁
      exact ⟨hr, (length_resize ..).trans_le hmax⟩
    · obtain ⟨_, hcheck, -⟩ := bind_eq_ok.mp h₁
      have := check_eq_ok.mp hcheck
      omega
  · obtain ⟨_, hpure, hok⟩ := bind_eq_ok.mp hok
    obtain ⟨-, -, hok⟩ := bind_eq_ok.mp hok
    cases hpure
    cases hok
    exact ⟨hr, hsize⟩

lemma appendPiece (h : Represents r q) (hr : r.readerIndex = kCheapPrepend)
    (hint : str.length % 2 ^ 32 < 2 ^ 31)
    (hfit : kCheapPrepend + (q ++ cutPiece str).length ≤ maxSize) :
    Yields (r.appendPiece str) fun r' =>
      Represents r' (q ++ cutPiece str) ∧ r'.readerIndex = kCheapPrepend := by
  have hsize := pieceSize_of_lt hint
  have hw := h.writerIndex_eq
  rw [List.length_append, length_cutPiece] at hfit
  have hmax : maxSize = 2 ^ 63 - 1 := rfl
  have hmod : sizeMod = 2 ^ 64 := rfl
  have hfits : r.Fits (pieceSize str.length) := fun _ _ => by omega
  have haddr : r.Addressable (pieceSize str.length) := fun _ => by omega
  obtain ⟨r₁, h₁, hrep, hroom⟩ := h.ensureWritableBytes haddr hfits
  have hcut : str.take (pieceSize str.length) = cutPiece str := by rw [hsize, cutPiece]
  have hlen : (cutPiece str).length = pieceSize str.length := by rw [length_cutPiece, hsize]
  obtain ⟨r₂, h₂, hrep'⟩ := hrep.write (hlen.trans_le hroom)
  refine ⟨r₂, ?_, hrep', ?_⟩
  · rw [RawBuffer.appendPiece, h₁, ok_bind, check_of (hsize.trans_le (Nat.mod_le ..)), ok_bind,
      hcut, ← hlen]
    exact h₂
  · rw [RawBuffer.write] at h₂
    obtain ⟨r₃, h₃, h₂⟩ := bind_eq_ok.mp h₂
    obtain ⟨-, -, h₃⟩ := bind_eq_ok.mp h₃
    obtain ⟨-, -, h₂⟩ := bind_eq_ok.mp h₂
    cases h₃
    cases h₂
    exact (h.ensureWritableBytes_front hr h₁).1

/-- An `append` that returns has taken all that an `int` can count. -/
lemma appendPiece_ok (h : Represents r q) (hr : r.readerIndex = kCheapPrepend)
    (hok : r.appendPiece str = .ok r') :
    str.length % 2 ^ 32 < 2 ^ 31 ∧ kCheapPrepend + (q ++ cutPiece str).length ≤ maxSize := by
  have hmax : maxSize = 2 ^ 63 - 1 := rfl
  have hmod : sizeMod = 2 ^ 64 := rfl
  have hw := h.writerIndex_eq
  rw [RawBuffer.appendPiece] at hok
  obtain ⟨r₁, h₁, hok⟩ := bind_eq_ok.mp hok
  have hlen : str.length % 2 ^ 32 < 2 ^ 31 := by
    -- The copy of a huge piece would leave the string or the block.
    by_contra hge
    have hhuge := lt_pieceSize (not_lt.mp hge)
    obtain ⟨_, hcheck, hok⟩ := bind_eq_ok.mp hok
    obtain ⟨r₂, hcopy, -⟩ := bind_eq_ok.mp hok
    obtain ⟨_, hcopy, -⟩ := bind_eq_ok.mp hcopy
    have hroom := check_eq_ok.mp hcopy
    rw [List.length_take, min_eq_left (check_eq_ok.mp hcheck)] at hroom
    have := (h.ensureWritableBytes_front hr h₁).2
    omega
  refine ⟨hlen, ?_⟩
  rw [List.length_append, length_cutPiece]
  have hsize := pieceSize_of_lt hlen
  by_contra hfit
  have hblock : r.writerIndex ≤ r.buffer.length ∧ r.buffer.length ≤ maxSize := by
    obtain ⟨b, rfl, -, hsize⟩ := h
    exact ⟨b.writer_le_size, hsize⟩
  have hwritable : r.writableBytes = r.buffer.length - r.writerIndex :=
    subSize_eq hblock.1 (by omega)
  have haddr : r.Addressable (pieceSize str.length) := fun _ => by omega
  have hfits : ¬ r.Fits (pieceSize str.length) := by
    intro hfits
    have := hfits (by omega) (by rw [prependableBytes]; omega)
    omega
  rw [h.ensureWritableBytes_throws haddr hfits] at h₁
  cases h₁

lemma appendPieces {pieces : List (List UInt8)} (h : Represents r q)
    (hr : r.readerIndex = kCheapPrepend) (hint : ∀ str ∈ pieces, str.length % 2 ^ 32 < 2 ^ 31)
    (hfit : kCheapPrepend + (q ++ pieces.flatMap cutPiece).length ≤ maxSize) :
    Yields (pieces.foldlM RawBuffer.appendPiece r) fun r' =>
      Represents r' (q ++ pieces.flatMap cutPiece) := by
  induction pieces generalizing r q with
  | nil => exact ⟨r, rfl, by simpa using h⟩
  | cons str pieces ih =>
    obtain ⟨hstr, hpieces⟩ := List.forall_mem_cons.mp hint
    rw [List.flatMap_cons, ← List.append_assoc] at hfit ⊢
    have hfit' : kCheapPrepend + (q ++ cutPiece str).length ≤ maxSize := by
      rw [List.length_append] at hfit
      omega
    obtain ⟨r₁, h₁, hrep, hr₁⟩ := h.appendPiece hr hstr hfit'
    rw [List.foldlM_cons, h₁, ok_bind]
    exact ih hrep hr₁ hpieces hfit

lemma appendPieces_ok {pieces : List (List UInt8)} (h : Represents r q)
    (hr : r.readerIndex = kCheapPrepend)
    (hok : pieces.foldlM RawBuffer.appendPiece r = .ok r') :
    (∀ str ∈ pieces, str.length % 2 ^ 32 < 2 ^ 31) ∧
      kCheapPrepend + (q ++ pieces.flatMap cutPiece).length ≤ maxSize := by
  induction pieces generalizing r q with
  | nil =>
    have hw := h.writerIndex_eq
    obtain ⟨b, rfl, -, hsize⟩ := h
    have := b.writer_le_size
    rw [hr, Buffer.raw_writerIndex] at hw
    refine ⟨by simp, ?_⟩
    rw [List.flatMap_nil, List.append_nil]
    omega
  | cons str pieces ih =>
    rw [List.foldlM_cons] at hok
    obtain ⟨r₁, h₁, hok⟩ := bind_eq_ok.mp hok
    obtain ⟨hstr, hfit⟩ := h.appendPiece_ok hr h₁
    obtain ⟨r₂, h₂, hrep, hr₁⟩ := h.appendPiece hr hstr hfit
    cases h₁.symm.trans h₂
    obtain ⟨hpieces, hfit'⟩ := ih hrep hr₁ hok
    refine ⟨List.forall_mem_cons.mpr ⟨hstr, hpieces⟩, ?_⟩
    rwa [List.flatMap_cons, ← List.append_assoc]

end Represents

/-! ### Members as operations -/

inductive IntSize where
  | int8
  | int16
  | int32
  | int64
  deriving DecidableEq, Repr

def IntSize.bytes : IntSize → ℕ
  | .int8 => 1
  | .int16 => 2
  | .int32 => 4
  | .int64 => 8

inductive Op where
  | append (data : List UInt8)
  | appendInt (w : IntSize) (x : BitVec (8 * w.bytes))
  | prepend (data : List UInt8)
  | prependInt (w : IntSize) (x : BitVec (8 * w.bytes))
  | retrieve (len : ℕ)
  | retrieveAll
  | retrieveAsString (len : ℕ)
  | retrieveAllAsString
  | readInt (w : IntSize)
  | peekInt (w : IntSize)
  | ensureWritableBytes (len : ℕ)
  | write (data : List UInt8)
  | unwrite (len : ℕ)
  | shrink (reserve : ℕ)

/-- What a member returns. -/
inductive Out where
  | string (s : List UInt8)
  | int (x : ℤ)
  deriving DecidableEq, Repr

/-- A member without a result. -/
def silent (x : Code RawBuffer) : Code (RawBuffer × Option Out) := (·, none) <$> x

def returnsInt {n : ℕ} (x : Code (BitVec n × RawBuffer)) : Code (RawBuffer × Option Out) :=
  (fun p => (p.2, some (.int p.1.toInt))) <$> x

def returnsString (x : Code (List UInt8 × RawBuffer)) : Code (RawBuffer × Option Out) :=
  (fun p => (p.2, some (.string p.1))) <$> x

def call (b : RawBuffer) : Op → Code (RawBuffer × Option Out)
  | .append data => silent (b.append data)
  | .appendInt .int8 x => silent (b.appendInt8 x)
  | .appendInt .int16 x => silent (b.appendInt16 x)
  | .appendInt .int32 x => silent (b.appendInt32 x)
  | .appendInt .int64 x => silent (b.appendInt64 x)
  | .prepend data => silent (b.prepend data)
  | .prependInt .int8 x => silent (b.prependInt8 x)
  | .prependInt .int16 x => silent (b.prependInt16 x)
  | .prependInt .int32 x => silent (b.prependInt32 x)
  | .prependInt .int64 x => silent (b.prependInt64 x)
  | .retrieve len => silent (b.retrieve len)
  | .retrieveAll => silent (pure b.retrieveAll)
  | .retrieveAsString len => returnsString (b.retrieveAsString len)
  | .retrieveAllAsString => returnsString b.retrieveAllAsString
  | .readInt .int8 => returnsInt b.readInt8
  | .readInt .int16 => returnsInt b.readInt16
  | .readInt .int32 => returnsInt b.readInt32
  | .readInt .int64 => returnsInt b.readInt64
  | .peekInt .int8 => returnsInt ((·, b) <$> b.peekInt8)
  | .peekInt .int16 => returnsInt ((·, b) <$> b.peekInt16)
  | .peekInt .int32 => returnsInt ((·, b) <$> b.peekInt32)
  | .peekInt .int64 => returnsInt ((·, b) <$> b.peekInt64)
  | .ensureWritableBytes len => silent (b.ensureWritableBytes len)
  | .write data => silent (b.write data)
  | .unwrite len => silent (b.unwrite len)
  | .shrink reserve => silent (b.shrink reserve)

/-! ### The abstract queue -/

/-- The big-endian two's-complement value of some bytes. -/
def decodeInt (w : IntSize) (l : List UInt8) : ℤ := (BitVec.ofNat (8 * w.bytes) (ofBeBytes l)).toInt

/-- What a member does to a queue of bytes. Making room and moving to a new block do nothing. -/
def Op.onQueue (q : List UInt8) : Op → List UInt8 × Option Out
  | .append data | .write data => (q ++ data, none)
  | .appendInt w x => (q ++ beBytes w.bytes x.toNat, none)
  | .prepend data => (data ++ q, none)
  | .prependInt w x => (beBytes w.bytes x.toNat ++ q, none)
  | .retrieve len => (q.drop len, none)
  | .retrieveAll => ([], none)
  | .retrieveAsString len => (q.drop len, some (.string (q.take len)))
  | .retrieveAllAsString => ([], some (.string q))
  | .readInt w => (q.drop w.bytes, some (.int (decodeInt w (q.take w.bytes))))
  | .peekInt w => (q, some (.int (decodeInt w (q.take w.bytes))))
  | .ensureWritableBytes _ | .shrink _ => (q, none)
  | .unwrite len => (q.take (q.length - len), none)

/-- The preconditions that the members assert. -/
def Op.Asserted (b : RawBuffer) : Op → Prop
  | .prepend data => data.length ≤ b.prependableBytes
  | .prependInt w _ => w.bytes ≤ b.prependableBytes
  | .retrieve len | .retrieveAsString len | .unwrite len => len ≤ b.readableBytes
  | .readInt w | .peekInt w => w.bytes ≤ b.readableBytes
  | .write data => data.length ≤ b.writableBytes
  | _ => True

/-- How many bytes a member adds to the content. -/
def Op.added : Op → ℕ
  | .append data | .prepend data | .write data => data.length
  | .appendInt w _ | .prependInt w _ => w.bytes
  | _ => 0

/-- The room that a member is asked to make is addressable. -/
def Op.Addressable (b : RawBuffer) : Op → Prop
  | .ensureWritableBytes len => b.Addressable len
  | .shrink reserve => new.Addressable (addSize b.readableBytes reserve)
  | _ => True

/-- The room that a member is asked to make is not beyond `max_size()`. -/
def Op.Fits (b : RawBuffer) : Op → Prop
  | .ensureWritableBytes len => b.Fits len
  | .shrink reserve => new.Fits (addSize b.readableBytes reserve)
  | _ => True

instance (b : RawBuffer) : ∀ op, Decidable (Op.Asserted b op)
  | .prepend _ | .prependInt _ _ | .retrieve _ | .retrieveAsString _ | .unwrite _ | .readInt _
  | .peekInt _ | .write _ => inferInstanceAs (Decidable (_ ≤ _))
  | .append _ | .appendInt _ _ | .retrieveAll | .retrieveAllAsString | .ensureWritableBytes _
  | .shrink _ => inferInstanceAs (Decidable True)

instance (b : RawBuffer) : ∀ op, Decidable (Op.Addressable b op)
  | .ensureWritableBytes len => inferInstanceAs (Decidable (b.Addressable len))
  | .shrink reserve =>
    inferInstanceAs (Decidable (RawBuffer.Addressable new (addSize b.readableBytes reserve)))
  | .append _ | .appendInt _ _ | .prepend _ | .prependInt _ _ | .retrieve _ | .retrieveAll
  | .retrieveAsString _ | .retrieveAllAsString | .readInt _ | .peekInt _ | .write _ | .unwrite _ =>
    inferInstanceAs (Decidable True)

section

variable {r : RawBuffer} {q : List UInt8}

lemma yields_silent {x : Code RawBuffer} {q : List UInt8} (h : Yields x fun r => Represents r q) :
    Yields (silent x) fun p => Represents p.1 q ∧ p.2 = none := by
  obtain ⟨r, rfl, hr⟩ := h
  exact ⟨(r, none), rfl, hr, rfl⟩

lemma yields_returnsInt {n : ℕ} {x : Code (BitVec n × RawBuffer)} {q : List UInt8} {v : BitVec n}
    (h : Yields x fun p => p.1 = v ∧ Represents p.2 q) :
    Yields (returnsInt x) fun p => Represents p.1 q ∧ p.2 = some (.int v.toInt) := by
  obtain ⟨⟨_, r⟩, rfl, rfl, hr⟩ := h
  exact ⟨(r, _), rfl, hr, rfl⟩

lemma Represents.appendInt (h : Represents r q) {n : ℕ} (x : BitVec (8 * n))
    (hq : q.length + n < 2 ^ 31) :
    Yields (r.appendInt n x) fun r' => Represents r' (q ++ beBytes n x.toNat) := by
  rw [RawBuffer.appendInt, Buffer.networkBytes_eq]
  exact h.append (by simpa using hq)

lemma Represents.prependInt (h : Represents r q) {n : ℕ} (x : BitVec (8 * n))
    (hn : n ≤ r.prependableBytes) :
    Yields (r.prependInt n x) fun r' => Represents r' (beBytes n x.toNat ++ q) := by
  rw [RawBuffer.prependInt, Buffer.networkBytes_eq]
  exact h.prepend (by simpa using hn)

lemma Represents.peeksInt (h : Represents r q) {n : ℕ} (hn : n ≤ q.length) :
    Yields ((·, r) <$> r.peekInt n) fun p =>
      p.1 = BitVec.ofNat (8 * n) (ofBeBytes (q.take n)) ∧ Represents p.2 q := by
  rw [h.peekInt hn]
  exact ⟨_, rfl, rfl, h⟩

/-- Each member does to the fields what it does to the queue. -/
lemma Represents.call (h : Represents r q) {op : Op} (hassert : op.Asserted r)
    (hlen : r.readableBytes + op.added < 2 ^ 31) (ha : op.Addressable r) (hf : op.Fits r) :
    Yields (r.call op) fun p => Represents p.1 (op.onQueue q).1 ∧ p.2 = (op.onQueue q).2 := by
  rw [h.readableBytes_eq] at hlen
  cases op with
  | append data => exact yields_silent (h.append hlen)
  | appendInt w x =>
    cases w with
    | int8 => exact yields_silent (h.appendInt x hlen)
    | int16 => exact yields_silent (h.appendInt x hlen)
    | int32 => exact yields_silent (h.appendInt x hlen)
    | int64 => exact yields_silent (h.appendInt x hlen)
  | prepend data => exact yields_silent (h.prepend hassert)
  | prependInt w x =>
    cases w with
    | int8 => exact yields_silent (h.prependInt x hassert)
    | int16 => exact yields_silent (h.prependInt x hassert)
    | int32 => exact yields_silent (h.prependInt x hassert)
    | int64 => exact yields_silent (h.prependInt x hassert)
  | retrieve len => exact yields_silent (h.retrieve (h.readableBytes_eq ▸ hassert))
  | retrieveAll => exact yields_silent ⟨_, rfl, h.retrieveAll⟩
  | retrieveAsString len =>
    have hlen' : len ≤ q.length := h.readableBytes_eq ▸ hassert
    obtain ⟨⟨s, r'⟩, hr', rfl, hrep⟩ := h.retrieveAsString hlen'
    exact ⟨(r', _), by simp only [RawBuffer.call, hr']; rfl, hrep, rfl⟩
  | retrieveAllAsString =>
    obtain ⟨⟨s, r'⟩, hr', rfl, hrep⟩ := h.retrieveAsString (le_refl q.length)
    rw [List.drop_length] at hrep
    rw [List.take_length] at hr'
    refine ⟨(r', some (.string q)), ?_, hrep, rfl⟩
    simp only [RawBuffer.call, RawBuffer.retrieveAllAsString, h.readableBytes_eq, hr']
    rfl
  | readInt w =>
    have hn : w.bytes ≤ q.length := h.readableBytes_eq ▸ hassert
    cases w with
    | int8 => exact yields_returnsInt (h.readInt hn)
    | int16 => exact yields_returnsInt (h.readInt hn)
    | int32 => exact yields_returnsInt (h.readInt hn)
    | int64 => exact yields_returnsInt (h.readInt hn)
  | peekInt w =>
    have hn : w.bytes ≤ q.length := h.readableBytes_eq ▸ hassert
    cases w with
    | int8 => exact yields_returnsInt (h.peeksInt hn)
    | int16 => exact yields_returnsInt (h.peeksInt hn)
    | int32 => exact yields_returnsInt (h.peeksInt hn)
    | int64 => exact yields_returnsInt (h.peeksInt hn)
  | ensureWritableBytes len =>
    obtain ⟨r', hr', hrep, -⟩ := h.ensureWritableBytes ha hf
    exact yields_silent ⟨r', hr', hrep⟩
  | write data => exact yields_silent (h.write hassert)
  | unwrite len => exact yields_silent (h.unwrite (h.readableBytes_eq ▸ hassert))
  | shrink reserve => exact yields_silent (h.shrink hlen ha hf)

/-- A member that is asked for a block beyond `max_size()` throws. -/
lemma Represents.call_throws (h : Represents r q) {op : Op} (ha : op.Addressable r)
    (hf : ¬ op.Fits r) : r.call op = .error .disabled := by
  cases op with
  | ensureWritableBytes len =>
    rw [RawBuffer.call, h.ensureWritableBytes_throws ha hf]
    rfl
  | shrink reserve =>
    rw [RawBuffer.call, Represents.shrink_throws ha hf]
    rfl
  | _ => exact absurd trivial hf

end

end RawBuffer

/-! ### Runs over any number of buffers -/

namespace BufferSystem

/-- One member of one buffer, or `swap` of two buffers. -/
inductive Event (ι : Type) where
  | call (i : ι) (op : RawBuffer.Op)
  | swap (i j : ι)

/-- The buffers, and what their members have returned. -/
structure State (ι α : Type) where
  buffers : ι → α
  outs : List RawBuffer.Out

variable {ι α : Type} [DecidableEq ι]

def State.swap (s : State ι α) (i j : ι) : State ι α :=
  { s with buffers := Function.update (Function.update s.buffers i (s.buffers j)) j (s.buffers i) }

def State.set (s : State ι α) (i : ι) (b : α) (out : Option RawBuffer.Out) : State ι α :=
  ⟨Function.update s.buffers i b, s.outs ++ out.toList⟩

def step (s : State ι RawBuffer) : Event ι → Code (State ι RawBuffer)
  | .call i op => (fun p => s.set i p.1 p.2) <$> (s.buffers i).call op
  | .swap i j => return s.swap i j

/-- The same event on queues of bytes. -/
def queueStep (s : State ι (List UInt8)) : Event ι → State ι (List UInt8)
  | .call i op => s.set i (op.onQueue (s.buffers i)).1 (op.onQueue (s.buffers i)).2
  | .swap i j => s.swap i j

/-- The asserted preconditions hold, and the content of each buffer stays below `2 ^ 31` bytes. -/
def Permitted (s : State ι RawBuffer) : Event ι → Prop
  | .call i op =>
    op.Asserted (s.buffers i) ∧ (s.buffers i).readableBytes + op.added < 2 ^ 31
  | .swap _ _ => True

/-- No request for room overflows a `size_t`. -/
def Addressable (s : State ι RawBuffer) : Event ι → Prop
  | .call i op => op.Addressable (s.buffers i)
  | .swap _ _ => True

/-- No request for room is beyond `max_size()`. -/
def Fits (s : State ι RawBuffer) : Event ι → Prop
  | .call i op => op.Fits (s.buffers i)
  | .swap _ _ => True

instance (s : State ι RawBuffer) : ∀ e, Decidable (Permitted s e)
  | .call i op => inferInstanceAs (Decidable (op.Asserted (s.buffers i) ∧ _ < _))
  | .swap _ _ => inferInstanceAs (Decidable True)

instance (s : State ι RawBuffer) : ∀ e, Decidable (Addressable s e)
  | .call i op => inferInstanceAs (Decidable (op.Addressable (s.buffers i)))
  | .swap _ _ => inferInstanceAs (Decidable True)

/-- Buffers made by the constructor. -/
def init (sizes : ι → ℕ) : State ι RawBuffer := ⟨fun i => RawBuffer.new (sizes i), []⟩

def emptyQueues : State ι (List UInt8) := ⟨fun _ => [], []⟩

/-- Every buffer has its indices in order and holds the bytes of its queue, and the members have
returned what the queues return. -/
structure Refines (s : State ι RawBuffer) (q : State ι (List UInt8)) : Prop where
  reader_le_writer : ∀ i, (s.buffers i).readerIndex ≤ (s.buffers i).writerIndex
  writer_le_size : ∀ i, (s.buffers i).writerIndex ≤ (s.buffers i).buffer.length
  readable_eq : ∀ i, slice (s.buffers i).buffer (s.buffers i).readerIndex
    (s.buffers i).writerIndex = q.buffers i
  outs_eq : s.outs = q.outs

def Inv (s : State ι RawBuffer) (q : State ι (List UInt8)) : Prop :=
  (∀ i, (s.buffers i).Represents (q.buffers i)) ∧ s.outs = q.outs

omit [DecidableEq ι] in
lemma Inv.refines {s : State ι RawBuffer} {q : State ι (List UInt8)} (h : Inv s q) :
    Refines s q :=
  ⟨fun i => (h.1 i).indices.1, fun i => (h.1 i).indices.2, fun i => (h.1 i).readable_eq, h.2⟩

lemma Inv.set {s : State ι RawBuffer} {q : State ι (List UInt8)} (h : Inv s q) (i : ι)
    {b : RawBuffer} {l : List UInt8} (hb : b.Represents l) (out : Option RawBuffer.Out) :
    Inv (s.set i b out) (q.set i l out) := by
  refine ⟨fun j => ?_, by simp [State.set, h.2]⟩
  by_cases hj : j = i
  · subst hj
    simpa [State.set] using hb
  · simpa [State.set, hj] using h.1 j

lemma Inv.swap {s : State ι RawBuffer} {q : State ι (List UInt8)} (h : Inv s q) (i j : ι) :
    Inv (s.swap i j) (q.swap i j) := by
  refine ⟨fun k => ?_, h.2⟩
  by_cases hj : k = j
  · subst hj
    simpa [State.swap] using h.1 i
  · by_cases hi : k = i
    · subst hi
      simpa [State.swap, hj] using h.1 j
    · simpa [State.swap, hj, hi] using h.1 k

lemma Inv.yields {s : State ι RawBuffer} {q : State ι (List UInt8)} {e : Event ι} (h : Inv s q)
    (hp : Permitted s e) (ha : Addressable s e) (hf : Fits s e) :
    Yields (step s e) fun t => Inv t (queueStep q e) := by
  cases e with
  | call i op =>
    obtain ⟨⟨b, out⟩, hb, hrep, hout⟩ := (h.1 i).call hp.1 hp.2 ha hf
    subst hout
    exact ⟨_, by rw [step, hb]; rfl, h.set i hrep _⟩
  | swap i j => exact ⟨_, rfl, h.swap i j⟩

lemma Inv.safe {s : State ι RawBuffer} {q : State ι (List UInt8)} {e : Event ι} (h : Inv s q)
    (hp : Permitted s e) (ha : Addressable s e) :
    Safe (step s e) fun t => Inv t (queueStep q e) := by
  by_cases hf : Fits s e
  · exact (h.yields hp ha hf).safe
  · cases e with
    | call i op =>
      rw [step, (h.1 i).call_throws ha hf]
      trivial
    | swap i j => exact absurd trivial hf

/-- In every run whose requests for room are addressable no assertion fails, and every state reached
refines the queues. The run gets to its end unless a request is beyond `max_size()`, which throws.
-/
theorem buffer_refines_queue (sizes : ι → ℕ)
    (hsizes : ∀ i, kCheapPrepend + sizes i ≤ RawBuffer.maxSize) (es : List (Event ι))
    (h : Along step (fun s e => Permitted s e ∧ Addressable s e) (init sizes) es) :
    Safe (run step (init sizes) es) (fun s => Refines s (es.foldl queueStep emptyQueues)) ∧
      (Along step (fun s e => (Permitted s e ∧ Addressable s e) ∧ Fits s e) (init sizes) es →
        Yields (run step (init sizes) es)
          fun s => Refines s (es.foldl queueStep emptyQueues)) := by
  have hinit : Inv (init sizes) emptyQueues :=
    ⟨fun i => RawBuffer.Represents.new (hsizes i), rfl⟩
  constructor
  · apply (run_follows (fun s q e hs hP => hs.safe hP.1 hP.2) hinit h).mono
    intro s hs
    exact hs.refines
  · intro hfits
    obtain ⟨s, hs, hinv⟩ :=
      run_follows_yields (fun s q e hs hP => hs.yields hP.1.1 hP.1.2 hP.2) hinit hfits
    exact ⟨s, hs, hinv.refines⟩

/-- A typed value is put in front of some bytes, the buffer moves to a block of its size, and the
value is read back. -/
@[irreducible] def headerRun : List (Event Bool) :=
  [.call false (.append [1, 2, 3]), .call false (.prependInt .int16 0xfffe#16), .swap false true,
    .call true (.shrink 0), .call true (.ensureWritableBytes 2000), .call true (.readInt .int16),
    .call true (.unwrite 1), .call true .retrieveAllAsString]

theorem buffer_refines_queue_header :
    (∀ i : Bool, kCheapPrepend + (fun _ => kInitialSize : Bool → ℕ) i ≤ RawBuffer.maxSize) ∧
      Along step (fun s e => Permitted s e ∧ Addressable s e) (init fun _ : Bool => kInitialSize)
        headerRun ∧
      Safe (run step (init fun _ => kInitialSize) headerRun)
        (fun s => Refines s (headerRun.foldl queueStep emptyQueues)) := by
  have hsizes : ∀ i : Bool, kCheapPrepend + (fun _ => kInitialSize : Bool → ℕ) i ≤
      RawBuffer.maxSize := by decide
  have h : Along step (fun s e => Permitted s e ∧ Addressable s e)
      (init fun _ : Bool => kInitialSize) headerRun := by decide +kernel
  have hrun := buffer_refines_queue (fun _ => kInitialSize) hsizes headerRun h
  exact ⟨hsizes, h, hrun.1⟩

/-- A buffer with five bytes is asked for room for `2 ^ 64 - 9` more: the sum with the writer index
is 4, to which the block is cut, and no assertion fails. An empty buffer is asked for room for
`2 ^ 64 - 1` bytes: the sum with `kCheapPrepend` is 7, so that nothing is to be moved. -/
theorem room_request_overflows :
    (Along step Permitted (init fun _ : Unit => kInitialSize)
        [.call () (.append [104, 101, 108, 108, 111]),
          .call () (.ensureWritableBytes (2 ^ 64 - 9))] ∧
      Yields (run step (init fun _ : Unit => kInitialSize)
          [.call () (.append [104, 101, 108, 108, 111]),
            .call () (.ensureWritableBytes (2 ^ 64 - 9))])
        fun s => (s.buffers ()).writerIndex = 13 ∧ (s.buffers ()).buffer.length = 4) ∧
    (Along step Permitted (init fun _ : Unit => kInitialSize)
        [.call () (.ensureWritableBytes (2 ^ 64 - 1))] ∧
      failure (run step (init fun _ : Unit => kInitialSize)
        [.call () (.ensureWritableBytes (2 ^ 64 - 1))]) = some .bufferMakeSpaceFront) := by
  decide +kernel

end BufferSystem
end Muduo

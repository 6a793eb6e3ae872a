import Muduo.Base.Code
import Muduo.Base.LogStream
import Muduo.Machine.Loop
import Muduo.Machine.Memory

/-!
# The stream of a log statement in memory

`LogStream` is the text in a buffer. Here the buffer is the array of `FixedBuffer` with its pointer
`cur_`, an integer has the width of its type, and a write that leaves the array is a fault. Numbers
are written straight to `current()`, with a terminator that is not accounted for.

## Main results

* `convert_canonical`: `convert` and `convertHex` write canonical numerals.
* `pieces_whole`: the stream holds whole pieces, and does not run over.
-/

namespace Muduo

open Machine LogStream

/-- The types for which `convert` makes sense. -/
inductive IntType where
  | short
  | unsignedShort
  | int
  | unsignedInt
  | long
  | unsignedLong
  | longLong
  | unsignedLongLong
  deriving DecidableEq

namespace IntType

abbrev width : IntType → ℕ
  | .short | .unsignedShort => 16
  | .int | .unsignedInt => 32
  | .long | .unsignedLong | .longLong | .unsignedLongLong => 64

def isSigned : IntType → Bool
  | .short | .int | .long | .longLong => true
  | .unsignedShort | .unsignedInt | .unsignedLong | .unsignedLongLong => false

variable (T : IntType)

def value (v : BitVec T.width) : ℤ := if T.isSigned then v.toInt else v.toNat

/-- `i / 10`, which is computed in `int` at least and converted back. -/
def div10 (i : BitVec T.width) : BitVec T.width := BitVec.ofInt T.width ((T.value i).tdiv 10)

lemma width_le : T.width ≤ 64 := by cases T <;> decide

lemma value_div10 (i : BitVec T.width) : T.value (T.div10 i) = (T.value i).tdiv 10 := by
  unfold value div10
  split
  · have hle := BitVec.le_two_mul_toInt (x := i)
    have hlt := BitVec.two_mul_toInt_lt (x := i)
    have hdiv : (i.toInt.tdiv 10).natAbs = i.toInt.natAbs / 10 := Int.natAbs_tdiv i.toInt 10
    have hpos : (0 : ℤ) < 2 ^ T.width := by positivity
    rw [value, if_pos ‹_›, BitVec.toInt_ofInt]
    apply Int.bmod_eq_of_le_mul_two
    · push_cast
      omega
    · push_cast
      omega
  · have hlt : i.toNat / 10 < 2 ^ T.width := (Nat.div_le_self ..).trans_lt i.isLt
    have hdiv : (i.toNat : ℤ).tdiv 10 = (i.toNat / 10 : ℕ) := (Int.ofNat_tdiv i.toNat 10).symm
    rw [value, if_neg ‹_›, hdiv, BitVec.ofInt_natCast, BitVec.toNat_ofNat, Nat.mod_eq_of_lt hlt]

lemma value_eq_zero {i : BitVec T.width} : T.value i = 0 ↔ i = 0#_ := by
  unfold value
  split
  · rw [← BitVec.toInt_inj, BitVec.toInt_zero]
  · rw [← BitVec.toNat_inj, BitVec.toNat_zero, Int.natCast_eq_zero]

lemma natAbs_div10 (i : BitVec T.width) :
    (T.value (T.div10 i)).natAbs = (T.value i).natAbs / 10 := by
  rw [T.value_div10]
  exact Int.natAbs_tdiv _ 10

lemma natAbs_div10_lt {i : BitVec T.width} (h : T.div10 i ≠ 0#_) :
    (T.value (T.div10 i)).natAbs < (T.value i).natAbs := by
  have hdiv := T.natAbs_div10 i
  rw [ne_eq, ← T.value_eq_zero] at h
  omega

/-- The digit that a round of `convert` writes, and those that are left. -/
lemma reverse_decimal (i : BitVec T.width) :
    (decimal (T.value i).natAbs).reverse = zero ((T.value i).tmod 10) ::
      if T.div10 i = 0#_ then [] else (decimal (T.value (T.div10 i)).natAbs).reverse := by
  have hdiv := T.natAbs_div10 i
  rw [T.value_div10] at hdiv
  rw [← convertLoop_eq (Nat.lt_succ_self _), convertLoop]
  simp only [← T.value_eq_zero, T.value_div10]
  split
  · rfl
  · rw [convertLoop_eq (by omega)]

lemma length_decimalInt_value (v : BitVec T.width) : (decimalInt (T.value v)).length ≤ 20 := by
  unfold value
  split
  · exact length_decimalInt_toInt T.width_le v
  · exact length_decimalInt_toNat T.width_le v

end IntType

/-- `data_`, and the distance of `cur_` from its beginning. -/
structure RawLogStream where
  data : List UInt8
  cur : ℕ
  deriving DecidableEq

namespace RawLogStream

/-! ### Integers -/

/-- `*p = c`. -/
def store (mem : List UInt8) (p : ℕ) (c : UInt8) : Code (List UInt8) := do
  check .logBufferOverrun (p < mem.length)
  return mem.set p c

/-- The variables of the loops of `convert` and `convertHex`. -/
structure Conversion (w : ℕ) where
  mem : List UInt8
  p : ℕ
  i : BitVec w

/-- A round of these loops: `digit` is the character of the last digit of `i`, and `quot` is `i`
without it. -/
def digitRound {w : ℕ} (digit : BitVec w → UInt8) (quot : BitVec w → BitVec w) (s : Conversion w) :
    Code (Round (Conversion w)) := do
  let mem ← store s.mem s.p (digit s.i)
  let s := ⟨mem, s.p + 1, quot s.i⟩
  return if s.i ≠ 0#w then .again s else .stop s

/-- `*p = '\0'; std::reverse(buf, p); return p - buf;`. -/
def finishText (mem : List UInt8) (buf p : ℕ) : Code (List UInt8 × ℕ) := do
  let mem ← store mem p 0
  return (copyAt mem buf (slice mem buf p).reverse, p - buf)

def convert (T : IntType) (mem : List UInt8) (buf : ℕ) (value : BitVec T.width) :
    Code (List UInt8 × ℕ) := do
  let s ← loop .outOfFuel (digitRound (fun i => zero ((T.value i).tmod 10)) T.div10)
    (fun s => (T.value s.i).natAbs) ⟨mem, buf, value⟩
  if T.value value < 0 then
    let mem ← store s.mem s.p 45
    finishText mem buf (s.p + 1)
  else
    finishText s.mem buf s.p

/-- `digitsHex[lsd]`. -/
def digitsHex (lsd : ℕ) : UInt8 := (ascii "0123456789ABCDEF").getD lsd 0

def convertHex (mem : List UInt8) (buf : ℕ) (value : BitVec 64) : Code (List UInt8 × ℕ) := do
  let s ← loop .outOfFuel (digitRound (fun i => digitsHex (i % 16).toNat) (· / 16))
    (fun s => s.i.toNat) ⟨mem, buf, value⟩
  finishText s.mem buf s.p

/-! ### The buffer -/

variable (s : RawLogStream)

def length : ℕ := s.cur

/-- `avail()` is an `int`. -/
def avail : ℤ := kSmallBuffer - s.cur

/-- The conversion of an `int` to `size_t`. -/
def toSize (x : ℤ) : ℕ := (x % 2 ^ 64).toNat

/-- `memcpy` to `current()`. -/
def copyIn (piece : List UInt8) : Code (List UInt8) := do
  check .logBufferOverrun (s.cur + piece.length ≤ s.data.length)
  return copyAt s.data s.cur piece

def append (piece : List UInt8) : Code RawLogStream :=
  if piece.length < toSize s.avail then do
    let data ← s.copyIn piece
    return ⟨data, s.cur + piece.length⟩
  else
    return s

/-! ### The operators -/

def formatInteger (T : IntType) (v : BitVec T.width) : Code RawLogStream :=
  if kMaxNumericSize ≤ s.avail then do
    let (data, len) ← convert T s.data s.cur v
    return ⟨data, s.cur + len⟩
  else
    return s

def insertPointer (p : BitVec 64) : Code RawLogStream :=
  if kMaxNumericSize ≤ s.avail then do
    let data ← store s.data s.cur 48
    let data ← store data (s.cur + 1) 120
    let (data, len) ← convertHex data (s.cur + 2) p
    return ⟨data, s.cur + (len + 2)⟩
  else
    return s

/-- `text` is what `"%.12g"` makes of the number. `snprintf` returns its length. -/
def insertDouble (text : List UInt8) : Code RawLogStream :=
  if kMaxNumericSize ≤ s.avail then do
    let data ← s.copyIn (snprintf kMaxNumericSize text ++ [0])
    return ⟨data, s.cur + text.length⟩
  else
    return s

def insertCString (str : Option (List UInt8)) : Code RawLogStream :=
  s.append (str.getD (ascii "(null)"))

/-- `stream << v`. -/
def insert : Operand → Code RawLogStream
  | .bool v => s.append (ascii (if v then "1" else "0"))
  | .short v => s.formatInteger .int (v.signExtend 32)
  | .unsignedShort v => s.formatInteger .unsignedInt (v.zeroExtend 32)
  | .int v => s.formatInteger .int v
  | .unsignedInt v => s.formatInteger .unsignedInt v
  | .long v => s.formatInteger .long v
  | .unsignedLong v => s.formatInteger .unsignedLong v
  | .longLong v => s.formatInteger .longLong v
  | .unsignedLongLong v => s.formatInteger .unsignedLongLong v
  | .pointer p => s.insertPointer p
  | .float v => s.insertDouble v
  | .double v => s.insertDouble v
  | .char v => s.append [v]
  | .cString str => s.insertCString str
  | .unsignedCString str => s.insertCString str
  | .string v => s.append v
  | .stringPiece v => s.append v
  | .buffer v => s.append v
  | .fmt v => s.append v

variable {s}

/-! ### Writing digits -/

lemma store_eq {mem : List UInt8} {p : ℕ} (h : p < mem.length) (c : UInt8) :
    store mem p c = .ok (copyAt mem p [c]) := by
  rw [store, check_of h, ok_bind, set_eq_copyAt h]
  rfl

/-- A byte behind what has been written. -/
lemma store_behind {mem text : List UInt8} {buf : ℕ} (h : buf + text.length < mem.length)
    (c : UInt8) :
    store (copyAt mem buf text) (buf + text.length) c = .ok (copyAt mem buf (text ++ [c])) := by
  rw [store_eq (by rwa [length_copyAt h.le]), copyAt_copyAt_behind h]

lemma store_reverse {mem text : List UInt8} {buf : ℕ} (h : buf + text.length < mem.length)
    (c : UInt8) : store (copyAt mem buf text.reverse) (buf + text.length) c =
      .ok (copyAt mem buf (c :: text).reverse) := by
  rw [← text.length_reverse] at h ⊢
  rw [store_behind h, List.reverse_cons]

section

variable {w : ℕ} {digit : BitVec w → UInt8} {quot : BitVec w → BitVec w} {μ : BitVec w → ℕ}
  {text : BitVec w → List UInt8}

lemma digitRound_lt (hμ : ∀ i, quot i ≠ 0#w → μ (quot i) < μ i) (s t : Conversion w)
    (h : digitRound digit quot s = .ok (.again t)) : μ t.i < μ s.i := by
  obtain ⟨mem, -, h⟩ := bind_eq_ok.mp h
  dsimp only at h
  split at h
  · cases h
    exact hμ _ ‹_›
  · cases h

/-- The loop writes the digits of `i`, the last one first. -/
lemma digitLoop_eq (hμ : ∀ i, quot i ≠ 0#w → μ (quot i) < μ i)
    (htext : ∀ i, text i = digit i :: if quot i = 0#w then [] else text (quot i))
    {mem : List UInt8} {p : ℕ} {i : BitVec w} (hroom : p + (text i).length ≤ mem.length) :
    ∃ j, loop .outOfFuel (digitRound digit quot) (fun s => μ s.i) ⟨mem, p, i⟩ =
      .ok ⟨copyAt mem p (text i), p + (text i).length, j⟩ := by
  induction hn : μ i using Nat.strong_induction_on generalizing mem p i with
  | _ n ih =>
    have hi := htext i
    have hlen : (text i).length = (if quot i = 0#w then [] else text (quot i)).length + 1 := by
      rw [hi, List.length_cons]
    have hp : p < mem.length := by omega
    rw [loop_eq (digitRound_lt hμ), digitRound, store_eq hp, ok_bind]
    dsimp only
    by_cases hzero : quot i = 0#w
    · rw [if_pos hzero] at hi hlen
      rw [if_neg (not_not.mpr hzero), hi]
      exact ⟨quot i, rfl⟩
    · rw [if_neg hzero] at hi hlen
      have hroom' : p + 1 + (text (quot i)).length ≤ (copyAt mem p [digit i]).length := by
        rw [length_copyAt hp]
        omega
      obtain ⟨j, hj⟩ := ih _ (hn ▸ hμ i hzero) hroom' rfl
      refine ⟨j, ?_⟩
      rw [if_pos hzero]
      refine hj.trans ?_
      have hbehind := copyAt_copyAt_behind (l := mem) (x := [digit i]) (y := text (quot i)) (i := p)
        (by rw [List.length_singleton]; omega)
      rw [List.length_singleton] at hbehind
      rw [hbehind, hi, List.length_cons, List.singleton_append, add_assoc, add_comm 1]

end

/-- The digits are turned around, and a terminator is behind them. -/
lemma finishText_eq {mem text : List UInt8} {buf : ℕ} (h : buf + text.length < mem.length) :
    finishText (copyAt mem buf text.reverse) buf (buf + text.length) =
      .ok (copyAt mem buf (text ++ [0]), text.length) := by
  have hslice : slice (copyAt mem buf (0 :: text).reverse) buf (buf + text.length) =
      text.reverse := by
    have hself := slice_copyAt_self (l := mem) (i := buf) (d := (0 :: text).reverse) (by omega)
    rw [List.length_reverse, List.length_cons, List.reverse_cons] at hself
    have hle : buf + text.length ≤ buf + (text.length + 1) := by omega
    rw [← take_slice _ hle, List.reverse_cons, hself, ← text.length_reverse, List.take_left]
  rw [finishText, store_reverse h, ok_bind, hslice, List.reverse_reverse, List.reverse_cons,
    copyAt_copyAt_again (by omega) (List.length_reverse ..).symm, Nat.add_sub_cancel_left]
  rfl

/-- A conversion writes a text and a terminator, and returns the length of the text. -/
def Writes (conversion : List UInt8 → ℕ → Code (List UInt8 × ℕ)) (text : List UInt8) : Prop :=
  ∀ mem buf, buf + text.length + 1 ≤ mem.length →
    conversion mem buf = .ok (copyAt mem buf (text ++ [0]), text.length)

lemma convert_writes (T : IntType) (v : BitVec T.width) :
    Writes (convert T · · v) (decimalInt (T.value v)) := by
  intro mem buf hroom
  have hdigits : buf + (decimal (T.value v).natAbs).reverse.length ≤ mem.length := by
    unfold decimalInt at hroom
    rw [List.length_reverse]
    split at hroom
    · rw [List.length_cons] at hroom
      omega
    · omega
  obtain ⟨j, hj⟩ := digitLoop_eq (μ := fun i => (T.value i).natAbs) (i := v)
    (fun i => T.natAbs_div10_lt) T.reverse_decimal hdigits
  dsimp only
  rw [convert, hj, ok_bind, List.length_reverse]
  unfold decimalInt at hroom ⊢
  split
  · rw [if_pos ‹_›] at hroom
    rw [store_reverse (by rw [List.length_cons] at hroom; omega), ok_bind]
    exact finishText_eq hroom
  · rw [if_neg ‹_›] at hroom
    exact finishText_eq hroom

lemma div16_eq_zero {i : BitVec 64} : i / 16 = 0#64 ↔ i.toNat / 16 = 0 := by
  rw [← BitVec.toNat_inj, BitVec.toNat_udiv, BitVec.toNat_zero]
  rfl

lemma div16_lt {i : BitVec 64} (h : i / 16 ≠ 0#64) : (i / 16).toNat < i.toNat := by
  have hdiv : (i / 16).toNat = i.toNat / 16 := BitVec.toNat_udiv
  rw [ne_eq, div16_eq_zero] at h
  omega

/-- The digit that a round of `convertHex` writes, and those that are left. -/
lemma reverse_numeral (i : BitVec 64) :
    (numeral 16 i.toNat).reverse = digitsHex (i % 16).toNat ::
      if i / 16 = 0#64 then [] else (numeral 16 (i / 16).toNat).reverse := by
  have hdiv : (i / 16).toNat = i.toNat / 16 := BitVec.toNat_udiv
  have hmod : (i % 16).toNat = i.toNat % 16 := BitVec.toNat_umod
  rw [← convertHexLoop_eq (Nat.lt_succ_self _), convertHexLoop, hmod, hdiv, ← digitsHex]
  simp only [div16_eq_zero]
  split
  · rfl
  · rw [convertHexLoop_eq (by omega)]

lemma convertHex_writes (v : BitVec 64) : Writes (convertHex · · v) (numeral 16 v.toNat) := by
  intro mem buf hroom
  have hdigits : buf + (numeral 16 v.toNat).reverse.length ≤ mem.length := by
    rw [List.length_reverse]
    omega
  obtain ⟨j, hj⟩ := digitLoop_eq (μ := BitVec.toNat) (i := v) (fun i => div16_lt) reverse_numeral
    hdigits
  dsimp only
  rw [convertHex, hj, ok_bind, List.length_reverse]
  exact finishText_eq hroom

/-- The canonical decimal text of an integer. -/
def IsDecimal (z : ℤ) (text : List UInt8) : Prop :=
  ∃ digits, IsNumeral 10 z.natAbs digits ∧ text = if z < 0 then 45 :: digits else digits

/-- `convert` writes the canonical decimal text of a value of any integer type, of 20 bytes at most,
and `convertHex` the canonical hexadecimal text, of 16 bytes at most. Both write a terminator behind
the text and return its length. -/
theorem convert_canonical :
    (∀ (T : IntType) (v : BitVec T.width), ∃ text, IsDecimal (T.value v) text ∧
      text.length ≤ 20 ∧ Writes (convert T · · v) text) ∧
    ∀ v : BitVec 64, ∃ text, IsNumeral 16 v.toNat text ∧ text.length ≤ 16 ∧
      Writes (convertHex · · v) text := by
  constructor
  · intro T v
    refine ⟨_, ⟨_, isNumeral_numeral (by decide) (by decide) _, ?_⟩, T.length_decimalInt_value v,
      convert_writes T v⟩
    rw [← decimal_eq_numeral, decimalInt]
  · intro v
    exact ⟨_, isNumeral_numeral (by decide) (by decide) _,
      length_numeral_le (k := 15) (by decide) v.isLt, convertHex_writes v⟩

/-- The smallest `short`, in the middle of a block. -/
example : convert .short (List.replicate 9 120) 1 (-32768#16) =
    .ok (ascii "x-32768\x00x", 6) := by
  decide +kernel

/-! ### The text in the buffer -/

/-- The buffer of `s` holds `buffer`, and is not full. -/
structure Represents (s : RawLogStream) (buffer : LogStream) : Prop where
  size : s.data.length = kSmallBuffer
  text : s.data.take s.cur = buffer
  cur_lt : s.cur < kSmallBuffer

variable {buffer : LogStream}

namespace Represents

lemma length_eq (h : Represents s buffer) : buffer.length = s.cur := by
  rw [← h.text]
  exact List.length_take_of_le (h.cur_lt.le.trans_eq h.size.symm)

lemma avail_eq (h : Represents s buffer) : s.avail = LogStream.avail buffer := by
  have := h.cur_lt
  rw [RawLogStream.avail, LogStream.avail, h.length_eq]
  omega

lemma toSize_avail (h : Represents s buffer) : toSize s.avail = LogStream.avail buffer := by
  have hle : LogStream.avail buffer ≤ kSmallBuffer := Nat.sub_le ..
  have hsmall : kSmallBuffer = 4000 := rfl
  rw [h.avail_eq, toSize]
  omega

/-- A piece is written at `current()`, perhaps with more behind it. -/
lemma write (h : Represents s buffer) {piece rest : List UInt8}
    (hroom : s.cur + piece.length < kSmallBuffer)
    (hrest : s.cur + (piece ++ rest).length ≤ kSmallBuffer) :
    Represents ⟨copyAt s.data s.cur (piece ++ rest), s.cur + piece.length⟩ (buffer ++ piece) where
  size := by rw [length_copyAt (hrest.trans_eq h.size.symm), h.size]
  text := by
    have hlen : (s.data.take s.cur ++ piece).length = s.cur + piece.length := by
      rw [List.length_append, h.text, h.length_eq]
    rw [copyAt, ← List.append_assoc, List.append_assoc (s.data.take s.cur ++ piece),
      List.take_left' hlen, h.text]
  cur_lt := hroom

lemma append (h : Represents s buffer) (piece : List UInt8) :
    Yields (s.append piece) fun s' => Represents s' (LogStream.append buffer piece) := by
  unfold RawLogStream.append LogStream.append
  rw [h.toSize_avail]
  split
  · next hlt =>
    rw [LogStream.avail, h.length_eq] at hlt
    have hsize : s.cur + (piece ++ []).length ≤ kSmallBuffer := by
      rw [List.append_nil]
      omega
    have hwrite := h.write (by omega) hsize
    rw [List.append_nil] at hwrite
    refine ⟨_, ?_, hwrite⟩
    rw [copyIn, check_of (by rw [h.size]; omega)]
    rfl
  · exact ⟨s, rfl, h⟩

/-- There is room for any number, with its terminator. -/
lemma room (h : Represents s buffer) (hroom : kMaxNumericSize ≤ LogStream.avail buffer)
    {text : List UInt8} (htext : text.length < kMaxNumericSize) :
    s.cur + text.length + 1 ≤ kSmallBuffer := by
  rw [LogStream.avail, h.length_eq] at hroom
  omega

/-- A number is written with its terminator. -/
lemma writeNumeral (h : Represents s buffer) (hroom : kMaxNumericSize ≤ LogStream.avail buffer)
    {text : List UInt8} (htext : text.length < kMaxNumericSize) :
    Represents ⟨copyAt s.data s.cur (text ++ [0]), s.cur + text.length⟩ (buffer ++ text) := by
  have := h.room hroom htext
  exact h.write (by omega) (by rw [List.length_append, List.length_singleton]; omega)

lemma formatInteger (h : Represents s buffer) (T : IntType) (v : BitVec T.width) :
    Yields (s.formatInteger T v) fun s' =>
      Represents s' (appendNumeral buffer (decimalInt (T.value v))) := by
  have hlen : (decimalInt (T.value v)).length < kMaxNumericSize :=
    (T.length_decimalInt_value v).trans_lt (by decide)
  unfold RawLogStream.formatInteger appendNumeral
  simp only [h.avail_eq, Nat.cast_le]
  split
  · next hroom =>
    have hconvert : convert T s.data s.cur v = .ok
        (copyAt s.data s.cur (decimalInt (T.value v) ++ [0]), (decimalInt (T.value v)).length) :=
      convert_writes T v _ _ ((h.room hroom hlen).trans_eq h.size.symm)
    refine ⟨_, ?_, h.writeNumeral hroom hlen⟩
    rw [hconvert]
    rfl
  · exact ⟨s, rfl, h⟩

lemma insertPointer (h : Represents s buffer) (p : BitVec 64) :
    Yields (s.insertPointer p) fun s' =>
      Represents s' (appendNumeral buffer (ascii "0x" ++ numeral 16 p.toNat)) := by
  have hlen : (Operand.pointer p).piece.length < kMaxNumericSize := Operand.length_piece rfl
  rw [show (Operand.pointer p).piece = ascii "0x" ++ numeral 16 p.toNat from rfl] at hlen
  unfold RawLogStream.insertPointer appendNumeral
  simp only [h.avail_eq, Nat.cast_le]
  split
  · next hroom =>
    refine ⟨_, ?_, h.writeNumeral hroom hlen⟩
    have hfits := h.room hroom hlen
    rw [List.length_append, show (ascii "0x").length = 2 from rfl, ← h.size] at hfits
    -- The two characters in front of the digits, and then the digits.
    have hone : s.cur + [(48 : UInt8)].length < s.data.length := by
      rw [List.length_singleton]
      omega
    have hfirst := store_eq (show s.cur < s.data.length by omega) 48
    have hsecond := store_behind hone 120
    rw [List.length_singleton] at hsecond
    have hfront : s.cur + (ascii "0x").length ≤ s.data.length := by
      rw [show (ascii "0x").length = 2 from rfl]
      omega
    have hhex := convertHex_writes p (copyAt s.data s.cur (ascii "0x")) (s.cur + 2)
      (by rw [length_copyAt hfront]; omega)
    have hbehind := copyAt_copyAt_behind (l := s.data) (x := ascii "0x")
      (y := numeral 16 p.toNat ++ [0]) (i := s.cur)
      (by rw [List.length_append, show (ascii "0x").length = 2 from rfl, List.length_singleton]
          omega)
    rw [hfirst, ok_bind, hsecond, ok_bind]
    dsimp only at hhex
    rw [show [48] ++ [120] = ascii "0x" from rfl, hhex, ok_bind]
    dsimp only
    rw [show (2 : ℕ) = (ascii "0x").length from rfl, hbehind, List.append_assoc,
      List.length_append, Nat.add_comm (numeral 16 p.toNat).length]
    rfl
  · exact ⟨s, rfl, h⟩

lemma insertDouble (h : Represents s buffer) {text : List UInt8}
    (htext : text.length < kMaxNumericSize) :
    Yields (s.insertDouble text) fun s' => Represents s' (appendNumeral buffer text) := by
  unfold RawLogStream.insertDouble appendNumeral
  simp only [h.avail_eq, Nat.cast_le]
  split
  · next hroom =>
    refine ⟨_, ?_, h.writeNumeral hroom htext⟩
    have hfits := h.room hroom htext
    rw [snprintf, List.take_of_length_le (Nat.le_sub_one_of_lt htext), copyIn,
      check_of (by rw [List.length_append, List.length_singleton, h.size]; omega)]
    rfl
  · exact ⟨s, rfl, h⟩

/-- A `<<` on the array does what it does on the text. -/
theorem insert (h : Represents s buffer) (op : Operand) :
    Yields (s.insert op) fun s' => Represents s' (LogStream.insert buffer op) := by
  rw [insert_eq]
  cases op with
  | short v =>
    have hv : IntType.int.value (v.signExtend 32) = v.toInt :=
      BitVec.toInt_signExtend_of_le (by decide)
    have := h.formatInteger .int (v.signExtend 32)
    rwa [hv] at this
  | unsignedShort v =>
    have hv : IntType.unsignedInt.value (v.zeroExtend 32) = v.toNat :=
      congrArg Nat.cast (BitVec.toNat_setWidth_of_le (by decide))
    have := h.formatInteger .unsignedInt (v.zeroExtend 32)
    rwa [hv] at this
  | int v => exact h.formatInteger .int v
  | unsignedInt v => exact h.formatInteger .unsignedInt v
  | long v => exact h.formatInteger .long v
  | unsignedLong v => exact h.formatInteger .unsignedLong v
  | longLong v => exact h.formatInteger .longLong v
  | unsignedLongLong v => exact h.formatInteger .unsignedLongLong v
  | pointer p => exact h.insertPointer p
  | float v => exact h.insertDouble v.2
  | double v => exact h.insertDouble v.2
  | _ => exact h.append _

end Represents

/-- `text` is made of the pieces of the operands that have been accepted. A number has been dropped
only if fewer than `kMaxNumericSize` bytes were left, and another piece only if it was at least as
long as what was left. -/
inductive Logged : List Operand → List UInt8 → Prop
  | nil : Logged [] []
  | accepted {ops : List Operand} {text : List UInt8} (op : Operand) (h : Logged ops text) :
    Logged (ops ++ [op]) (text ++ op.piece)
  | dropped {ops : List Operand} {text : List UInt8} (op : Operand) (h : Logged ops text)
    (hfull : if op.isNumber then kSmallBuffer - text.length < kMaxNumericSize
      else kSmallBuffer - text.length ≤ op.piece.length) : Logged (ops ++ [op]) text

lemma Logged.insert {ops : List Operand} (h : Logged ops buffer) (op : Operand) :
    Logged (ops ++ [op]) (LogStream.insert buffer op) := by
  rcases insert_cases buffer op with ⟨heq, -⟩ | ⟨heq, hfull⟩
  · rw [heq]
    exact h.accepted op
  · rw [heq]
    refine h.dropped op ?_
    have hpos : 0 < kMaxNumericSize := by decide
    split_ifs at hfull ⊢ <;> omega

/-- Whatever is put into a stream, it does not run over. The buffer has a byte left, and holds the
pieces that have been accepted, each of them as a whole. -/
theorem pieces_whole {data : List UInt8} (hdata : data.length = kSmallBuffer)
    (ops : List Operand) :
    Yields (run insert ⟨data, 0⟩ ops) fun s =>
      s.length ≤ 3999 ∧ Logged ops (s.data.take s.length) := by
  have hrun : Yields (run insert ⟨data, 0⟩ ops) fun s =>
      ∃ buffer, Represents s buffer ∧ Logged ops buffer := by
    induction ops using List.reverseRecOn with
    | nil => exact ⟨_, rfl, [], ⟨hdata, rfl, (by decide : 0 < kSmallBuffer)⟩, .nil⟩
    | append_singleton ops op ih =>
      obtain ⟨s, hs, buffer, hrep, hlogged⟩ := ih
      obtain ⟨s', hs', hrep'⟩ := hrep.insert op
      refine ⟨s', ?_, _, hrep', hlogged.insert op⟩
      rw [run_append, hs, ok_bind, run_cons, hs']
      rfl
  obtain ⟨s, hs, buffer, hrep, hlogged⟩ := hrun
  refine ⟨s, hs, Nat.le_of_lt_succ hrep.cur_lt, ?_⟩
  rw [RawLogStream.length, hrep.text]
  exact hlogged

/-- A number, a pointer and a text that does not fit behind them. -/
theorem pieces_whole_number :
    (List.replicate 4000 (0 : UInt8)).length = kSmallBuffer ∧
    Yields (run insert ⟨List.replicate 4000 0, 0⟩
      [.int (-5), .pointer 4096, .string (List.replicate 3999 120)]) fun s =>
        s.length ≤ 3999 ∧ Logged [.int (-5), .pointer 4096, .string (List.replicate 3999 120)]
          (s.data.take s.length) :=
  ⟨List.length_replicate, pieces_whole List.length_replicate _⟩

end RawLogStream

end Muduo

import Muduo.Machine.Text

/-!
# The stream of a log statement

`LogStream` of `muduo/base/LogStream.{h,cc}`: `convert`, the two ways in which a stream takes a
piece of text, `append` and `formatInteger`, and its operators `<<`. The text of a floating-point
number is that of the C library.
-/

namespace Muduo

open Machine

/-- `"9876543210123456789"`. -/
def digits : List UInt8 := ascii "9876543210123456789"

/-- `zero[lsd]`, where `zero` points into the middle of `digits`. -/
def zero (lsd : ℤ) : UInt8 := digits.getD (9 + lsd).toNat 0

/-- The digits that the loop of `convert` writes, the last one of the number first. `%` and `/`
round towards zero. -/
def convertLoop : ℕ → ℤ → List UInt8
  | 0, _ => []
  | fuel + 1, i =>
    zero (i.tmod 10) :: if i.tdiv 10 = 0 then [] else convertLoop fuel (i.tdiv 10)

/-- The text that `convert` leaves in its buffer. -/
def convert (value : ℤ) : List UInt8 :=
  let written := convertLoop (value.natAbs + 1) value
  (if value < 0 then written ++ ascii "-" else written).reverse

lemma zero_eq {lsd : ℤ} (h : lsd.natAbs < 10) : zero lsd = digit lsd.natAbs := by
  obtain ⟨h₁, h₂⟩ : -9 ≤ lsd ∧ lsd ≤ 9 := by omega
  interval_cases lsd <;> rfl

lemma convertLoop_eq {fuel : ℕ} {i : ℤ} (h : i.natAbs < fuel) :
    convertLoop fuel i = (decimal i.natAbs).reverse := by
  induction fuel generalizing i with
  | zero => exact absurd h (Nat.not_lt_zero _)
  | succ fuel ih =>
    have hmod : (i.tmod 10).natAbs = i.natAbs % 10 := Int.natAbs_tmod i 10
    have hdiv : (i.tdiv 10).natAbs = i.natAbs / 10 := Int.natAbs_tdiv i 10
    rw [convertLoop, zero_eq (by omega), hmod]
    rcases Nat.lt_or_ge i.natAbs 10 with hlt | hle
    · have hzero : i.tdiv 10 = 0 := by omega
      rw [if_pos hzero, decimal_of_lt hlt, Nat.mod_eq_of_lt hlt]
      rfl
    · have hzero : i.tdiv 10 ≠ 0 := by omega
      rw [if_neg hzero, ih (by omega), hdiv, decimal_of_le hle, List.reverse_append]
      rfl

/-- `convert` writes the decimal text of its argument. -/
theorem convert_eq (value : ℤ) : convert value = decimalInt value := by
  rw [convert, convertLoop_eq (Nat.lt_succ_self _), decimalInt]
  split
  · rw [List.reverse_append, List.reverse_reverse]
    rfl
  · rw [List.reverse_reverse]

/-- The loop of `convertHex`. -/
def convertHexLoop : ℕ → ℕ → List UInt8
  | 0, _ => []
  | fuel + 1, i =>
    (ascii "0123456789ABCDEF").getD (i % 16) 0 ::
      if i / 16 = 0 then [] else convertHexLoop fuel (i / 16)

def convertHex (value : ℕ) : List UInt8 := (convertHexLoop (value + 1) value).reverse

lemma convertHexLoop_eq {fuel i : ℕ} (h : i < fuel) :
    convertHexLoop fuel i = (numeral 16 i).reverse := by
  induction fuel generalizing i with
  | zero => exact absurd h (Nat.not_lt_zero _)
  | succ fuel ih =>
    rw [convertHexLoop, ← hexDigits]
    rcases Nat.lt_or_ge i 16 with hlt | hle
    · rw [if_pos (Nat.div_eq_of_lt hlt), numeral_of_lt le_rfl hlt, Nat.mod_eq_of_lt hlt]
      rfl
    · have hzero : i / 16 ≠ 0 := by omega
      rw [if_neg hzero, ih (by omega), numeral_of_le (by decide) le_rfl hle, List.reverse_append]
      rfl

/-- `convertHex` writes the hexadecimal text of its argument. -/
theorem convertHex_eq (value : ℕ) : convertHex value = numeral 16 value := by
  rw [convertHex, convertHexLoop_eq (Nat.lt_succ_self _), List.reverse_reverse]

/-! ### The buffer of a stream -/

def kSmallBuffer : ℕ := 4000

def kMaxNumericSize : ℕ := 32

/-- The text in the buffer of a `LogStream`. -/
abbrev LogStream := List UInt8

namespace LogStream

variable (buffer : LogStream)

def avail : ℕ := kSmallBuffer - buffer.length

/-- A piece is taken as a whole or not at all. -/
def append (piece : List UInt8) : LogStream :=
  if piece.length < avail buffer then buffer ++ piece else buffer

def formatInteger (v : ℤ) : LogStream :=
  if kMaxNumericSize ≤ avail buffer then buffer ++ convert v else buffer

variable {buffer}

lemma append_eq {piece : List UInt8} (h : buffer.length + piece.length < kSmallBuffer) :
    append buffer piece = buffer ++ piece :=
  if_pos (by rw [avail]; omega)

lemma append_cases (buffer : LogStream) (piece : List UInt8) :
    append buffer piece = buffer ++ piece ∧ buffer.length + piece.length < kSmallBuffer ∨
      append buffer piece = buffer ∧ kSmallBuffer ≤ buffer.length + piece.length := by
  unfold append
  split
  · next h =>
    rw [avail] at h
    exact .inl ⟨rfl, by omega⟩
  · next h =>
    rw [avail] at h
    exact .inr ⟨rfl, by omega⟩

lemma append_append_eq {p q : List UInt8}
    (h : buffer.length + p.length + q.length < kSmallBuffer) :
    append (append buffer p) q = buffer ++ p ++ q := by
  have hp : append buffer p = buffer ++ p := append_eq (by omega)
  rw [hp, append_eq (by rw [List.length_append]; exact h)]

lemma formatInteger_eq {v : ℤ} (h : buffer.length + kMaxNumericSize ≤ kSmallBuffer) :
    formatInteger buffer v = buffer ++ decimalInt v := by
  rw [formatInteger, if_pos (by rw [avail]; omega), convert_eq]

lemma formatInteger_of_lt {v : ℤ} (h : kSmallBuffer < buffer.length + kMaxNumericSize) :
    formatInteger buffer v = buffer := by
  have hpos : 0 < kMaxNumericSize := by decide
  rw [formatInteger, if_neg (by rw [avail]; omega)]

/-! ### The operators -/

/-- The text of a number that `snprintf` writes into `kMaxNumericSize` bytes without cutting it. -/
abbrev Numeral := { text : List UInt8 // text.length < kMaxNumericSize }

/-- What stands on the right of a `<<`. A C string is given by its bytes, and a null pointer by
nothing. A `Fmt` is a text that passed the assertion of its constructor. -/
inductive Operand where
  | bool (v : Bool)
  | short (v : BitVec 16)
  | unsignedShort (v : BitVec 16)
  | int (v : BitVec 32)
  | unsignedInt (v : BitVec 32)
  | long (v : BitVec 64)
  | unsignedLong (v : BitVec 64)
  | longLong (v : BitVec 64)
  | unsignedLongLong (v : BitVec 64)
  | pointer (p : BitVec 64)
  | float (v : Numeral)
  | double (v : Numeral)
  | char (v : UInt8)
  | cString (str : Option (List UInt8))
  | unsignedCString (str : Option (List UInt8))
  | string (v : List UInt8)
  | stringPiece (v : List UInt8)
  | buffer (v : LogStream)
  | fmt (v : Numeral)

variable (buffer) in
/-- The pieces that are written at `current()` if there is room for any number. -/
def appendNumeral (text : List UInt8) : LogStream :=
  if kMaxNumericSize ≤ avail buffer then buffer ++ text else buffer

variable (buffer) in
def appendCString (str : Option (List UInt8)) : LogStream :=
  append buffer (str.getD (ascii "(null)"))

variable (buffer) in
/-- `buffer << v`. -/
def insert : Operand → LogStream
  | .bool v => append buffer (ascii (if v then "1" else "0"))
  | .short v => formatInteger buffer (v.signExtend 32).toInt
  | .unsignedShort v => formatInteger buffer (v.zeroExtend 32).toNat
  | .int v => formatInteger buffer v.toInt
  | .unsignedInt v => formatInteger buffer v.toNat
  | .long v => formatInteger buffer v.toInt
  | .unsignedLong v => formatInteger buffer v.toNat
  | .longLong v => formatInteger buffer v.toInt
  | .unsignedLongLong v => formatInteger buffer v.toNat
  | .pointer p => appendNumeral buffer (ascii "0x" ++ convertHex p.toNat)
  | .float v => appendNumeral buffer v
  | .double v => appendNumeral buffer v
  | .char v => append buffer [v]
  | .cString str => appendCString buffer str
  | .unsignedCString str => appendCString buffer str
  | .string v => append buffer v
  | .stringPiece v => append buffer v
  | .buffer v => append buffer v
  | .fmt v => append buffer v

/-- The text of what stands on the right. -/
def Operand.piece : Operand → List UInt8
  | .bool v => ascii (if v then "1" else "0")
  | .short v => decimalInt v.toInt
  | .unsignedShort v => decimalInt v.toNat
  | .int v => decimalInt v.toInt
  | .unsignedInt v => decimalInt v.toNat
  | .long v => decimalInt v.toInt
  | .unsignedLong v => decimalInt v.toNat
  | .longLong v => decimalInt v.toInt
  | .unsignedLongLong v => decimalInt v.toNat
  | .pointer p => ascii "0x" ++ numeral 16 p.toNat
  | .float v => v
  | .double v => v
  | .char v => [v]
  | .cString str => str.getD (ascii "(null)")
  | .unsignedCString str => str.getD (ascii "(null)")
  | .string v => v
  | .stringPiece v => v
  | .buffer v => v
  | .fmt v => v

/-- The operands that are written at `current()`. -/
def Operand.isNumber : Operand → Bool
  | .short _ | .unsignedShort _ | .int _ | .unsignedInt _ | .long _ | .unsignedLong _ => true
  | .longLong _ | .unsignedLongLong _ | .pointer _ | .float _ | .double _ => true
  | .bool _ | .char _ | .cString _ | .unsignedCString _ | .string _ => false
  | .stringPiece _ | .buffer _ | .fmt _ => false

lemma formatInteger_eq_appendNumeral (v : ℤ) :
    formatInteger buffer v = appendNumeral buffer (decimalInt v) := by
  rw [formatInteger, convert_eq, appendNumeral]

lemma insert_eq (op : Operand) :
    insert buffer op =
      if op.isNumber then appendNumeral buffer op.piece else append buffer op.piece := by
  cases op with
  | short v =>
    rw [insert, formatInteger_eq_appendNumeral, BitVec.toInt_signExtend_of_le (by decide)]
    rfl
  | unsignedShort v =>
    rw [insert, formatInteger_eq_appendNumeral, BitVec.toNat_setWidth_of_le (by decide)]
    rfl
  | int v => exact formatInteger_eq_appendNumeral _
  | unsignedInt v => exact formatInteger_eq_appendNumeral _
  | long v => exact formatInteger_eq_appendNumeral _
  | unsignedLong v => exact formatInteger_eq_appendNumeral _
  | longLong v => exact formatInteger_eq_appendNumeral _
  | unsignedLongLong v => exact formatInteger_eq_appendNumeral _
  | pointer p =>
    rw [insert, convertHex_eq]
    rfl
  | _ => rfl

lemma length_decimalInt_toInt {w : ℕ} (hw : w ≤ 64) (v : BitVec w) :
    (decimalInt v.toInt).length ≤ 20 := by
  refine length_decimalInt_le (k := 18) ?_
  have hle := BitVec.le_two_mul_toInt (x := v)
  have hlt := BitVec.two_mul_toInt_lt (x := v)
  have hpow : (2 : ℤ) ^ w ≤ 2 ^ 64 := pow_le_pow_right₀ (by decide) hw
  omega

lemma length_decimalInt_toNat {w : ℕ} (hw : w ≤ 64) (v : BitVec w) :
    (decimalInt v.toNat).length ≤ 20 := by
  have hlt := v.isLt
  have hpow : 2 ^ w ≤ 2 ^ 64 := Nat.pow_le_pow_right (by decide) hw
  rw [decimalInt_natCast]
  exact length_decimal_le (k := 19) (by omega)

/-- Any number fits into `kMaxNumericSize` bytes, with a byte behind it. -/
lemma Operand.length_piece {op : Operand} (h : op.isNumber = true) :
    op.piece.length < kMaxNumericSize := by
  have hmax : 20 < kMaxNumericSize := by decide
  cases op with
  | short v => exact (length_decimalInt_toInt (by decide) v).trans_lt hmax
  | unsignedShort v => exact (length_decimalInt_toNat (by decide) v).trans_lt hmax
  | int v => exact (length_decimalInt_toInt (by decide) v).trans_lt hmax
  | unsignedInt v => exact (length_decimalInt_toNat (by decide) v).trans_lt hmax
  | long v => exact (length_decimalInt_toInt (by decide) v).trans_lt hmax
  | unsignedLong v => exact (length_decimalInt_toNat (by decide) v).trans_lt hmax
  | longLong v => exact (length_decimalInt_toInt (by decide) v).trans_lt hmax
  | unsignedLongLong v => exact (length_decimalInt_toNat (by decide) v).trans_lt hmax
  | pointer p =>
    have hlen : (numeral 16 p.toNat).length ≤ 15 + 1 := length_numeral_le (by decide) p.isLt
    rw [piece, List.length_append, show (ascii "0x").length = 2 from rfl]
    omega
  | float v => exact v.2
  | double v => exact v.2
  | _ => cases h

/-- A `<<` takes its piece as a whole, and the buffer is not full afterwards, or it drops it. -/
lemma insert_cases (buffer : LogStream) (op : Operand) :
    insert buffer op = buffer ++ op.piece ∧ buffer.length + op.piece.length < kSmallBuffer ∨
      insert buffer op = buffer ∧
        if op.isNumber then kSmallBuffer < buffer.length + kMaxNumericSize
        else kSmallBuffer ≤ buffer.length + op.piece.length := by
  rw [insert_eq]
  split
  · next hnumber =>
    have hlen := Operand.length_piece hnumber
    unfold appendNumeral
    split
    · next hroom =>
      rw [avail] at hroom
      exact .inl ⟨rfl, by omega⟩
    · next hroom =>
      rw [avail] at hroom
      exact .inr ⟨rfl, by omega⟩
  · exact append_cases buffer op.piece

/-- What a `<<` can do: the piece is taken, and the buffer is not full afterwards, or it is not. -/
def Takes (buffer buffer' : LogStream) : Prop :=
  buffer' = buffer ∨ ∃ piece, buffer' = buffer ++ piece ∧ buffer'.length < kSmallBuffer

lemma takes_insert (op : Operand) : Takes buffer (insert buffer op) := by
  rcases insert_cases buffer op with ⟨heq, hlt⟩ | ⟨heq, -⟩
  · refine .inr ⟨op.piece, heq, ?_⟩
    rw [heq, List.length_append]
    exact hlt
  · exact .inl heq

/-- The buffer is never full, and what it holds stays. -/
lemma foldl_insert (ops : List Operand) (h : buffer.length < kSmallBuffer) :
    (ops.foldl insert buffer).length < kSmallBuffer ∧ buffer <+: ops.foldl insert buffer := by
  induction ops generalizing buffer with
  | nil => exact ⟨h, List.prefix_refl _⟩
  | cons op ops ih =>
    rw [List.foldl_cons]
    rcases (takes_insert op : Takes buffer _) with heq | ⟨piece, heq, hlt⟩
    · rw [heq]
      exact ih h
    · obtain ⟨hlt', hstart⟩ := ih hlt
      exact ⟨hlt', List.IsPrefix.trans ⟨piece, heq.symm⟩ hstart⟩

end LogStream

end Muduo

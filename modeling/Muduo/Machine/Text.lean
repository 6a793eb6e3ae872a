import Mathlib.Tactic

/-!
# ASCII text and numbers

`decimal` is the text of a number by repeated division, and `numeral` the text that
`Nat.toDigits` has for it in any base up to 16. `IsNumeral` says what such a text is without a
computation.
-/

namespace Machine

/-- The bytes of a text. -/
def ascii (s : String) : List UInt8 := s.toList.map fun c => UInt8.ofNat c.toNat

def isDigit (b : UInt8) : Bool := 48 ≤ b && b ≤ 57

/-- `isspace` of the C locale. -/
def isSpace (b : UInt8) : Bool := b = 32 || 9 ≤ b && b ≤ 13

/-- The character of a digit. -/
def digit (d : ℕ) : UInt8 := UInt8.ofNat (48 + d)

/-- The number that a text of digits denotes. -/
def ofDigits (l : List UInt8) : ℕ := l.foldl (fun n b => 10 * n + (b.toNat - 48)) 0

def decimalAux : ℕ → ℕ → List UInt8
  | 0, _ => []
  | fuel + 1, n => if n < 10 then [digit n] else decimalAux fuel (n / 10) ++ [digit (n % 10)]

/-- The decimal text of a number, without leading zeros. -/
def decimal (n : ℕ) : List UInt8 := decimalAux (n + 1) n

def decimalInt (z : ℤ) : List UInt8 :=
  if z < 0 then 45 :: decimal z.natAbs else decimal z.natAbs

/-- The digits from `0` to `F`. -/
def hexDigits : List UInt8 := ascii "0123456789ABCDEF"

/-- The numeral of `n` in base `b`, with upper-case letters. -/
def numeral (b n : ℕ) : List UInt8 := (Nat.toDigits b n).map fun c => UInt8.ofNat c.toUpper.toNat

/-- `text` denotes `n` in base `b`, and begins with a zero only if it is the numeral of zero. -/
structure IsNumeral (b n : ℕ) (text : List UInt8) : Prop where
  digits : ∀ c ∈ text, c ∈ hexDigits.take b
  value : text.foldl (fun n c => b * n + hexDigits.idxOf c) 0 = n
  nonempty : text ≠ []
  leading : text.head? = some 48 → text = [48]

/-- The text of an integer by `%<width>d`. -/
def padded (width : ℕ) (z : ℤ) : List UInt8 :=
  List.replicate (width - (decimalInt z).length) 32 ++ decimalInt z

/-- The text of an integer by `%0<width>d`: the zeros are behind the sign. -/
def zeroPadded (width : ℕ) (z : ℤ) : List UInt8 :=
  let digits := decimal z.natAbs
  if z < 0 then 45 :: (List.replicate (width - 1 - digits.length) 48 ++ digits)
  else List.replicate (width - digits.length) 48 ++ digits

/-- The text that `snprintf` leaves in a buffer of `size` bytes. -/
def snprintf (size : ℕ) (text : List UInt8) : List UInt8 := text.take (size - 1)

/-- The text before the first `c` and the text behind it. -/
def cut (c : UInt8) (l : List UInt8) : Option (List UInt8 × List UInt8) :=
  if c ∈ l then some (l.takeWhile (· ≠ c), (l.dropWhile (· ≠ c)).tail) else none

lemma cut_eq_none {c : UInt8} {l : List UInt8} (h : c ∉ l) : cut c l = none := if_neg h

lemma cut_append {c : UInt8} {x : List UInt8} (h : c ∉ x) (y : List UInt8) :
    cut c (x ++ c :: y) = some (x, y) := by
  have hx : ∀ a ∈ x, decide (a ≠ c) = true := by
    intro a ha
    simp only [ne_eq, decide_eq_true_eq]
    rintro rfl
    exact h ha
  rw [cut, if_pos (by simp), List.takeWhile_append_of_pos hx, List.dropWhile_append_of_pos hx]
  simp

lemma cut_eq_some {c : UInt8} {l x y : List UInt8} (h : cut c l = some (x, y)) :
    l = x ++ c :: y ∧ c ∉ x := by
  unfold cut at h
  split at h
  · next hc =>
    obtain ⟨x', y', rfl, hx'⟩ := List.eq_append_cons_of_mem hc
    have hcut := cut_append hx' y'
    rw [cut, if_pos hc] at hcut
    cases hcut.symm.trans h
    exact ⟨rfl, hx'⟩
  · cases h

lemma decimalAux_congr {fuel fuel' n : ℕ} (h : n < fuel) (h' : n < fuel') :
    decimalAux fuel n = decimalAux fuel' n := by
  induction fuel generalizing fuel' n with
  | zero => exact absurd h (Nat.not_lt_zero _)
  | succ fuel ih =>
    obtain ⟨fuel', rfl⟩ : ∃ k, fuel' = k + 1 := ⟨fuel' - 1, by omega⟩
    rw [decimalAux, decimalAux]
    split
    · rfl
    · have hfuel : n / 10 < fuel := by omega
      have hfuel' : n / 10 < fuel' := by omega
      rw [ih hfuel hfuel']

lemma decimal_of_lt {n : ℕ} (h : n < 10) : decimal n = [digit n] := by
  rw [decimal, decimalAux, if_pos h]

lemma decimal_of_le {n : ℕ} (h : 10 ≤ n) : decimal n = decimal (n / 10) ++ [digit (n % 10)] := by
  have hfuel : n / 10 < n := by omega
  rw [decimal, decimalAux, if_neg (by omega), decimalAux_congr hfuel (Nat.lt_succ_self _)]
  rfl

/-- Induction along the digits of a number. -/
theorem decimal_induction {P : ℕ → Prop} (hlt : ∀ n, n < 10 → P n)
    (hle : ∀ n, 10 ≤ n → P (n / 10) → P n) (n : ℕ) : P n := by
  induction n using Nat.strong_induction_on with
  | _ n ih =>
    rcases Nat.lt_or_ge n 10 with h | h
    · exact hlt n h
    · exact hle n h (ih (n / 10) (by omega))

lemma isDigit_digit {d : ℕ} (h : d < 10) : isDigit (digit d) = true := by
  interval_cases d <;> rfl

lemma toNat_digit {d : ℕ} (h : d < 10) : (digit d).toNat - 48 = d := by
  interval_cases d <;> rfl

lemma isDigit_of_mem_decimal {n : ℕ} : ∀ b ∈ decimal n, isDigit b = true := by
  induction n using decimal_induction with
  | hlt n h =>
    rw [decimal_of_lt h]
    intro b hb
    rw [List.mem_singleton.mp hb]
    exact isDigit_digit h
  | hle n h ih =>
    rw [decimal_of_le h]
    intro b hb
    rcases List.mem_append.mp hb with hb | hb
    · exact ih b hb
    · rw [List.mem_singleton.mp hb]
      exact isDigit_digit (Nat.mod_lt n (by decide))

lemma ofDigits_decimal (n : ℕ) : ofDigits (decimal n) = n := by
  induction n using decimal_induction with
  | hlt n h => simp [decimal_of_lt h, ofDigits, toNat_digit h]
  | hle n h ih =>
    rw [decimal_of_le h, ofDigits, List.foldl_append, ← ofDigits, ih]
    simp only [List.foldl_cons, List.foldl_nil, toNat_digit (Nat.mod_lt n (by decide))]
    omega

lemma decimal_ne_nil (n : ℕ) : decimal n ≠ [] := by
  rcases Nat.lt_or_ge n 10 with h | h
  · simp [decimal_of_lt h]
  · simp [decimal_of_le h]

lemma length_decimal_le {n k : ℕ} (h : n < 10 ^ (k + 1)) : (decimal n).length ≤ k + 1 := by
  induction k generalizing n with
  | zero => rw [decimal_of_lt (by simpa using h), List.length_singleton]
  | succ k ih =>
    rcases Nat.lt_or_ge n 10 with hn | hn
    · rw [decimal_of_lt hn, List.length_singleton]
      omega
    · have hdiv : n / 10 < 10 ^ (k + 1) := Nat.div_lt_of_lt_mul (by rwa [← pow_succ'])
      rw [decimal_of_le hn, List.length_append, List.length_singleton]
      have := ih hdiv
      omega

lemma length_decimalInt_le {z : ℤ} {k : ℕ} (h : z.natAbs < 10 ^ (k + 1)) :
    (decimalInt z).length ≤ k + 2 := by
  have := length_decimal_le h
  unfold decimalInt
  split
  · rw [List.length_cons]
    omega
  · omega

lemma decimalInt_natCast (n : ℕ) : decimalInt n = decimal n := by
  rw [decimalInt, if_neg (by omega), Int.natAbs_natCast]

/-- The last byte is a digit. -/
lemma exists_decimalInt_eq (z : ℤ) : ∃ l b, decimalInt z = l ++ [b] ∧ isDigit b = true := by
  obtain ⟨l, b, hdecimal⟩ : ∃ l b, decimal z.natAbs = l ++ [b] :=
    ⟨_, _, (List.dropLast_append_getLast (decimal_ne_nil z.natAbs)).symm⟩
  have hmem : b ∈ decimal z.natAbs := by
    rw [hdecimal]
    exact List.mem_concat_self
  have hb := isDigit_of_mem_decimal b hmem
  unfold decimalInt
  split
  · exact ⟨45 :: l, b, by rw [hdecimal]; rfl, hb⟩
  · exact ⟨l, b, hdecimal, hb⟩

lemma length_padded (width : ℕ) (z : ℤ) :
    (padded width z).length = max width (decimalInt z).length := by
  rw [padded, List.length_append, List.length_replicate]
  omega

lemma length_zeroPadded {width : ℕ} {z : ℤ} (hz : 0 ≤ z)
    (h : (decimal z.natAbs).length ≤ width) : (zeroPadded width z).length = width := by
  rw [zeroPadded, if_neg (not_lt.mpr hz), List.length_append, List.length_replicate]
  omega

/-! ### Numerals -/

lemma digitChar_eq {d : ℕ} (h : d < 16) :
    UInt8.ofNat (Nat.digitChar d).toUpper.toNat = hexDigits.getD d 0 := by
  interval_cases d <;> rfl

lemma idxOf_hexDigits {d : ℕ} (h : d < 16) : hexDigits.idxOf (hexDigits.getD d 0) = d := by
  interval_cases d <;> decide

lemma mem_take_hexDigits {b d : ℕ} (hb : b ≤ 16) (h : d < b) :
    hexDigits.getD d 0 ∈ hexDigits.take b := by
  have hlen : d < hexDigits.length := (h.trans_le hb).trans_eq rfl
  refine List.mem_iff_getElem?.mpr ⟨d, ?_⟩
  rw [List.getElem?_take_of_lt h, List.getD_eq_getElem?_getD, List.getElem?_eq_getElem hlen]
  rfl

lemma numeral_of_lt {b n : ℕ} (hb : b ≤ 16) (h : n < b) : numeral b n = [hexDigits.getD n 0] := by
  rw [numeral, Nat.toDigits_of_lt_base h, List.map_singleton, digitChar_eq (h.trans_le hb)]

lemma numeral_of_le {b n : ℕ} (hb : 1 < b) (hb' : b ≤ 16) (h : b ≤ n) :
    numeral b n = numeral b (n / b) ++ [hexDigits.getD (n % b) 0] := by
  have hmod : n % b < 16 := (Nat.mod_lt n (by omega)).trans_le hb'
  rw [numeral, Nat.toDigits_of_base_le hb h, List.map_append, List.map_singleton,
    digitChar_eq hmod, numeral]

lemma length_numeral_le {b n k : ℕ} (hb : 1 < b) (h : n < b ^ (k + 1)) :
    (numeral b n).length ≤ k + 1 := by
  rw [numeral, List.length_map]
  exact (Nat.length_toDigits_le_iff hb (Nat.succ_pos k)).mpr h

theorem isNumeral_numeral {b : ℕ} (hb : 1 < b) (hb' : b ≤ 16) (n : ℕ) :
    IsNumeral b n (numeral b n) := by
  induction n using Nat.strong_induction_on with
  | _ n ih =>
    rcases Nat.lt_or_ge n b with hlt | hle
    · rw [numeral_of_lt hb' hlt]
      refine ⟨?_, ?_, List.cons_ne_nil _ _, ?_⟩
      · simpa using mem_take_hexDigits hb' hlt
      · simpa using idxOf_hexDigits (hlt.trans_le hb')
      · intro hhead
        rw [Option.some.inj hhead]
    · have hdiv : 0 < n / b := Nat.div_pos hle (by omega)
      have hmod : n % b < b := Nat.mod_lt n (by omega)
      have h := ih (n / b) (Nat.div_lt_self (by omega) hb)
      rw [numeral_of_le hb hb' hle]
      refine ⟨?_, ?_, by simp, ?_⟩
      · intro c hc
        rcases List.mem_append.mp hc with hc | hc
        · exact h.digits c hc
        · rw [List.mem_singleton.mp hc]
          exact mem_take_hexDigits hb' hmod
      · rw [List.foldl_append, h.value]
        simp only [List.foldl_cons, List.foldl_nil, idxOf_hexDigits (hmod.trans_le hb')]
        exact Nat.div_add_mod n b
      · rw [List.head?_append_of_ne_nil _ h.nonempty]
        intro hhead
        have hvalue := h.value
        rw [h.leading hhead] at hvalue
        exact absurd hvalue.symm hdiv.ne'

lemma decimal_eq_numeral (n : ℕ) : decimal n = numeral 10 n := by
  have hdigit : ∀ d < 10, digit d = hexDigits.getD d 0 := by decide
  induction n using decimal_induction with
  | hlt n h => rw [decimal_of_lt h, numeral_of_lt (by decide) h, hdigit n h]
  | hle n h ih =>
    rw [decimal_of_le h, numeral_of_le (by decide) (by decide) h, ih,
      hdigit _ (Nat.mod_lt n (by decide))]

end Machine

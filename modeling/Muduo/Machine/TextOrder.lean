import Muduo.Machine.BrokenDownTime

/-!
# The order of texts

Texts are ordered byte by byte. Numerals of one width are in the order of their numbers, and texts
that begin with parts of one length are in the order of these parts.
-/

namespace Machine

section

variable {α : Type*} [LT α]

lemma append_lt_append {x x' : List α} (hlen : x.length = x'.length) (h : x < x')
    (y y' : List α) : x ++ y < x' ++ y' := by
  induction x generalizing x' with
  | nil =>
    rw [List.eq_nil_of_length_eq_zero hlen.symm] at h
    exact absurd h (List.not_lt_nil _)
  | cons a x ih =>
    cases x' with
    | nil => simp at hlen
    | cons a' x' =>
      rw [List.cons_lt_cons_iff] at h
      rcases h with h | ⟨rfl, h⟩
      · exact List.cons_lt_cons_iff.mpr (.inl h)
      · exact List.cons_lt_cons_iff.mpr (.inr ⟨rfl, ih (by simpa using hlen) h⟩)

end

/-! ### Numerals -/

lemma digit_lt {a b : ℕ} (h : a < b) (hb : b < 10) : digit a < digit b := by
  have := toNat_digit (h.trans hb)
  have := toNat_digit hb
  rw [UInt8.lt_iff_toNat_lt]
  omega

lemma zeroPadded_eq (w n : ℕ) :
    zeroPadded w n = List.replicate (w - (decimal n).length) 48 ++ decimal n := by
  rw [zeroPadded, if_neg (by omega), Int.natAbs_natCast]

lemma zeroPadded_one {n : ℕ} (h : n < 10) : zeroPadded 1 n = [digit n] := by
  simp [zeroPadded_eq, decimal_of_lt h]

/-- The last digit of a numeral with two places or more. -/
lemma zeroPadded_succ (w n : ℕ) :
    zeroPadded (w + 2) n = zeroPadded (w + 1) (n / 10 : ℕ) ++ [digit (n % 10)] := by
  rw [zeroPadded_eq, zeroPadded_eq]
  rcases lt_or_ge n 10 with h | h
  · rw [Nat.div_eq_of_lt h, Nat.mod_eq_of_lt h, decimal_of_lt h]
    simp [List.replicate_succ', decimal_of_lt, digit]
  · simp [decimal_of_le h]

lemma length_zeroPadded_succ {w n : ℕ} (h : n < 10 ^ (w + 1)) :
    (zeroPadded (w + 1) n).length = w + 1 :=
  length_zeroPadded (Int.natCast_nonneg n) (length_decimal_le h)

/-- Numerals of one width are ordered as their numbers. -/
theorem zeroPadded_lt {w a b : ℕ} (h : a < b) (hb : b < 10 ^ (w + 1)) :
    zeroPadded (w + 1) a < zeroPadded (w + 1) b := by
  induction w generalizing a b with
  | zero =>
    rw [zeroPadded_one (by omega), zeroPadded_one (by omega)]
    exact List.cons_lt_cons_iff.mpr (.inl (digit_lt h hb))
  | succ w ih =>
    have hpow : 10 ^ (w + 2) = 10 ^ (w + 1) * 10 := pow_succ ..
    rw [zeroPadded_succ, zeroPadded_succ]
    rcases (Nat.div_le_div_right h.le : a / 10 ≤ b / 10).lt_or_eq with hlt | heq
    · refine append_lt_append ?_ (ih hlt (by omega)) ..
      rw [length_zeroPadded_succ (by omega), length_zeroPadded_succ (by omega)]
    · rw [heq]
      refine List.append_left_lt (List.cons_lt_cons_iff.mpr (.inl (digit_lt ?_ ?_))) <;> omega

/-- Texts that begin with numerals of one width. -/
lemma zeroPadded_append_lt {w : ℕ} {a b : ℤ} {x y : List UInt8} (ha : 0 ≤ a) (hb : 0 ≤ b)
    (hb' : b < 10 ^ (w + 1)) (h : a < b ∨ a = b ∧ x < y) :
    zeroPadded (w + 1) a ++ x < zeroPadded (w + 1) b ++ y := by
  lift a to ℕ using ha
  lift b to ℕ using hb
  norm_cast at hb' h
  rcases h with h | ⟨rfl, h⟩
  · refine append_lt_append ?_ (zeroPadded_lt h hb') x y
    rw [length_zeroPadded_succ (h.trans hb'), length_zeroPadded_succ hb']
  · exact List.append_left_lt h

/-- A number that has as many digits as the width is not padded. -/
lemma zeroPadded_natCast {w n : ℕ} (h : 10 ^ w ≤ n) (h' : n < 10 ^ (w + 1)) :
    zeroPadded (w + 1) n = decimal n := by
  induction w generalizing n with
  | zero => rw [zeroPadded_one h', decimal_of_lt h']
  | succ w ih =>
    rw [pow_succ] at h h'
    have hpos : 0 < 10 ^ w := by positivity
    rw [zeroPadded_succ, ih (by omega) (by omega), ← decimal_of_le (by omega)]

end Machine

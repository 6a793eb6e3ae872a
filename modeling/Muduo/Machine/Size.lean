import Mathlib.Tactic

/-!
# Machine integers

Arithmetic of an unsigned 64-bit `size_t`, of an `int` and of an `int64_t`: sums and differences are
taken modulo a power of two. The lemmas say when they are those of the natural numbers and of the
integers.
-/

namespace Machine

def sizeMod : ℕ := 2 ^ 64

/-- `a + b` on `size_t`. -/
def addSize (a b : ℕ) : ℕ := (a + b) % sizeMod

/-- `a - b` on `size_t`, for values `a` and `b` of that type. -/
def subSize (a b : ℕ) : ℕ := (a + (sizeMod - b)) % sizeMod

lemma addSize_eq {a b : ℕ} (h : a + b < sizeMod) : addSize a b = a + b := Nat.mod_eq_of_lt h

lemma subSize_eq {a b : ℕ} (hb : b ≤ a) (ha : a < sizeMod) : subSize a b = a - b := by
  have hsum : a + (sizeMod - b) = (a - b) + sizeMod := by omega
  rw [subSize, hsum, Nat.add_mod_right, Nat.mod_eq_of_lt (by omega)]

/-- The value of an `int64_t`. -/
def int64 (x : ℤ) : ℤ := Int.bmod x (2 ^ 64)

lemma int64_lt (x : ℤ) : int64 x < 2 ^ 63 := Int.bmod_lt (by decide)

lemma int64_eq {x : ℤ} (h : -2 ^ 63 ≤ x) (h' : x < 2 ^ 63) : int64 x = x :=
  Int.bmod_eq_of_le (by omega) (by omega)

/-- The sum of two `int`s. -/
def addInt (a b : ℤ) : ℤ := Int.bmod (a + b) (2 ^ 32)

lemma addInt_eq {a b : ℤ} (h : -2 ^ 31 ≤ a + b) (h' : a + b < 2 ^ 31) : addInt a b = a + b :=
  Int.bmod_eq_of_le (by omega) (by omega)

end Machine

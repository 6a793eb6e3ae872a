import Mathlib.Tactic

/-!
# Counters that wrap

A counter of `w` bits that starts at zero stands at `BitVec.ofNat w n` after `n` increments. Its
values come round after `2 ^ w` increments, and not before.
-/

namespace Machine

variable {w m n : ℕ}

lemma ofNat_add_one (w n : ℕ) : BitVec.ofNat w n + 1 = BitVec.ofNat w (n + 1) :=
  (BitVec.ofNat_add n 1).symm

/-- The first `2 ^ w` values are different. -/
lemma ofNat_succ_inj (hm : m < 2 ^ w) (hn : n < 2 ^ w)
    (h : BitVec.ofNat w (m + 1) = BitVec.ofNat w (n + 1)) : m = n := by
  rw [← ofNat_add_one, ← ofNat_add_one] at h
  have hmod := congrArg BitVec.toNat ((BitVec.add_left_inj 1).mp h)
  rwa [BitVec.toNat_ofNat, BitVec.toNat_ofNat, Nat.mod_eq_of_lt hm, Nat.mod_eq_of_lt hn] at hmod

end Machine

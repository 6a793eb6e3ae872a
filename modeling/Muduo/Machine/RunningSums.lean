import Mathlib.Tactic

/-!
# Checksums of running sums

A checksum of this kind keeps two sums modulo `m`: one of the elements read, and one of the values
that the first has taken. `weight` is what an element adds. Two texts that differ in one element
differ in the first sum, if the modulus is larger than the weights.
-/

namespace Machine

variable {α : Type*} {m : ℕ} {weight : α → ℕ}

/-- The two sums after one more element. -/
def addRunning (m : ℕ) (weight : α → ℕ) (p : ℕ × ℕ) (a : α) : ℕ × ℕ :=
  ((p.1 + weight a) % m, (p.2 + p.1 + weight a) % m)

lemma running_fst_modEq (p : ℕ × ℕ) (l : List α) :
    (l.foldl (addRunning m weight) p).1 ≡ p.1 + (l.map weight).sum [MOD m] := by
  induction l generalizing p with
  | nil => exact Nat.ModEq.refl _
  | cons a l ih =>
    rw [List.foldl_cons, List.map_cons, List.sum_cons, ← Nat.add_assoc]
    exact (ih _).trans ((Nat.mod_modEq _ _).add_right _)

/-- Both sums stay below the modulus. -/
lemma running_lt {p : ℕ × ℕ} (hp : p.1 < m ∧ p.2 < m) (l : List α) :
    (l.foldl (addRunning m weight) p).1 < m ∧ (l.foldl (addRunning m weight) p).2 < m := by
  have hm : 0 < m := Nat.zero_lt_of_lt hp.1
  induction l generalizing p with
  | nil => exact hp
  | cons a l ih => exact ih ⟨Nat.mod_lt _ hm, Nat.mod_lt _ hm⟩

/-- One element in the place of another shows in the first sum. -/
lemma running_fst_ne {a b : α} (ha : weight a < m) (hb : weight b < m) (hne : weight a ≠ weight b)
    (p : ℕ × ℕ) (x y : List α) :
    ((x ++ a :: y).foldl (addRunning m weight) p).1 ≠
      ((x ++ b :: y).foldl (addRunning m weight) p).1 := by
  intro heq
  have hsum : ∀ c, ((x ++ c :: y).map weight).sum = (x.map weight).sum + (y.map weight).sum +
      weight c := by
    intro c
    rw [List.map_append, List.sum_append, List.map_cons, List.sum_cons]
    omega
  have hmod : p.1 + ((x ++ a :: y).map weight).sum ≡ p.1 + ((x ++ b :: y).map weight).sum [MOD m] :=
    (running_fst_modEq p _).symm.trans (heq ▸ running_fst_modEq p _)
  rw [hsum, hsum] at hmod
  have hweight : weight a ≡ weight b [MOD m] :=
    Nat.ModEq.add_left_cancel' _ (Nat.ModEq.add_left_cancel' _ hmod)
  exact hne (hweight.eq_of_lt_of_lt ha hb)

end Machine

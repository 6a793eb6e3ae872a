import Mathlib.Tactic

/-!
# Numbers as bytes

`leBytes n x` are the `n` low bytes of `x`, least significant first, as a little-endian machine
keeps them in memory, and `ofLeBytes` reads them back. `beBytes` and `ofBeBytes` are the same with
the most significant byte first. `byteSwap` reverses the bytes of a number: it takes one order to
the other.
-/

namespace Machine

def leBytes : ℕ → ℕ → List UInt8
  | 0, _ => []
  | n + 1, x => UInt8.ofNat x :: leBytes n (x / 256)

def ofLeBytes : List UInt8 → ℕ
  | [] => 0
  | b :: l => b.toNat + 256 * ofLeBytes l

def beBytes (n x : ℕ) : List UInt8 := (leBytes n x).reverse

/-- The bytes `b₀ b₁ ⋯` stand for `((b₀ * 256) + b₁) * 256 + ⋯`. -/
def ofBeBytes (l : List UInt8) : ℕ := l.foldl (fun a b => 256 * a + b.toNat) 0

/-- The number with the bytes of `x` in reverse order. -/
def byteSwap (n x : ℕ) : ℕ := ofLeBytes (leBytes n x).reverse

@[simp] lemma length_leBytes (n x : ℕ) : (leBytes n x).length = n := by
  induction n generalizing x with
  | zero => rfl
  | succ n ih => simp [leBytes, ih]

@[simp] lemma length_beBytes (n x : ℕ) : (beBytes n x).length = n := by
  simp [beBytes]

lemma ofLeBytes_lt (l : List UInt8) : ofLeBytes l < 256 ^ l.length := by
  induction l with
  | nil => simp [ofLeBytes]
  | cons b l ih =>
    have hb := b.toNat_lt
    rw [ofLeBytes, List.length_cons, pow_succ]
    omega

lemma leBytes_ofLeBytes (l : List UInt8) : leBytes l.length (ofLeBytes l) = l := by
  induction l with
  | nil => rfl
  | cons b l ih =>
    have hb := b.toNat_lt
    have hhead : UInt8.ofNat (b.toNat + 256 * ofLeBytes l) = b := by
      rw [← UInt8.toNat_inj, UInt8.toNat_ofNat']
      omega
    have htail : (b.toNat + 256 * ofLeBytes l) / 256 = ofLeBytes l := by omega
    rw [List.length_cons, leBytes, ofLeBytes, hhead, htail, ih]

lemma ofLeBytes_leBytes (n x : ℕ) : ofLeBytes (leBytes n x) = x % 256 ^ n := by
  induction n generalizing x with
  | zero => simp [leBytes, ofLeBytes, Nat.mod_one]
  | succ n ih =>
    have hbyte : (UInt8.ofNat x).toNat = x % 256 := by simp
    rw [leBytes, ofLeBytes, ih, hbyte, pow_succ', Nat.mod_mul]

/-! ### Big endian -/

lemma ofLeBytes_reverse (l : List UInt8) : ofLeBytes l.reverse = ofBeBytes l := by
  induction l using List.reverseRecOn with
  | nil => rfl
  | append_singleton l b ih =>
    rw [List.reverse_append, List.reverse_singleton, List.singleton_append, ofLeBytes, ih]
    simp [ofBeBytes, add_comm]

lemma ofBeBytes_lt (l : List UInt8) : ofBeBytes l < 256 ^ l.length := by
  rw [← ofLeBytes_reverse, ← List.length_reverse]
  exact ofLeBytes_lt l.reverse

lemma ofBeBytes_beBytes (n x : ℕ) : ofBeBytes (beBytes n x) = x % 256 ^ n := by
  rw [← ofLeBytes_reverse, beBytes, List.reverse_reverse, ofLeBytes_leBytes]

/-- A number stored with its bytes swapped is stored in big-endian order. -/
lemma leBytes_byteSwap (n x : ℕ) : leBytes n (byteSwap n x) = beBytes n x := by
  have h := leBytes_ofLeBytes (leBytes n x).reverse
  rwa [List.length_reverse, length_leBytes] at h

/-- What is read in big-endian order is the swap of what is read in little-endian order. -/
lemma byteSwap_ofLeBytes (l : List UInt8) : byteSwap l.length (ofLeBytes l) = ofBeBytes l := by
  rw [byteSwap, leBytes_ofLeBytes, ofLeBytes_reverse]

lemma byteSwap_beBytes (n x : ℕ) : byteSwap n (ofLeBytes (beBytes n x)) = x % 256 ^ n := by
  have h := byteSwap_ofLeBytes (beBytes n x)
  rwa [length_beBytes, ofBeBytes_beBytes] at h

lemma beBytes_byteSwap (l : List UInt8) :
    beBytes l.length (byteSwap l.length (ofLeBytes l)) = l := by
  rw [beBytes, leBytes_byteSwap, beBytes, List.reverse_reverse, leBytes_ofLeBytes]

lemma beBytes_ofBeBytes {l : List UInt8} {n : ℕ} (h : l.length = n) :
    beBytes n (ofBeBytes l) = l := by
  subst h
  rw [← byteSwap_ofLeBytes, beBytes_byteSwap]

end Machine

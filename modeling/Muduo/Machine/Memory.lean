import Mathlib.Tactic

/-!
# Blocks of memory as lists

`slice l i j` is the part `[i, j)` of a block, `copyAt l i d` writes `d` into the block from index
`i` on, and `resize l n z` cuts the block or fills it up with `z`. The lemmas say which slices and
which elements a write or a resize leaves alone.
-/

namespace Machine

variable {α : Type*}

/-- The elements at the indices `i ≤ k < j`. -/
def slice (l : List α) (i j : ℕ) : List α := (l.take j).drop i

/-- `std::copy` of `d` to index `i`. -/
def copyAt (l : List α) (i : ℕ) (d : List α) : List α := l.take i ++ d ++ l.drop (i + d.length)

/-- `std::vector::resize`. -/
def resize (l : List α) (n : ℕ) (z : α) : List α := l.take n ++ List.replicate (n - l.length) z

lemma length_slice {l : List α} {i j : ℕ} (hj : j ≤ l.length) : (slice l i j).length = j - i := by
  simp [slice, Nat.min_eq_left hj]

@[simp] lemma slice_self (l : List α) (i : ℕ) : slice l i i = [] := by
  simp [slice]

lemma slice_append {l : List α} {i j k : ℕ} (hij : i ≤ j) (hjk : j ≤ k) :
    slice l i j ++ slice l j k = slice l i k := by
  have hsplit : l.take k = l.take j ++ (l.take k).drop j := by
    conv_lhs => rw [← List.take_append_drop j (l.take k)]
    rw [List.take_take, Nat.min_eq_left hjk]
  by_cases hj : j ≤ l.length
  · rw [slice, slice, slice]
    conv_rhs => rw [hsplit]
    rw [List.drop_append_of_le_length]
    simp [hj, hij]
  · have h1 : l.take j = l := List.take_of_length_le (by omega)
    have h2 : l.take k = l := List.take_of_length_le (by omega)
    rw [slice, slice, slice, h1, h2, List.drop_eq_nil_of_le (show l.length ≤ j by omega),
      List.append_nil]

lemma drop_slice (l : List α) (i j n : ℕ) : (slice l i j).drop n = slice l (i + n) j := by
  simp [slice, List.drop_drop]

lemma take_slice (l : List α) {i j n : ℕ} (h : i + n ≤ j) :
    (slice l i j).take n = slice l i (i + n) := by
  rw [slice, slice, List.take_drop, List.take_take, Nat.min_eq_left h]

/-! ### Writes -/

lemma length_copyAt {l : List α} {i : ℕ} {d : List α} (h : i + d.length ≤ l.length) :
    (copyAt l i d).length = l.length := by
  simp only [copyAt, List.length_append, List.length_take, List.length_drop]
  omega

/-- A write over a part of the same length. -/
lemma copyAt_append {x y z : List α} {i : ℕ} {d : List α} (hi : x.length = i)
    (hd : d.length = y.length) : copyAt (x ++ (y ++ z)) i d = x ++ (d ++ z) := by
  subst hi
  rw [copyAt, List.take_left, ← List.append_assoc x y z, hd, ← List.length_append, List.drop_left,
    List.append_assoc]

lemma slice_copyAt_before {l : List α} {i : ℕ} {d : List α} {a b : ℕ} (hi : i ≤ l.length)
    (hb : b ≤ i) : slice (copyAt l i d) a b = slice l a b := by
  have hlen : (l.take i).length = i := by simp [hi]
  rw [slice, slice, copyAt, List.append_assoc, List.take_append_of_le_length (by omega),
    List.take_take, Nat.min_eq_left hb]

lemma slice_copyAt_self {l : List α} {i : ℕ} {d : List α} (hi : i ≤ l.length) :
    slice (copyAt l i d) i (i + d.length) = d := by
  have hlen : (l.take i ++ d).length = i + d.length := by simp [hi]
  rw [slice, copyAt, ← hlen, List.take_left, List.drop_append_of_le_length (by simp [hi]),
    List.drop_eq_nil_of_le (by simp), List.nil_append]

lemma slice_copyAt_after {l : List α} {i : ℕ} {d : List α} {a b : ℕ}
    (h : i + d.length ≤ l.length) (ha : i + d.length ≤ a) :
    slice (copyAt l i d) a b = slice l a b := by
  have hlen : (l.take i ++ d).length = i + d.length := by
    rw [List.length_append, List.length_take]
    omega
  apply List.ext_getElem?
  intro n
  simp only [slice, copyAt, List.getElem?_drop, List.getElem?_take]
  split
  · rw [List.getElem?_append_right (by rw [hlen]; omega), List.getElem?_drop, hlen]
    congr 1
    omega
  · rfl

/-- A write changes no element outside its place. -/
lemma getElem?_copyAt {l : List α} {i k : ℕ} {d : List α} (h : i + d.length ≤ l.length)
    (hk : k < i ∨ i + d.length ≤ k) : (copyAt l i d)[k]? = l[k]? := by
  have hi : (l.take i).length = i := List.length_take_of_le (by omega)
  rcases hk with hlt | hle
  · rw [copyAt, List.append_assoc, List.getElem?_append_left (by omega),
      List.getElem?_take_of_lt hlt]
  · have hlen : (l.take i ++ d).length = i + d.length := by rw [List.length_append, hi]
    rw [copyAt, List.getElem?_append_right (by omega), hlen, List.getElem?_drop]
    congr 1
    omega

lemma set_eq_copyAt {l : List α} {i : ℕ} {x : α} (h : i < l.length) :
    l.set i x = copyAt l i [x] := by
  rw [List.set_eq_take_append_cons_drop, if_pos h, copyAt, List.append_assoc]
  rfl

/-- Two writes, one behind the other. -/
lemma copyAt_copyAt_behind {l x y : List α} {i : ℕ} (h : i + x.length + y.length ≤ l.length) :
    copyAt (copyAt l i x) (i + x.length) y = copyAt l i (x ++ y) := by
  have hlen : (l.take i).length = i := List.length_take_of_le (by omega)
  have hfront : (l.take i ++ x).length = i + x.length := by rw [List.length_append, hlen]
  rw [copyAt, copyAt, copyAt, List.take_left' hfront, List.drop_append, hfront,
    List.drop_eq_nil_of_le (by omega), List.nil_append, List.drop_drop, List.length_append]
  simp only [List.append_assoc]
  congr 4
  omega

/-- The first part of what has been written is written again. -/
lemma copyAt_copyAt_again {l x y z : List α} {i : ℕ} (hi : i ≤ l.length)
    (h : y.length = x.length) : copyAt (copyAt l i (x ++ z)) i y = copyAt l i (y ++ z) := by
  have hlen : (l.take i).length = i := List.length_take_of_le hi
  have hx : copyAt l i (x ++ z) = l.take i ++ (x ++ (z ++ l.drop (i + (x ++ z).length))) := by
    rw [copyAt, List.append_assoc, List.append_assoc]
  rw [hx, copyAt_append hlen h, copyAt, List.append_assoc, List.append_assoc, List.length_append,
    List.length_append, h]

/-- A write up to the end. -/
lemma copyAt_to_end {l : List α} {i : ℕ} {d : List α} (h : i + d.length = l.length) :
    copyAt l i d = l.take i ++ d := by
  rw [copyAt, h, List.drop_length, List.append_nil]

lemma eq_or_getElem?_of_set {l : List α} {i k : ℕ} {x y : α} (h : (l.set i x)[k]? = some y) :
    i = k ∧ y = x ∨ i ≠ k ∧ l[k]? = some y := by
  by_cases hik : i = k
  · subst hik
    rw [List.getElem?_set_self', Option.map_eq_map, Option.map_eq_some_iff] at h
    obtain ⟨-, -, rfl⟩ := h
    exact Or.inl ⟨rfl, rfl⟩
  · rw [List.getElem?_set_ne hik] at h
    exact Or.inr ⟨hik, h⟩

/-! ### Resizing -/

lemma length_resize (l : List α) (n : ℕ) (z : α) : (resize l n z).length = n := by
  simp only [resize, List.length_append, List.length_take, List.length_replicate]
  omega

lemma slice_resize {l : List α} {n a b : ℕ} {z : α} (hb : b ≤ l.length) (hn : b ≤ n) :
    slice (resize l n z) a b = slice l a b := by
  rw [slice, slice, resize, List.take_append_of_le_length (by simp [hn, hb]), List.take_take,
    Nat.min_eq_left hn]

end Machine

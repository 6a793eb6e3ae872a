import Mathlib.Tactic

/-!
# Binary search

`lowerBound p l` is the search of `std::lower_bound` for the first element of `l` without `p`. If
`p` holds of a first part of the list, this is where that part ends. On any other list the search
still stops at a border: the element before it has `p`, and the element behind it has not.
-/

namespace Machine

variable {α : Type*} {p : α → Bool} {l : List α}

/-- The search among the `len` elements from index `first` on. -/
def lowerBoundFrom (p : α → Bool) (l : List α) : ℕ → ℕ → ℕ → ℕ
  | 0, first, _ => first
  | fuel + 1, first, len =>
    if len = 0 then first
    else if (l[first + len / 2]?).any p then
      lowerBoundFrom p l fuel (first + len / 2 + 1) (len - len / 2 - 1)
    else lowerBoundFrom p l fuel first (len / 2)

def lowerBound (p : α → Bool) (l : List α) : ℕ := lowerBoundFrom p l l.length 0 l.length

/-- All elements from `i` on are behind a border, as far as the neighbours of `i` show it. -/
structure IsBorder (p : α → Bool) (l : List α) (i : ℕ) : Prop where
  le : i ≤ l.length
  before : ∀ x, 0 < i → l[i - 1]? = some x → p x = true
  behind : ∀ x, l[i]? = some x → p x = false

/-- The elements on both sides of the part that is left have been looked at. -/
lemma lowerBoundFrom_isBorder {fuel first len : ℕ} (hlen : len ≤ fuel)
    (hle : first + len ≤ l.length)
    (hbefore : ∀ x, 0 < first → l[first - 1]? = some x → p x = true)
    (hbehind : ∀ x, l[first + len]? = some x → p x = false) :
    IsBorder p l (lowerBoundFrom p l fuel first len) := by
  induction fuel generalizing first len with
  | zero =>
    obtain rfl : len = 0 := by omega
    exact ⟨hle, hbefore, hbehind⟩
  | succ fuel ih =>
    rw [lowerBoundFrom]
    split_ifs with hzero hp
    · subst hzero
      exact ⟨hle, hbefore, hbehind⟩
    · refine ih (by omega) (by omega) ?_ ?_
      · intro x _ hx
        rw [Nat.add_sub_cancel] at hx
        simpa [hx] using hp
      · intro x hx
        rw [show first + len / 2 + 1 + (len - len / 2 - 1) = first + len by omega] at hx
        exact hbehind x hx
    · refine ih (by omega) (by omega) hbefore ?_
      intro x hx
      simpa [hx] using hp

theorem lowerBound_isBorder (p : α → Bool) (l : List α) : IsBorder p l (lowerBound p l) :=
  lowerBoundFrom_isBorder le_rfl (by omega) (by omega) (by simp)

/-! ### Increasing lists -/

section

variable {f : α → ℤ} {s : ℤ} {i j : ℕ} {x y : α}

/-- Each element has a larger key than the one before it. -/
def Increasing (f : α → ℤ) (l : List α) : Prop :=
  ∀ i x y, l[i]? = some x → l[i + 1]? = some y → f x < f y

lemma Increasing.lt (h : Increasing f l) (hij : i < j) (hx : l[i]? = some x)
    (hy : l[j]? = some y) : f x < f y := by
  induction j generalizing y with
  | zero => omega
  | succ j ih =>
    have hj : j < l.length := by
      have := (List.getElem?_eq_some_iff.mp hy).1
      omega
    have hz := List.getElem?_eq_getElem hj
    rcases Nat.lt_succ_iff_lt_or_eq.mp hij with hlt | rfl
    · exact (ih hlt hz).trans (h j _ y hz hy)
    · exact h i x y hx hy

/-- The element at `i` is the last one whose key is not beyond `s`. -/
structure IsLast (f : α → ℤ) (l : List α) (s : ℤ) (i : ℕ) (x : α) : Prop where
  get : l[i]? = some x
  le : f x ≤ s
  lt : ∀ y, l[i + 1]? = some y → s < f y

lemma IsLast.index_le (h : Increasing f l) (hi : IsLast f l s i x) (hj : IsLast f l s j y) :
    j ≤ i := by
  by_contra hle
  have hlt := not_le.mp hle
  have hlen : i + 1 < l.length := by
    have := (List.getElem?_eq_some_iff.mp hj.get).1
    omega
  have hz := List.getElem?_eq_getElem hlen
  have hbeyond := hi.lt _ hz
  have hle := hj.le
  rcases (Nat.succ_le_of_lt hlt).lt_or_eq with hlt' | heq
  · have := h.lt hlt' hz hj.get
    omega
  · subst heq
    cases hz.symm.trans hj.get
    omega

/-- There is only one such element. -/
lemma IsLast.unique (h : Increasing f l) (hi : IsLast f l s i x) (hj : IsLast f l s j y) :
    x = y := by
  have hij : i = j := le_antisymm (hj.index_le h hi) (hi.index_le h hj)
  subst hij
  exact Option.some.inj (hi.get.symm.trans hj.get)

lemma increasing_of_pairwise (h : l.Pairwise fun x y => f x < f y) : Increasing f l := by
  intro i x y hx hy
  obtain ⟨hi, rfl⟩ := List.getElem?_eq_some_iff.mp hx
  obtain ⟨hj, rfl⟩ := List.getElem?_eq_some_iff.mp hy
  exact List.pairwise_iff_getElem.mp h i (i + 1) hi hj (Nat.lt_succ_self i)

lemma IsLast.getLast?_filter (h : Increasing f l) (hi : IsLast f l s i x) :
    (l.filter (f · ≤ s)).getLast? = some x := by
  have hbeyond : (l.drop (i + 1)).filter (f · ≤ s) = [] := by
    refine List.filter_eq_nil_iff.mpr fun y hy => ?_
    obtain ⟨k, hk⟩ := List.mem_iff_getElem?.mp hy
    rw [List.getElem?_drop] at hk
    have hlt : s < f y := by
      cases k with
      | zero => exact hi.lt y hk
      | succ k =>
        have hnext : i + 1 < l.length := by
          have := (List.getElem?_eq_some_iff.mp hk).1
          omega
        have hz := List.getElem?_eq_getElem hnext
        exact (hi.lt _ hz).trans (h.lt (by omega) hz hk)
    simpa using hlt
  have hle : decide (f x ≤ s) = true := decide_eq_true hi.le
  rw [← List.take_append_drop (i + 1) l, List.filter_append, hbeyond, List.append_nil,
    List.take_add_one, hi.get, List.filter_append]
  simp [hle]

lemma filter_eq_nil_of_front (h : Increasing f l) (hfront : ∀ x, l[0]? = some x → s < f x) :
    l.filter (f · ≤ s) = [] := by
  refine List.filter_eq_nil_iff.mpr fun y hy => ?_
  obtain ⟨k, hk⟩ := List.mem_iff_getElem?.mp hy
  have hlt : s < f y := by
    rcases Nat.eq_zero_or_pos k with rfl | hpos
    · exact hfront y hk
    · have hlen : 0 < l.length := (Nat.zero_le k).trans_lt (List.getElem?_eq_some_iff.mp hk).1
      have hz := List.getElem?_eq_getElem hlen
      exact (hfront _ hz).trans (h.lt hpos hz hk)
  simpa using hlt

end

end Machine

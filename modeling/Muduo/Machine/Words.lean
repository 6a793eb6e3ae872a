import Muduo.Machine.Memory

/-!
# Words and gaps

A list is taken apart at the elements that are separators. `IsRun` says which parts of it are its
words: the maximal ones without a separator. `Words` says the same by induction, as a tokenizer
goes through the list, and `Words.runs` that the two are the same.
-/

namespace Machine

variable {α : Type*} {sep : α → Prop}

/-- The elements from index `i` up to index `j` are a maximal part without separators. -/
structure IsRun (sep : α → Prop) (l : List α) (i j : ℕ) : Prop where
  lt : i < j
  le : j ≤ l.length
  inside : ∀ k, i ≤ k → k < j → ∀ a ∈ l[k]?, ¬ sep a
  before : ∀ k, k + 1 = i → ∀ a ∈ l[k]?, sep a
  after : ∀ a ∈ l[j]?, sep a

/-- The list consists of these words, with separators around them. -/
inductive Words (sep : α → Prop) : List (List α) → List α → Prop where
  | nil {gap : List α} (hgap : ∀ a ∈ gap, sep a) : Words sep [] gap
  | cons {gap word rest : List α} {words : List (List α)} (hgap : ∀ a ∈ gap, sep a)
      (hne : word ≠ []) (hword : ∀ a ∈ word, ¬ sep a) (hrest : ∀ a ∈ rest.head?, sep a)
      (h : Words sep words rest) : Words sep (word :: words) (gap ++ (word ++ rest))

lemma Words.mem {words : List (List α)} {l w : List α} (h : Words sep words l) (hw : w ∈ words) :
    w ≠ [] ∧ (∀ a ∈ w, ¬ sep a) ∧ w <:+: l := by
  induction h with
  | nil hgap => cases hw
  | @cons gap word rest words hgap hne hword hrest h ih =>
    rcases List.mem_cons.mp hw with rfl | hw
    · exact ⟨hne, hword, gap, rest, List.append_assoc ..⟩
    · obtain ⟨hne', hword', hinfix⟩ := ih hw
      refine ⟨hne', hword', hinfix.trans ?_⟩
      exact ((List.suffix_append word rest).trans (List.suffix_append gap _)).isInfix

/-! ### The runs of a list -/

lemma not_isRun_of_forall {l : List α} (h : ∀ a ∈ l, sep a) (i j : ℕ) : ¬ IsRun sep l i j := by
  intro hrun
  obtain ⟨a, ha⟩ : ∃ a, l[i]? = some a :=
    ⟨_, List.getElem?_eq_getElem (hrun.lt.trans_le hrun.le)⟩
  exact hrun.inside i (le_refl i) hrun.lt a ha (h a (List.mem_of_getElem? ha))

section

variable {gap word rest : List α} {i j k : ℕ}

lemma getElem?_gap (hk : k < gap.length) : (gap ++ (word ++ rest))[k]? = gap[k]? :=
  List.getElem?_append_left hk

lemma getElem?_word (hk : k < word.length) :
    (gap ++ (word ++ rest))[gap.length + k]? = word[k]? := by
  rw [List.getElem?_append_right (Nat.le_add_right ..), Nat.add_sub_cancel_left,
    List.getElem?_append_left hk]

lemma getElem?_rest : (gap ++ (word ++ rest))[gap.length + word.length + k]? = rest[k]? := by
  rw [Nat.add_assoc, List.getElem?_append_right (Nat.le_add_right ..), Nat.add_sub_cancel_left,
    List.getElem?_append_right (Nat.le_add_right ..), Nat.add_sub_cancel_left]

variable (hgap : ∀ a ∈ gap, sep a) (hne : word ≠ []) (hword : ∀ a ∈ word, ¬ sep a)
  (hrest : ∀ a ∈ rest.head?, sep a)

include hgap hne hword hrest in
/-- The first word is a run. -/
lemma isRun_word :
    IsRun sep (gap ++ (word ++ rest)) gap.length (gap.length + word.length) where
  lt := Nat.lt_add_of_pos_right (List.length_pos_of_ne_nil hne)
  le := by
    simp only [List.length_append]
    omega
  inside := by
    intro k hle hlt a ha
    obtain ⟨k, rfl⟩ := Nat.exists_eq_add_of_le hle
    rw [getElem?_word (by omega)] at ha
    exact hword a (List.mem_of_getElem? ha)
  before := by
    intro k hk a ha
    rw [getElem?_gap (by omega)] at ha
    exact hgap a (List.mem_of_getElem? ha)
  after := by
    intro a ha
    rw [← Nat.add_zero (gap.length + word.length), getElem?_rest, ← List.head?_eq_getElem?] at ha
    exact hrest a ha

include hrest in
/-- A run does not begin where the word before it ends. -/
lemma IsRun.pos (h : IsRun sep rest i j) : 0 < i := by
  rw [Nat.pos_iff_ne_zero]
  rintro rfl
  obtain ⟨a, ha⟩ : ∃ a, rest[0]? = some a :=
    ⟨_, List.getElem?_eq_getElem (h.lt.trans_le h.le)⟩
  refine h.inside 0 (le_refl 0) h.lt a ha (hrest a ?_)
  rw [List.head?_eq_getElem?]
  exact ha

include hrest in
/-- The runs behind the first word. -/
lemma isRun_rest (h : IsRun sep rest i j) : IsRun sep (gap ++ (word ++ rest))
    (gap.length + word.length + i) (gap.length + word.length + j) where
  lt := Nat.add_lt_add_left h.lt _
  le := by
    have := h.le
    simp only [List.length_append]
    omega
  inside := by
    intro k hle hlt a ha
    obtain ⟨k, rfl⟩ := Nat.exists_eq_add_of_le ((Nat.le_add_right ..).trans hle)
    rw [getElem?_rest] at ha
    exact h.inside k (by omega) (by omega) a ha
  before := by
    intro k hk a ha
    have hpos := h.pos hrest
    obtain ⟨k, rfl⟩ := Nat.exists_eq_add_of_le (show gap.length + word.length ≤ k by omega)
    rw [getElem?_rest] at ha
    exact h.before k (by omega) a ha
  after := by
    intro a ha
    rw [getElem?_rest] at ha
    exact h.after a ha

include hword in
lemma exists_getElem?_word (hk : k < word.length) :
    ∃ a, (gap ++ (word ++ rest))[gap.length + k]? = some a ∧ ¬ sep a := by
  refine ⟨word[k], ?_, hword _ (List.getElem_mem hk)⟩
  rw [getElem?_word hk, List.getElem?_eq_getElem hk]

include hgap hword in
/-- A run that begins before the end of the word begins with it. -/
lemma IsRun.eq_begin (h : IsRun sep (gap ++ (word ++ rest)) i j)
    (hi : i < gap.length + word.length) : i = gap.length := by
  have hgapi : gap.length ≤ i := by
    by_contra hlow
    have hlow : i < gap.length := by omega
    have hat : (gap ++ (word ++ rest))[i]? = some gap[i] := by
      rw [getElem?_gap hlow, List.getElem?_eq_getElem hlow]
    exact h.inside i (le_refl i) h.lt _ hat (hgap _ (List.getElem_mem hlow))
  by_contra hne
  obtain ⟨k, rfl⟩ : ∃ k, i = gap.length + (k + 1) := ⟨i - gap.length - 1, by omega⟩
  obtain ⟨a, ha, hsep⟩ := exists_getElem?_word hword (k := k) (by omega)
  exact hsep (h.before _ (Nat.add_assoc ..) a ha)

include hword hrest in
/-- A run that begins with the word ends with it. -/
lemma IsRun.eq_end (h : IsRun sep (gap ++ (word ++ rest)) gap.length j) :
    j = gap.length + word.length := by
  have hlt := h.lt
  have hle := h.le
  simp only [List.length_append] at hle
  by_contra hj
  rcases Nat.lt_or_ge j (gap.length + word.length) with hj' | hj'
  · obtain ⟨k, rfl⟩ := Nat.exists_eq_add_of_le hlt.le
    obtain ⟨a, ha, hsep⟩ := exists_getElem?_word hword (k := k) (by omega)
    exact hsep (h.after a ha)
  · have hpos : 0 < rest.length := by omega
    have hat : (gap ++ (word ++ rest))[gap.length + word.length]? = some rest[0] := by
      rw [← Nat.add_zero (gap.length + word.length), getElem?_rest,
        List.getElem?_eq_getElem hpos]
    refine h.inside _ (Nat.le_add_right ..) (by omega) _ hat (hrest _ ?_)
    rw [List.head?_eq_getElem?, List.getElem?_eq_getElem hpos]
    rfl

/-- A run behind the first word is a run of what is behind it. -/
lemma IsRun.of_rest (h : IsRun sep (gap ++ (word ++ rest)) (gap.length + word.length + i)
    (gap.length + word.length + j)) : IsRun sep rest i j := by
  have hlt := h.lt
  have hle := h.le
  simp only [List.length_append] at hle
  have hat : ∀ k, rest[k]? = (gap ++ (word ++ rest))[gap.length + word.length + k]? :=
    fun k => getElem?_rest.symm
  refine ⟨by omega, by omega, ?_, ?_, ?_⟩
  · intro k hik hkj a ha
    rw [hat] at ha
    exact h.inside _ (by omega) (by omega) a ha
  · intro k hk a ha
    rw [hat] at ha
    exact h.before _ (by omega) a ha
  · intro a ha
    rw [hat] at ha
    exact h.after a ha

include hgap hword hrest in
/-- There are no others. -/
lemma isRun_cases (h : IsRun sep (gap ++ (word ++ rest)) i j) :
    i = gap.length ∧ j = gap.length + word.length ∨
      ∃ i' j', i = gap.length + word.length + i' ∧ j = gap.length + word.length + j' ∧
        IsRun sep rest i' j' := by
  rcases Nat.lt_or_ge i (gap.length + word.length) with hi | hi
  · obtain rfl := h.eq_begin hgap hword hi
    exact .inl ⟨rfl, h.eq_end hword hrest⟩
  · obtain ⟨i, rfl⟩ := Nat.exists_eq_add_of_le hi
    obtain ⟨j, rfl⟩ := Nat.exists_eq_add_of_le (hi.trans h.lt.le)
    exact .inr ⟨i, j, rfl, rfl, h.of_rest⟩

lemma slice_word : slice (gap ++ (word ++ rest)) gap.length (gap.length + word.length) = word := by
  rw [slice, ← List.append_assoc, ← List.length_append, List.take_left, List.drop_left]

lemma slice_rest (i j : ℕ) :
    slice (gap ++ (word ++ rest)) (gap.length + word.length + i) (gap.length + word.length + j) =
      slice rest i j := by
  rw [slice, slice, ← List.append_assoc, ← List.length_append, List.take_length_add_append,
    List.drop_length_add_append]

end

/-- The words are the runs, in their order. -/
lemma Words.runs {words : List (List α)} {l : List α} (h : Words sep words l) :
    ∃ spans : List (ℕ × ℕ), spans.Pairwise (fun p q => p.2 < q.1) ∧
      (∀ i j, (i, j) ∈ spans ↔ IsRun sep l i j) ∧ words = spans.map fun p => slice l p.1 p.2 := by
  induction h with
  | nil hgap =>
    exact ⟨[], .nil, fun i j => iff_of_false List.not_mem_nil (not_isRun_of_forall hgap i j), rfl⟩
  | @cons gap word rest words hgap hne hword hrest h ih =>
    obtain ⟨spans, hsorted, hspans, rfl⟩ := ih
    let shift (p : ℕ × ℕ) : ℕ × ℕ :=
      (gap.length + word.length + p.1, gap.length + word.length + p.2)
    refine ⟨(gap.length, gap.length + word.length) :: spans.map shift, ?_, ?_, ?_⟩
    · refine List.pairwise_cons.mpr ⟨?_, List.pairwise_map.mpr (hsorted.imp ?_)⟩
      · intro q hq
        obtain ⟨p, hp, rfl⟩ := List.mem_map.mp hq
        exact Nat.lt_add_of_pos_right (((hspans p.1 p.2).mp hp).pos hrest)
      · intro p q hpq
        exact Nat.add_lt_add_left hpq _
    · intro i j
      rw [List.mem_cons, List.mem_map]
      constructor
      · rintro (heq | ⟨p, hp, heq⟩)
        · cases heq
          exact isRun_word hgap hne hword hrest
        · cases heq
          exact isRun_rest hrest ((hspans p.1 p.2).mp hp)
      · intro hrun
        rcases isRun_cases hgap hword hrest hrun with ⟨rfl, rfl⟩ | ⟨i, j, rfl, rfl, hrun'⟩
        · exact .inl rfl
        · exact .inr ⟨(i, j), (hspans i j).mpr hrun', rfl⟩
    · rw [List.map_cons, List.map_map, slice_word]
      refine congrArg (word :: ·) (List.map_congr_left fun p _ => ?_)
      exact (slice_rest p.1 p.2).symm

end Machine

import Mathlib.Tactic
import Mathlib.Data.List.Sort
import Mathlib.Data.List.TakeWhile

/-!
# Sets sorted by a key

A `SortedSet key` is a container whose elements are kept in the order of their keys and in which no
two elements have the same key, such as a binary search tree with unique keys. Elements with equal
keys need not be equal: the operations see the key only.
-/

namespace Machine

variable {α κ : Type*} [LinearOrder κ]

structure SortedSet (key : α → κ) where
  toList : List α
  sorted : toList.Pairwise fun a b => key a < key b

namespace SortedSet

variable {key : α → κ}

instance : Membership α (SortedSet key) := ⟨fun s a => a ∈ s.toList⟩

lemma mem_iff {s : SortedSet key} {a : α} : a ∈ s ↔ a ∈ s.toList := Iff.rfl

def empty : SortedSet key := ⟨[], List.Pairwise.nil⟩

def size (s : SortedSet key) : ℕ := s.toList.length

/-- The element with the least key. -/
def begin? (s : SortedSet key) : Option α := s.toList.head?

def find? (s : SortedSet key) (k : κ) : Option α := s.toList.find? fun a => key a = k

/-- The list of `insert`, when the key is new. -/
def insertList (key : α → κ) (a : α) (l : List α) : List α :=
  l.orderedInsert (fun a b => key a ≤ key b) a

lemma pairwise_insertList {a : α} {l : List α} (hl : l.Pairwise fun a b => key a < key b)
    (ha : ∀ b ∈ l, key b ≠ key a) : (insertList key a l).Pairwise fun a b => key a < key b := by
  induction l with
  | nil => simp [insertList]
  | cons b l ih =>
    rw [List.pairwise_cons] at hl
    have hb := ha b (List.mem_cons_self ..)
    have ha' : ∀ c ∈ l, key c ≠ key a := fun c hc => ha c (List.mem_cons_of_mem b hc)
    rw [insertList, List.orderedInsert_cons]
    split
    · rename_i hle
      have hlt : key a < key b := lt_of_le_of_ne hle hb.symm
      refine List.pairwise_cons.mpr ⟨fun c hc => ?_, List.pairwise_cons.mpr hl⟩
      rcases List.mem_cons.mp hc with rfl | hc
      · exact hlt
      · exact hlt.trans (hl.1 c hc)
    · rename_i hle
      refine List.pairwise_cons.mpr ⟨fun c hc => ?_, ih hl.2 ha'⟩
      rcases (List.mem_orderedInsert _).mp hc with rfl | hc
      · exact not_le.mp hle
      · exact hl.1 c hc

/-- `insert`: the set and whether the element was added. An element whose key is present is not. -/
def insert (s : SortedSet key) (a : α) : SortedSet key × Bool :=
  if h : ∀ b ∈ s.toList, key b ≠ key a then
    (⟨insertList key a s.toList, pairwise_insertList s.sorted h⟩, true)
  else (s, false)

/-- `erase` by key: the set and how many elements were removed. -/
def erase (s : SortedSet key) (k : κ) : SortedSet key × ℕ :=
  (⟨s.toList.filter fun a => key a ≠ k, s.sorted.filter _⟩,
    (s.toList.filter fun a => key a = k).length)

/-- The elements before `lower_bound(k)`. -/
def before (s : SortedSet key) (k : κ) : List α := s.toList.takeWhile fun a => key a < k

/-- The set without the elements before `lower_bound(k)`. -/
def eraseBefore (s : SortedSet key) (k : κ) : SortedSet key :=
  ⟨s.toList.dropWhile fun a => key a < k, s.sorted.sublist (List.dropWhile_sublist _)⟩

/-! ### What the operations do -/

variable {s : SortedSet key} {a b : α} {k : κ}

/-- An element is determined by its key. -/
lemma eq_of_key_eq (ha : a ∈ s) (hb : b ∈ s) (h : key a = key b) : a = b := by
  have hnodup : (s.toList.map key).Nodup := List.pairwise_map.mpr (s.sorted.imp ne_of_lt)
  exact List.inj_on_of_nodup_map hnodup ha hb h

lemma begin?_eq_some (h : s.begin? = some a) : a ∈ s ∧ ∀ b ∈ s, key a ≤ key b := by
  have hs := s.sorted
  obtain ⟨l, hl⟩ := List.head?_eq_some_iff.mp h
  rw [hl, List.pairwise_cons] at hs
  refine ⟨by simp [mem_iff, hl], fun b hb => ?_⟩
  rw [mem_iff, hl] at hb
  rcases List.mem_cons.mp hb with rfl | hb
  · exact le_rfl
  · exact (hs.1 b hb).le

lemma begin?_eq_none : s.begin? = none ↔ s.toList = [] := List.head?_eq_none_iff

lemma find?_eq_some (h : s.find? k = some a) : a ∈ s ∧ key a = k :=
  ⟨List.mem_of_find?_eq_some h, by simpa using List.find?_some h⟩

lemma find?_eq_none (h : s.find? k = none) (ha : a ∈ s) : key a ≠ k := by
  simpa using List.find?_eq_none.mp h a ha

lemma insert_of_new (h : ∀ b ∈ s, key b ≠ key a) :
    (s.insert a).2 = true ∧ (s.insert a).1.toList.Perm (a :: s.toList) := by
  have h' : ∀ b ∈ s.toList, key b ≠ key a := h
  rw [insert, dif_pos h']
  exact ⟨rfl, List.perm_orderedInsert (fun a b => key a ≤ key b) a s.toList⟩

lemma erase_of_mem (ha : a ∈ s) :
    (s.erase (key a)).2 = 1 ∧ s.toList.Perm (a :: (s.erase (key a)).1.toList) := by
  have hsplit : s.toList.Perm
      ((s.toList.filter fun b => key b = key a) ++ s.toList.filter fun b => key b ≠ key a) := by
    simpa using (List.filter_append_perm (fun b => decide (key b = key a)) s.toList).symm
  have hone : (s.toList.filter fun b => key b = key a) = [a] := by
    have hnodup : s.toList.Nodup := s.sorted.imp fun {x y} hlt hxy => by simp [hxy] at hlt
    apply List.perm_singleton.mp
    apply (List.perm_ext_iff_of_nodup (hnodup.filter _) (List.nodup_singleton a)).mpr
    intro b
    simp only [List.mem_filter, decide_eq_true_eq, List.mem_singleton]
    constructor
    · rintro ⟨hb, hkey⟩
      exact eq_of_key_eq hb ha hkey
    · rintro rfl
      exact ⟨ha, rfl⟩
  rw [hone] at hsplit
  exact ⟨by simp [erase, hone], hsplit⟩

lemma find?_eq_some_iff : s.find? k = some a ↔ a ∈ s ∧ key a = k := by
  constructor
  · exact find?_eq_some
  · rintro ⟨ha, hk⟩
    cases h : s.find? k with
    | none => exact absurd hk (find?_eq_none h ha)
    | some b =>
      obtain ⟨hb, hbk⟩ := find?_eq_some h
      rw [eq_of_key_eq hb ha (hbk.trans hk.symm)]

lemma mem_erase : a ∈ (s.erase k).1 ↔ a ∈ s ∧ key a ≠ k := by
  simp [mem_iff, erase]

/-- An element is put in the place of the one with its key. -/
lemma find?_erase_insert (s : SortedSet key) (a : α) (k : κ) :
    ((s.erase (key a)).1.insert a).1.find? k = if k = key a then some a else s.find? k := by
  have hnew : ∀ b ∈ (s.erase (key a)).1, key b ≠ key a := fun b hb => (mem_erase.mp hb).2
  have hmem : ∀ b, b ∈ ((s.erase (key a)).1.insert a).1 ↔ b = a ∨ b ∈ s ∧ key b ≠ key a := by
    intro b
    rw [mem_iff, (insert_of_new hnew).2.mem_iff, List.mem_cons, ← mem_iff, mem_erase]
  refine Option.ext fun b => ?_
  rw [find?_eq_some_iff, hmem]
  split
  · next hk =>
    constructor
    · rintro ⟨rfl | ⟨-, hb⟩, hbk⟩
      · rfl
      · exact absurd (hbk.trans hk) hb
    · rintro ⟨⟩
      exact ⟨.inl rfl, hk.symm⟩
  · next hk =>
    rw [find?_eq_some_iff]
    constructor
    · rintro ⟨rfl | ⟨hb, -⟩, hbk⟩
      · exact absurd hbk.symm hk
      · exact ⟨hb, hbk⟩
    · rintro ⟨hb, hbk⟩
      exact ⟨.inr ⟨hb, fun h => hk (hbk.symm.trans h)⟩, hbk⟩

lemma before_append (s : SortedSet key) (k : κ) :
    s.before k ++ (s.eraseBefore k).toList = s.toList :=
  List.takeWhile_append_dropWhile

lemma lt_of_mem_before (h : a ∈ s.before k) : key a < k := by
  simpa using List.mem_takeWhile_imp h

lemma le_of_mem_eraseBefore (h : a ∈ s.eraseBefore k) : k ≤ key a := by
  have hs := (s.eraseBefore k).sorted
  rw [mem_iff] at h
  cases hl : (s.eraseBefore k).toList with
  | nil => simp [hl] at h
  | cons b l =>
    have hb : ¬ key b < k := by
      have := List.head?_dropWhile_not (fun a => decide (key a < k)) s.toList
      simp only [eraseBefore] at hl
      simpa [hl] using this
    rw [hl] at h hs
    rw [List.pairwise_cons] at hs
    rcases List.mem_cons.mp h with rfl | h
    · exact not_lt.mp hb
    · exact (not_lt.mp hb).trans (hs.1 a h).le

end SortedSet
end Machine

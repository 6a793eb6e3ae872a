import Mathlib.Tactic

/-!
# Sets with a key

A `KeyedSet key` is a container in which no two elements have the same key and whose order means
nothing, such as a hash set whose equality looks at the key only. What the operations do is said by
`find?`, which determines the elements.
-/

namespace Machine

variable {α κ : Type*} [DecidableEq κ]

structure KeyedSet (key : α → κ) where
  toList : List α
  nodup : (toList.map key).Nodup

namespace KeyedSet

variable {key : α → κ}

instance : Membership α (KeyedSet key) := ⟨fun s a => a ∈ s.toList⟩

omit [DecidableEq κ] in
lemma mem_iff {s : KeyedSet key} {a : α} : a ∈ s ↔ a ∈ s.toList := Iff.rfl

def empty : KeyedSet key := ⟨[], List.nodup_nil⟩

def find? (s : KeyedSet key) (k : κ) : Option α := s.toList.find? fun a => key a = k

/-- `insert` adds an element whose key is not present. -/
def insert (s : KeyedSet key) (a : α) : KeyedSet key :=
  if h : key a ∉ s.toList.map key then ⟨a :: s.toList, List.nodup_cons.mpr ⟨h, s.nodup⟩⟩ else s

/-- `erase` by key: the set and how many elements were removed. -/
def erase (s : KeyedSet key) (k : κ) : KeyedSet key × ℕ :=
  (⟨s.toList.filter fun a => key a ≠ k, s.nodup.sublist (List.filter_sublist.map key)⟩,
    (s.toList.filter fun a => key a = k).length)

/-! ### What the operations do -/

variable {s : KeyedSet key} {a : α} {k k' : κ}

lemma find?_eq_some : s.find? k = some a ↔ a ∈ s ∧ key a = k := by
  constructor
  · intro h
    exact ⟨List.mem_of_find?_eq_some h, by simpa using List.find?_some h⟩
  · rintro ⟨ha, rfl⟩
    have hsome : (s.find? (key a)).isSome := List.find?_isSome.mpr ⟨a, ha, by simp⟩
    obtain ⟨b, hb⟩ := Option.isSome_iff_exists.mp hsome
    have hkey : key b = key a := by simpa using List.find?_some hb
    rw [hb, List.inj_on_of_nodup_map s.nodup (List.mem_of_find?_eq_some hb) ha hkey]

lemma find?_eq_none : s.find? k = none ↔ k ∉ s.toList.map key := by
  simp [find?, List.find?_eq_none]

lemma find?_insert (h : s.find? (key a) = none) (k : κ) :
    (s.insert a).find? k = if k = key a then some a else s.find? k := by
  rw [insert, dif_pos (find?_eq_none.mp h), find?, List.find?_cons]
  by_cases hk : k = key a
  · simp [hk]
  · simp [hk, Ne.symm hk, find?]

lemma find?_erase (s : KeyedSet key) (k' k : κ) :
    (s.erase k').1.find? k = if k = k' then none else s.find? k := by
  by_cases hk : k = k'
  · simp [hk, erase, find?]
  · rw [if_neg hk, find?, erase, List.find?_filter, find?]
    congr 1
    funext b
    by_cases hb : key b = k
    · simp [hb, hk]
    · simp [hb]

lemma erase_of_find?_eq_none (h : s.find? k = none) : (s.erase k).1 = s := by
  have hfilter : (s.toList.filter fun a => key a ≠ k) = s.toList := by
    rw [List.filter_eq_self]
    intro a ha
    have hk := find?_eq_none.mp h
    simp only [ne_eq, decide_eq_true_eq]
    rintro rfl
    exact hk (List.mem_map_of_mem ha)
  rcases s with ⟨l, hl⟩
  simp only [erase, mk.injEq]
  exact hfilter

lemma erase_count (s : KeyedSet key) (k : κ) :
    (s.erase k).2 = if s.find? k = none then 0 else 1 := by
  have hcount : (s.erase k).2 = (s.toList.map key).count k := by
    rw [erase, ← List.countP_eq_length_filter, List.count_eq_countP, List.countP_map]
    rfl
  rw [hcount, s.nodup.count]
  by_cases h : k ∈ s.toList.map key
  · rw [if_pos h, if_neg (mt find?_eq_none.mp (not_not.mpr h))]
  · rw [if_neg h, if_pos (find?_eq_none.mpr h)]

end KeyedSet
end Machine

import Mathlib.Tactic

/-!
# Sliding windows

A buffer of bounded capacity that loses its front element when it is full shows a window of a
function on the integers: its values at `n` successive places from `first` on. The window moves when
the next value is put in, and an element that is changed is a change of the function at its place.
-/

namespace Machine

variable {α : Type*}

/-- `x` is put behind the others. A full buffer loses its front element. -/
def pushBounded (capacity : ℕ) (l : List α) (x : α) : List α :=
  if l.length < capacity then l ++ [x] else l.tail ++ [x]

def window (f : ℤ → α) (first : ℤ) (n : ℕ) : List α := (List.range n).map fun i : ℕ => f (first + i)

section

variable {f g : ℤ → α} {first : ℤ} {n : ℕ}

@[simp] lemma length_window (f : ℤ → α) (first : ℤ) (n : ℕ) : (window f first n).length = n := by
  rw [window, List.length_map, List.length_range]

lemma getElem?_window {i : ℕ} (h : i < n) : (window f first n)[i]? = some (f (first + i)) := by
  rw [window, List.getElem?_map, List.getElem?_range h]
  rfl

lemma window_succ (f : ℤ → α) (first : ℤ) (n : ℕ) :
    window f first (n + 1) = window f first n ++ [f (first + n)] := by
  rw [window, List.range_succ, List.map_append]
  rfl

lemma window_congr (h : ∀ i < n, f (first + i) = g (first + i)) :
    window f first n = window g first n :=
  List.map_congr_left fun i hi => h i (List.mem_range.mp hi)

lemma window_update_of_lt {place : ℤ} (h : place < first) (x : α) :
    window (Function.update f place x) first n = window f first n :=
  window_congr fun i _ => Function.update_of_ne (by omega) ..

lemma tail_window (f : ℤ → α) (first : ℤ) (n : ℕ) :
    (window f first (n + 1)).tail = window f (first + 1) n := by
  rw [window, window, List.range_succ_eq_map, List.map_cons, List.tail_cons, List.map_map]
  refine List.map_congr_left fun i _ => congrArg f ?_
  push_cast
  ring

/-- The next value is put in, and the window grows or moves on. -/
lemma pushBounded_window {capacity : ℕ} (hcapacity : 0 < capacity) (hn : n ≤ capacity)
    (f : ℤ → α) (first : ℤ) :
    pushBounded capacity (window f first n) (f (first + n)) =
      if n < capacity then window f first (n + 1) else window f (first + 1) n := by
  rw [pushBounded, length_window]
  split
  · exact (window_succ f first n).symm
  · obtain ⟨k, rfl⟩ : ∃ k, n = k + 1 := ⟨n - 1, by omega⟩
    rw [tail_window, window_succ]
    congr 3
    push_cast
    ring

/-- An element is changed. -/
lemma modify_window (i : ℕ) (change : α → α) :
    (window f first n).modify i change =
      window (Function.update f (first + i) (change (f (first + i)))) first n := by
  refine List.ext_getElem? fun k => ?_
  rw [List.getElem?_modify]
  rcases Nat.lt_or_ge k n with hk | hk
  · rw [getElem?_window hk, getElem?_window hk]
    by_cases hik : i = k
    · subst hik
      rw [Function.update_self]
      simp
    · rw [Function.update_of_ne (by omega)]
      simp [hik]
  · rw [List.getElem?_eq_none (by rwa [length_window]),
      List.getElem?_eq_none (by rwa [length_window])]
    rfl

end

end Machine

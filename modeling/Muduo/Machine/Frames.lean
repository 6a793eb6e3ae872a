import Mathlib.Tactic

/-!
# Streams of frames

A framing takes the first frame off an input that begins with a whole one. `frames` takes off one
frame after another, and leaves the input from the first place where there is none: it is what a
reader gets that has the whole stream in front of it. A reader that is given the stream in parts
gets the same (`frames_append`).
-/

namespace Machine

/-- `next` finds the same frame however the input goes on. -/
structure Framing (α β : Type*) where
  next : List β → Option (α × List β)
  shorter : ∀ {x a rest}, next x = some (a, rest) → rest.length < x.length
  next_append : ∀ {x a rest} y, next x = some (a, rest) → next (x ++ y) = some (a, rest ++ y)

namespace Framing

variable {α β : Type*} (F : Framing α β)

/-- At most `n` frames, and what is left. -/
def take : ℕ → List β → List α × List β
  | 0, x => ([], x)
  | n + 1, x =>
    match F.next x with
    | none => ([], x)
    | some (a, rest) => (a :: (take n rest).1, (take n rest).2)

def frames (x : List β) : List α × List β := F.take x.length x

/-- No continuation of the input begins with a frame. -/
def Rejected (x : List β) : Prop := x ≠ [] ∧ ∀ y, F.next (x ++ y) = none

variable {F} {x y rest : List β} {a : α}

lemma next_nil : F.next [] = none := by
  match h : F.next [] with
  | none => rfl
  | some (a, rest) => exact absurd (F.shorter h) (Nat.not_lt_zero _)

/-- As many rounds as the input is long are enough. -/
lemma take_congr {n m : ℕ} (hn : x.length ≤ n) (hm : x.length ≤ m) : F.take n x = F.take m x := by
  induction n generalizing m x with
  | zero =>
    rw [List.eq_nil_of_length_eq_zero (Nat.le_zero.mp hn)]
    cases m <;> simp [take, next_nil]
  | succ n ih =>
    cases m with
    | zero =>
      rw [List.eq_nil_of_length_eq_zero (Nat.le_zero.mp hm)]
      simp [take, next_nil]
    | succ m =>
      rw [take, take]
      match h : F.next x with
      | none => rfl
      | some (a, rest) =>
        have hlt := F.shorter h
        dsimp only
        rw [ih (m := m) (by omega) (by omega)]

lemma frames_of_none (h : F.next x = none) : F.frames x = ([], x) := by
  rw [frames, take_congr (le_refl _) (Nat.le_succ _), take, h]

lemma frames_of_some (h : F.next x = some (a, rest)) :
    F.frames x = (a :: (F.frames rest).1, (F.frames rest).2) := by
  have hlt := F.shorter h
  rw [frames, take_congr (le_refl _) (Nat.le_succ _), take, h]
  dsimp only
  rw [take_congr (m := rest.length) (by omega) (le_refl _), frames]

/-- What has been taken off stays, and the reader goes on with what was left. -/
theorem frames_append (x y : List β) :
    F.frames (x ++ y) = ((F.frames x).1 ++ (F.frames ((F.frames x).2 ++ y)).1,
      (F.frames ((F.frames x).2 ++ y)).2) := by
  induction hn : x.length using Nat.strong_induction_on generalizing x with
  | _ n ih =>
    match h : F.next x with
    | none => rw [frames_of_none h, List.nil_append]
    | some (a, rest) =>
      rw [frames_of_some h, frames_of_some (F.next_append y h),
        ih rest.length (hn ▸ F.shorter h) rest rfl, List.cons_append]

/-- Frames one behind the other. -/
theorem frames_flatten {encode : α → List β} {as : List α}
    (h : ∀ a ∈ as, ∀ y, F.next (encode a ++ y) = some (a, y)) :
    F.frames ((as.map encode).flatten) = (as, []) := by
  induction as with
  | nil => exact frames_of_none next_nil
  | cons a as ih =>
    have hnext := h a (List.mem_cons_self ..) (as.map encode).flatten
    rw [List.map_cons, List.flatten_cons, frames_of_some hnext,
      ih fun b hb => h b (List.mem_cons_of_mem a hb)]

lemma frames_suffix (h : ∀ {x a rest}, F.next x = some (a, rest) → rest <:+ x) (x : List β) :
    (F.frames x).2 <:+ x := by
  induction hn : x.length using Nat.strong_induction_on generalizing x with
  | _ n ih =>
    match hnext : F.next x with
    | none =>
      rw [frames_of_none hnext]
    | some (a, rest) =>
      rw [frames_of_some hnext]
      exact (ih rest.length (hn ▸ F.shorter hnext) rest rfl).trans (h hnext)

lemma Rejected.append (h : F.Rejected x) (y : List β) : F.Rejected (x ++ y) := by
  refine ⟨List.append_ne_nil_of_left_ne_nil h.1 y, ?_⟩
  intro z
  rw [List.append_assoc]
  exact h.2 (y ++ z)

lemma Rejected.frames (h : F.Rejected x) : F.frames x = ([], x) := by
  have hnext := h.2 []
  rw [List.append_nil] at hnext
  exact frames_of_none hnext

/-- A stream that has come to a rejected frame does not get past it. -/
lemma Rejected.frames_append (h : F.Rejected (F.frames x).2) (y : List β) :
    F.Rejected (F.frames (x ++ y)).2 := by
  rw [Framing.frames_append, (h.append y).frames]
  exact h.append y

end Framing

end Machine

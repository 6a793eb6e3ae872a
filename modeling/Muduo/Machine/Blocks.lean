import Mathlib.Tactic

/-!
# Messages in blocks

A stream of messages is cut into pieces. `InBlocks pieces messages` says that the cuts are between
messages: every piece is made of whole messages, and the messages of the pieces, one piece after
another, are `messages`.
-/

namespace Machine

variable {α : Type*} {pieces messages : List (List α)} {piece m : List α}

def InBlocks (pieces messages : List (List α)) : Prop :=
  ∃ blocks : List (List (List α)), pieces = blocks.map List.flatten ∧ messages = blocks.flatten

lemma InBlocks.flatten_eq (h : InBlocks pieces messages) : pieces.flatten = messages.flatten := by
  obtain ⟨blocks, rfl, rfl⟩ := h
  rw [List.flatten_flatten]

/-- A piece with nothing in it. -/
lemma InBlocks.concat_nil (h : InBlocks pieces messages) : InBlocks (pieces ++ [[]]) messages := by
  obtain ⟨blocks, rfl, rfl⟩ := h
  exact ⟨blocks ++ [[]], by simp, by simp⟩

/-- A message at the end of the last piece. -/
lemma InBlocks.extend (h : InBlocks (pieces ++ [piece]) messages) (m : List α) :
    InBlocks (pieces ++ [piece ++ m]) (messages ++ [m]) := by
  obtain ⟨blocks, hpieces, rfl⟩ := h
  obtain ⟨first, last, rfl, rfl, hlast⟩ := List.map_eq_append_iff.mp hpieces.symm
  obtain ⟨block, rfl, rfl⟩ := List.map_eq_singleton_iff.mp hlast
  exact ⟨first ++ [block ++ [m]], by simp, by simp⟩

/-- A message in a piece of its own. -/
lemma InBlocks.concat (h : InBlocks pieces messages) (m : List α) :
    InBlocks (pieces ++ [m]) (messages ++ [m]) := by
  simpa using h.concat_nil.extend m

end Machine

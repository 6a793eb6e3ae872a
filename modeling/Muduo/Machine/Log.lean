import Mathlib.Tactic

/-!
# Append-only logs

A log grows at its end. `AtEach y P log` says that `P` held of the log each time that `y` was
appended to it. `Since y P log` says that `y` was appended, and nothing that `P` holds of behind it.
The entries of a log are also known by their indices, which do not change.
-/

namespace Machine

variable {α : Type*} {x y : α} {P : List α → Prop} {log : List α}

/-- `P` holds of what precedes each occurrence of `y` in the log. -/
def AtEach (y : α) (P : List α → Prop) (log : List α) : Prop :=
  ∀ pre post, log = pre ++ y :: post → P pre

lemma atEach_of_notMem (h : y ∉ log) : AtEach y P log := by
  rintro pre post rfl
  simp at h

/-- Where an entry occurs in a log that has just grown. -/
lemma concat_eq_append_cons {pre post : List α} (h : log ++ [x] = pre ++ y :: post) :
    log = pre ∧ x = y ∨ ∃ post', log = pre ++ y :: post' := by
  rcases List.eq_nil_or_concat post with rfl | ⟨post', z, rfl⟩
  · obtain ⟨hlog, hx⟩ := List.append_inj' h rfl
    exact Or.inl ⟨hlog, by simpa using hx⟩
  · rw [List.concat_eq_append, ← List.cons_append, ← List.append_assoc] at h
    exact Or.inr ⟨post', (List.append_inj' h rfl).1⟩

lemma AtEach.concat_of_ne (h : AtEach y P log) (hx : x ≠ y) : AtEach y P (log ++ [x]) := by
  intro pre post heq
  rcases concat_eq_append_cons heq with ⟨-, hxy⟩ | ⟨post', hlog⟩
  · exact absurd hxy hx
  · exact h pre post' hlog

lemma AtEach.concat (h : AtEach y P log) (hP : P log) : AtEach y P (log ++ [x]) := by
  intro pre post heq
  rcases concat_eq_append_cons heq with ⟨rfl, -⟩ | ⟨post', hlog⟩
  · exact hP
  · exact h pre post' hlog

lemma getElem?_concat_eq_some {k : ℕ} :
    (log ++ [x])[k]? = some y ↔ log[k]? = some y ∨ k = log.length ∧ y = x := by
  rcases lt_trichotomy k log.length with hlt | rfl | hgt
  · simp [List.getElem?_append_left hlt, hlt.ne]
  · simp [eq_comm]
  · have hnone : (log ++ [x])[k]? = none := List.getElem?_eq_none (by simpa using hgt)
    simp [hnone, hgt.ne', hgt.le]

lemma nodup_map_concat {β : Type*} {f : α → β} (h : (log.map f).Nodup) (hx : f x ∉ log.map f) :
    ((log ++ [x]).map f).Nodup := by
  rw [List.map_append, List.map_singleton]
  exact List.nodup_append.mpr ⟨h, List.nodup_singleton _, by simpa using hx⟩

/-- `y` occurs in the log, and `P` holds of nothing behind it. -/
def Since (y : α) (P : α → Prop) (log : List α) : Prop :=
  ∃ pre post, log = pre ++ y :: post ∧ ∀ z ∈ post, ¬ P z

lemma Since.mem {P : α → Prop} (h : Since y P log) : y ∈ log := by
  obtain ⟨pre, post, rfl, -⟩ := h
  exact List.mem_append_right _ (List.mem_cons_self ..)

lemma since_concat {P : α → Prop} : Since y P (log ++ [x]) ↔ x = y ∨ Since y P log ∧ ¬ P x := by
  constructor
  · rintro ⟨pre, post, h, hpost⟩
    rcases List.eq_nil_or_concat post with rfl | ⟨post', z, rfl⟩
    · exact Or.inl (List.cons.inj (List.append_inj' h rfl).2).1
    · rw [List.concat_eq_append, ← List.cons_append, ← List.append_assoc] at h
      obtain ⟨hlog, hx⟩ := List.append_inj' h rfl
      cases hx
      rw [List.concat_eq_append] at hpost
      exact Or.inr ⟨⟨pre, post', hlog, fun w hw => hpost w (List.mem_append_left _ hw)⟩,
        hpost x (List.mem_append_right _ (List.mem_cons_self ..))⟩
  · rintro (rfl | ⟨⟨pre, post, rfl, hpost⟩, hx⟩)
    · exact ⟨log, [], rfl, nofun⟩
    · refine ⟨pre, post ++ [x], by simp, ?_⟩
      intro z hz
      rcases List.mem_append.mp hz with hz | hz
      · exact hpost z hz
      · rw [List.mem_singleton.mp hz]
        exact hx

end Machine

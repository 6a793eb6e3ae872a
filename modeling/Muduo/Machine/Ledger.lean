import Mathlib.Tactic

/-!
# Ledgers of resources

A log records which resources are acquired and which are released, among other things. A log is
`Balanced` with the list of resources held if every resource was acquired once, and what was
acquired is what was released together with what is held. Then a resource that is not held has been
released exactly once.
-/

namespace Machine

variable {α ρ : Type*} {acquired released : α → Option ρ} {log : List α} {held : List ρ} {x : α}
  {r : ρ}

structure Balanced (acquired released : α → Option ρ) (log : List α) (held : List ρ) : Prop where
  perm : (log.filterMap acquired).Perm (log.filterMap released ++ held)
  nodup : (log.filterMap acquired).Nodup

namespace Balanced

lemma nil (acquired released : α → Option ρ) : Balanced acquired released [] [] :=
  ⟨List.Perm.refl _, List.nodup_nil⟩

lemma acquire (h : Balanced acquired released log held) (ha : acquired x = some r)
    (hr : released x = none) (hfresh : r ∉ log.filterMap acquired) :
    Balanced acquired released (log ++ [x]) (r :: held) := by
  have hacquired : (log ++ [x]).filterMap acquired = log.filterMap acquired ++ [r] := by
    simp [List.filterMap_append, ha]
  have hreleased : (log ++ [x]).filterMap released = log.filterMap released := by
    simp [List.filterMap_append, hr]
  constructor
  · rw [hacquired, hreleased]
    apply (List.perm_append_singleton r _).trans
    exact (h.perm.cons r).trans List.perm_middle.symm
  · rw [hacquired]
    exact ((List.perm_append_singleton r _).nodup_iff).mpr (List.nodup_cons.mpr ⟨hfresh, h.nodup⟩)

lemma release (h : Balanced acquired released log (r :: held)) (ha : acquired x = none)
    (hr : released x = some r) : Balanced acquired released (log ++ [x]) held := by
  have hacquired : (log ++ [x]).filterMap acquired = log.filterMap acquired := by
    simp [List.filterMap_append, ha]
  have hreleased : (log ++ [x]).filterMap released = log.filterMap released ++ [r] := by
    simp [List.filterMap_append, hr]
  refine ⟨?_, hacquired ▸ h.nodup⟩
  rw [hacquired, hreleased, List.append_assoc]
  exact h.perm

lemma other (h : Balanced acquired released log held) (ha : acquired x = none)
    (hr : released x = none) : Balanced acquired released (log ++ [x]) held := by
  constructor
  · simpa [List.filterMap_append, ha, hr] using h.perm
  · simpa [List.filterMap_append, ha] using h.nodup

/-- Nothing is released that was not acquired. -/
lemma acquired_of_released (h : Balanced acquired released log held)
    (hr : r ∈ log.filterMap released) : r ∈ log.filterMap acquired :=
  h.perm.mem_iff.mpr (List.mem_append_left _ hr)

/-- Every acquired resource is either held or has been released, once. -/
theorem count_eq_one [DecidableEq ρ] (h : Balanced acquired released log held)
    (hr : r ∈ log.filterMap acquired) :
    (log.filterMap released).count r + held.count r = 1 := by
  rw [← List.count_append, ← h.perm.count_eq]
  exact List.count_eq_one_of_mem h.nodup hr

end Balanced
end Machine

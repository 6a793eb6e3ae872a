import Mathlib.Tactic
import Mathlib.Data.List.Perm.Subperm
import Mathlib.Data.Multiset.AddSub

/-!
# Exact covers

Each row of a matrix has a one in some of the columns. An exact cover of a list of columns is a list
of rows that have a one in each of these columns, exactly once altogether, and in no other. An exact
cover that is not empty consists of a row with a one in a given column, and an exact cover of the
columns in which this row has none: this is what a search for exact covers rests on.
-/

namespace Machine

variable {C R : Type*} [DecidableEq C] (cols : R → List C)

def Covers (H : List C) (S : List R) : Prop := (S.flatMap cols).Perm H

variable {cols} {H : List C} {S : List R} {r : R} {c : C}

omit [DecidableEq C] in
lemma covers_nil : Covers cols [] ([] : List R) := List.Perm.refl _

lemma Covers.cons (hnodup : (cols r).Nodup) (hsub : cols r ⊆ H)
    (h : Covers cols (H.diff (cols r)) S) : Covers cols H (r :: S) := by
  have hcount : ∀ x ∈ cols r, (cols r).count x ≤ H.count x := by
    intro x hx
    rw [List.count_eq_one_of_mem hnodup hx]
    exact List.one_le_count_iff.mpr (hsub hx)
  exact (List.Perm.append_left (cols r) h).trans
    (List.subperm_append_diff_self_of_count_le hcount)

/-- Each column is covered by a row of the cover, and the other rows cover the rest. -/
lemma Covers.exists_row [DecidableEq R] (h : Covers cols H S) (hc : c ∈ H) :
    ∃ r ∈ S, c ∈ cols r ∧ cols r ⊆ H ∧ Covers cols (H.diff (cols r)) (S.erase r) := by
  obtain ⟨r, hr, hcr⟩ := List.mem_flatMap.mp (h.mem_iff.mpr hc)
  have hperm : (cols r ++ (S.erase r).flatMap cols).Perm H := by
    have := ((List.perm_cons_erase hr).flatMap_right cols).symm.trans h
    rwa [List.flatMap_cons] at this
  refine ⟨r, hr, hcr, fun x hx => hperm.mem_iff.mp (List.mem_append_left _ hx), ?_⟩
  rw [Covers, ← Multiset.coe_eq_coe, ← Multiset.coe_sub, ← Multiset.coe_eq_coe.mpr hperm,
    ← Multiset.coe_add, add_tsub_cancel_left]

omit [DecidableEq C] in
/-- A column is covered by one row only. -/
lemma Covers.eq_of_mem (h : Covers cols H S) (hH : H.Nodup) {r' : R} (hr : r ∈ S) (hr' : r' ∈ S)
    (hc : c ∈ cols r) (hc' : c ∈ cols r') : r = r' := by
  by_contra hne
  have hsymm : Std.Symm (Function.onFun List.Disjoint cols) := ⟨fun _ _ hdisj => hdisj.symm⟩
  exact (List.nodup_flatMap.mp (h.nodup_iff.mpr hH)).2.forall hr hr' hne hc hc'

omit [DecidableEq C] in
/-- Rows without common columns are a cover of their columns. -/
lemma covers_of_mem_iff (hH : H.Nodup) (hS : S.Nodup) (hcols : ∀ r ∈ S, (cols r).Nodup)
    (hdisj : ∀ r ∈ S, ∀ r' ∈ S, ∀ c ∈ cols r, c ∈ cols r' → r = r')
    (hmem : ∀ c, c ∈ H ↔ ∃ r ∈ S, c ∈ cols r) : Covers cols H S := by
  have hnodup : (S.flatMap cols).Nodup := by
    refine List.nodup_flatMap.mpr ⟨hcols, hS.imp_of_mem ?_⟩
    intro r r' hr hr' hne c hc hc'
    exact hne (hdisj r hr r' hr' c hc hc')
  refine (List.perm_ext_iff_of_nodup hnodup hH).mpr fun c => ?_
  rw [hmem, List.mem_flatMap]

end Machine

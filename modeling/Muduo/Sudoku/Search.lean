import Muduo.Machine.ExactCover
import Muduo.Sudoku.Links

/-!
# The search

`solve` finds an exact cover of the columns that are not covered, if there is one, and writes the
digits of its rows into the cells. If there is none it leaves the matrix as it found it. Which
column `get_min_column` chooses plays no part in this.
-/

namespace Muduo

open Machine Sudoku

namespace SudokuSolver

variable {L : Layout} {H : List ℕ} {V : ℕ → List ℕ} {s : SudokuSolver} {c n : ℕ}

/-! ### The stack -/

lemma Linked.stack (h : Linked L H V s) (st : List ℕ) : Linked L H V { s with stack := st } :=
  ⟨⟨h.col, h.row, h.not_node, h.column, h.mem_column⟩, h.header, h.root, h.active, h.complete,
    h.length_column, h.length_header⟩

lemma covering_stack (s : SudokuSolver) (st : List ℕ) (c : ℕ) (done : List ℕ) :
    covering L { s with stack := st } c done = { covering L s c done with stack := st } := by
  have hhide : ∀ (js : List ℕ) (t : SudokuSolver),
      js.foldl hide { t with stack := st } = { js.foldl hide t with stack := st } := by
    intro js
    induction js with
    | nil => exact fun _ => rfl
    | cons j js ih => exact fun t => ih (t.hide j)
  exact hhide _ (s.unlinkColumn c)

lemma coverNodes_stack (s : SudokuSolver) (st js : List ℕ) :
    coverNodes L V { s with stack := st } js =
      ((coverNodes L V s js).1, { (coverNodes L V s js).2 with stack := st }) := by
  simp only [coverNodes]
  generalize js.map L.col = cs
  induction cs generalizing V s with
  | nil => rfl
  | cons c cs ih =>
    simp only [List.foldl_cons, coverColumn, covering_stack]
    exact ih ..

/-! ### Choosing a column -/

lemma minColumn_mem {rest : List ℕ} {a fuel : ℕ} {m : ℤ}
    (hs : Seg s.right s.left a rest s.root) (hroot : s.root ∉ rest) (hrest : rest ⊆ H)
    (hc : c ∈ H) (hfuel : rest.length < fuel) :
    Yields (s.minColumn fuel c m (s.right a)) (· ∈ H) := by
  induction rest generalizing a fuel c m with
  | nil =>
    obtain ⟨fuel, rfl⟩ := Nat.exists_eq_add_one_of_ne_zero (Nat.ne_zero_of_lt hfuel)
    rw [minColumn, if_pos hs.1]
    exact ⟨c, rfl, hc⟩
  | cons x rest ih =>
    obtain ⟨fuel, rfl⟩ := Nat.exists_eq_add_one_of_ne_zero (Nat.ne_zero_of_lt hfuel)
    rw [List.mem_cons, not_or] at hroot
    obtain ⟨hx, hrest⟩ := List.cons_subset.mp hrest
    have hfuel : rest.length < fuel := by simpa using hfuel
    rw [hs.1.1, minColumn, if_neg (Ne.symm hroot.1)]
    split_ifs
    · exact ⟨x, rfl, hx⟩
    · exact ih hs.2 hroot.2 hrest hx hfuel
    · exact ih hs.2 hroot.2 hrest hc hfuel

lemma Linked.getMinColumn (h : Linked L H V s) (hH : H ≠ []) :
    Yields s.getMinColumn (· ∈ H) := by
  obtain ⟨x, rest, rfl⟩ := List.exists_cons_of_ne_nil hH
  obtain ⟨⟨hx, -⟩, hs⟩ := h.header.seg
  have hroot : s.root ∉ rest := fun hmem =>
    (List.nodup_cons.mp h.header.nodup).1 (List.mem_cons_of_mem x hmem)
  have hfuel : rest.length < rounds := (Nat.lt_succ_self _).trans h.length_header
  rw [SudokuSolver.getMinColumn, hx]
  split_ifs
  · exact minColumn_mem hs hroot (List.subset_cons_self ..) (List.mem_cons_self ..) hfuel
  · exact ⟨x, rfl, List.mem_cons_self ..⟩

/-! ### Reading the solution -/

/-- The names of the nodes of a row say which digit it puts into which cell. -/
structure Labelled (L : Layout) (cell val name : ℕ → ℕ) : Prop where
  cell_eq : ∀ n, L.node n → ∀ m ∈ n :: L.others n, name m < 100 → name m = cell n
  val_eq : ∀ n, L.node n → ∀ m ∈ n :: L.others n, ¬ name m < 100 → name m % 10 = val n
  exists_cell : ∀ n, L.node n → ∃ m ∈ n :: L.others n, name m < 100
  exists_val : ∀ n, L.node n → ∃ m ∈ n :: L.others n, ¬ name m < 100

variable {cell val : ℕ → ℕ}

/-- `l` are the nodes of the row that are still to come. -/
lemma readRow_of_seg {a v h x fuel : ℕ} {l : List ℕ} {oc ov : Option ℕ}
    (hs : ∀ y l', l = y :: l' → x = y ∧ Seg s.right s.left y l' h) (hfuel : l.length < fuel)
    (hcell : ∀ m ∈ l, s.name m < 100 → s.name m = a)
    (hval : ∀ m ∈ l, ¬ s.name m < 100 → s.name m % 10 = v)
    (hoc : oc = some a ∨ oc = none ∧ ∃ m ∈ l, s.name m < 100)
    (hov : ov = some v ∨ ov = none ∧ ∃ m ∈ l, ¬ s.name m < 100) :
    s.readRow fuel x oc ov = .ok (a, v) := by
  induction l generalizing x fuel oc ov with
  | nil =>
    obtain ⟨fuel, rfl⟩ := Nat.exists_eq_add_one_of_ne_zero (Nat.ne_zero_of_lt hfuel)
    simp only [List.not_mem_nil, false_and, exists_false, and_false, or_false] at hoc hov
    rw [hoc, hov]
    rfl
  | cons y l ih =>
    obtain ⟨rfl, hseg⟩ := hs y l rfl
    obtain ⟨fuel, rfl⟩ := Nat.exists_eq_add_one_of_ne_zero (Nat.ne_zero_of_lt hfuel)
    obtain ⟨hcx, hcell⟩ := List.forall_mem_cons.mp hcell
    obtain ⟨hvx, hval⟩ := List.forall_mem_cons.mp hval
    have hnext : ∀ y l', l = y :: l' → s.right x = y ∧ Seg s.right s.left y l' h := by
      rintro y l' rfl
      exact ⟨hseg.1.1, hseg.2⟩
    have hfuel : l.length < fuel := by simpa using hfuel
    by_cases hdone : oc = some a ∧ ov = some v
    · rw [hdone.1, hdone.2]
      rfl
    · have hstep : s.readRow (fuel + 1) x oc ov =
          if s.name x < 100 then s.readRow fuel (s.right x) (some (s.name x)) ov
          else s.readRow fuel (s.right x) oc (some (s.name x % 10)) := by
        rcases hoc with rfl | ⟨rfl, -⟩ <;> rcases hov with rfl | ⟨rfl, -⟩ <;>
          first | rfl | exact absurd ⟨rfl, rfl⟩ hdone
      rw [hstep]
      split_ifs with hx
      · refine ih hnext hfuel hcell hval (.inl (by rw [hcx hx]))
          (hov.imp_right fun hov => ⟨hov.1, ?_⟩)
        simpa [Nat.not_le.mpr hx] using hov.2
      · refine ih hnext hfuel hcell hval (hoc.imp_right fun hoc => ⟨hoc.1, ?_⟩)
          (.inl (by rw [hvx hx]))
        simpa [hx] using hoc.2

/-- The digits of the rows of the nodes in `ns` are written into the board `f`. -/
def fill (cell val : ℕ → ℕ) (ns : List ℕ) (f : ℕ → ℤ) : ℕ → ℤ :=
  ns.foldl (fun f n => Function.update f (cell n) (val n)) f

lemma fillStack (hl : Labelled L cell val s.name)
    (hrow : ∀ n, L.node n → Machine.Ring s.right s.left n (L.others n)) {ns : List ℕ}
    (hns : ∀ n ∈ ns, L.node n) :
    ns.foldlM fillCell s = .ok { s with inout := fill cell val ns s.inout } := by
  induction ns generalizing s with
  | nil => rfl
  | cons n ns ih =>
    obtain ⟨hn, hns⟩ := List.forall_mem_cons.mp hns
    have hread : s.readRow rounds n none none = .ok (cell n, val n) := by
      refine readRow_of_seg (h := n) (l := n :: L.others n) ?_ ?_ (hl.cell_eq n hn) (hl.val_eq n hn)
        (.inr ⟨rfl, hl.exists_cell n hn⟩) (.inr ⟨rfl, hl.exists_val n hn⟩)
      · rintro y l' heq
        cases heq
        exact ⟨rfl, (hrow n hn).seg⟩
      · exact L.length_row hn
    have hfill : s.fillCell n =
        .ok { s with inout := Function.update s.inout (cell n) (val n) } := by
      rw [fillCell, hread]
      rfl
    rw [List.foldlM_cons, hfill, ok_bind]
    exact ih hl hrow hns

/-! ### Backtracking -/

/-- The outcome of a search for rows with the property `P`: their digits are written into the
cells, after those of the rows on the stack, or there are no such rows and nothing has changed. -/
inductive Searched (L : Layout) (cell val : ℕ → ℕ) (P : List ℕ → Prop) (s : SudokuSolver) :
    Bool × SudokuSolver → Prop
  | found (S : List ℕ) (t : SudokuSolver) (hnode : ∀ n ∈ S, L.node n) (hP : P S)
      (hfill : t.inout = fill cell val (s.stack ++ S) s.inout) : Searched L cell val P s (true, t)
  | exhausted (hnone : ∀ S, (∀ n ∈ S, L.node n) → ¬ P S) : Searched L cell val P s (false, s)

/-- The columns of a row are covered and uncovered again. -/
lemma Linked.pushRow (h : Linked L H V s) (hn : L.node n) (hsub : (L.others n).map L.col ⊆ H) :
    ∃ V' u, { s with stack := s.stack ++ [n] }.coverRow n = .ok u ∧
      Linked L (H.diff ((L.others n).map L.col)) V' u ∧
      Relinked { s with stack := s.stack ++ [n] } u ∧
      { u with stack := u.stack.dropLast }.uncoverRow n = .ok s := by
  have hpush := h.stack (s.stack ++ [n])
  refine ⟨_, _, hpush.coverRow_eq hn hsub, hpush.coverNodes hn hsub (List.append_nil _).symm,
    relinked_coverColumns _ (V, _), ?_⟩
  have hundo := h.uncoverRow_eq hn hsub
  obtain ⟨_, _, _, _, _, hu⟩ := relinked_coverColumns (L := L) ((L.others n).map L.col) (V, s)
  have hstack : (SudokuSolver.coverNodes L V s (L.others n)).2.stack = s.stack := by
    rw [SudokuSolver.coverNodes, hu]
  rw [coverNodes_stack]
  simpa [← hstack] using hundo

/-- The row of `n` is in the column `c`, and its other columns are not covered. -/
structure Belongs (L : Layout) (H : List ℕ) (c n : ℕ) : Prop where
  ne : n ≠ c
  node : L.node n
  col_eq : L.col n = c
  subset : (L.others n).map L.col ⊆ H.erase c

lemma Linked.belongs (h : Linked L H V s) (hc : c ∈ H) (hn : n ∈ V c) : Belongs L H c n := by
  obtain ⟨hnode, hcol⟩ := h.mem_column c hc n hn
  refine ⟨fun heq => h.not_node c hc (heq ▸ hnode), hnode, hcol, fun x hx => ?_⟩
  refine (List.mem_erase_of_ne ?_).mpr (h.active c hc n hn (List.mem_cons_of_mem _ hx))
  rintro rfl
  rw [← hcol] at hx
  exact (List.nodup_cons.mp (L.nodup hnode)).1 hx

/-- A row from `rest`, and rows that cover the columns in which it has no node. -/
def StartsIn (L : Layout) (H rest S : List ℕ) : Prop :=
  ∃ n ∈ rest, ∃ S', S = n :: S' ∧ Covers L.cols (H.diff (L.cols n)) S'

/-- There is no cover with the row of `n`, so the search goes on with the next row. -/
lemma Searched.skip {rest : List ℕ} {r : Bool × SudokuSolver}
    (hnone : ∀ S, (∀ m ∈ S, L.node m) → ¬ Covers L.cols (H.diff (L.cols n)) S)
    (h : Searched L cell val (StartsIn L H rest) s r) :
    Searched L cell val (StartsIn L H (n :: rest)) s r := by
  cases h with
  | found S t hnode hP hfill =>
    obtain ⟨m, hm, hS⟩ := hP
    exact .found S t hnode ⟨m, List.mem_cons_of_mem n hm, hS⟩ hfill
  | exhausted hnone' =>
    refine .exhausted fun S hS hstarts => ?_
    obtain ⟨m, hm, S', rfl, hcovers⟩ := hstarts
    rcases List.mem_cons.mp hm with rfl | hm
    · exact hnone S' (List.forall_mem_cons.mp hS).2 hcovers
    · exact hnone' _ hS ⟨m, hm, S', rfl, hcovers⟩

/-- What `solve` does, for the calls that it makes itself. -/
def Solves (L : Layout) (cell val : ℕ → ℕ) (fuel : ℕ) : Prop :=
  ∀ {H V s}, Linked L H V s → Labelled L cell val s.name → (∀ n ∈ s.stack, L.node n) →
    H.length < fuel → Yields (solve fuel s) (Searched L cell val (Covers L.cols H) s)

/-- The rows of the column `c`, which has been covered, that are left to try. -/
lemma tryRows_searched {fuel k a : ℕ} {rest : List ℕ} (ih : Solves L cell val fuel)
    (h : Linked L (H.erase c) V s) (hl : Labelled L cell val s.name)
    (hstack : ∀ n ∈ s.stack, L.node n) (hc : c ∈ H) (hH : H.length ≤ fuel)
    (hrest : ∀ n ∈ rest, Belongs L H c n)
    (hs : Seg s.down s.up a rest c) (hk : rest.length < k) :
    Yields (tryRows (solve fuel) c k s (s.down a)) (Searched L cell val (StartsIn L H rest) s) := by
  induction rest generalizing a k with
  | nil =>
    obtain ⟨k, rfl⟩ := Nat.exists_eq_add_one_of_ne_zero (Nat.ne_zero_of_lt hk)
    rw [tryRows, if_pos hs.1]
    exact ⟨_, rfl, .exhausted fun S _ ⟨n, hn, _⟩ => absurd hn (List.not_mem_nil)⟩
  | cons n rest ihrest =>
    obtain ⟨k, rfl⟩ := Nat.exists_eq_add_one_of_ne_zero (Nat.ne_zero_of_lt hk)
    obtain ⟨⟨hne, hn, hcol, hsub⟩, hrest⟩ := List.forall_mem_cons.mp hrest
    have hdiff : (H.erase c).diff ((L.others n).map L.col) = H.diff (L.cols n) := by
      rw [Layout.cols, List.map_cons, List.diff_cons, hcol]
    obtain ⟨V', u, hcover, hu, hsu, hundo⟩ := h.pushRow hn hsub
    rw [hdiff] at hu
    have hlength : (H.diff (L.cols n)).length < fuel := by
      have herase := List.length_erase_of_mem hc
      have hpos := List.length_pos_of_mem hc
      have hle : (H.diff (L.cols n)).length ≤ (H.erase c).length := by
        rw [← hdiff]
        exact (List.diff_sublist ..).length_le
      omega
    obtain ⟨_, _, _, _, _, hueq⟩ := hsu
    have hlu : Labelled L cell val u.name := by
      rw [hueq]
      exact hl
    have hstacku : ∀ m ∈ u.stack, L.node m := by
      rw [hueq]
      simpa using fun m hm => hm.elim (hstack m) (fun heq => heq ▸ hn)
    rw [hs.1.1, tryRows, if_neg hne, hcover, ok_bind]
    obtain ⟨r, hr, hsearched⟩ := ih hu hlu hstacku hlength
    rw [hr, ok_bind]
    cases hsearched with
    | found S t hnode hP hfill =>
      refine ⟨_, rfl, .found (n :: S) t (List.forall_mem_cons.mpr ⟨hn, hnode⟩)
        ⟨n, List.mem_cons_self .., S, rfl, hP⟩ ?_⟩
      rw [hfill, hueq]
      simp
    | exhausted hnone =>
      -- The call left `u` as it was, so that `s` comes back.
      simp only [Bool.false_eq_true, if_false]
      rw [hundo, ok_bind]
      obtain ⟨r, hr, hsearched⟩ := ihrest hrest hs.2 (by simpa using hk)
      exact ⟨r, hr, hsearched.skip hnone⟩

/-- A cover starts, up to its order, with a row of the column that has been chosen. -/
lemma Linked.startsIn_of_covers (h : Linked L H V s) (hc : c ∈ H) {S : List ℕ}
    (hS : ∀ n ∈ S, L.node n) (hcovers : Covers L.cols H S) :
    ∃ S', (∀ n ∈ S', L.node n) ∧ StartsIn L H (V c) S' := by
  obtain ⟨r, hr, hcr, hsub, hcovers⟩ := hcovers.exists_row hc
  obtain ⟨m, hm, rfl⟩ := List.mem_map.mp hcr
  have hperm : (L.cols m).Perm (L.cols r) ∧ L.node m := by
    rcases List.mem_cons.mp hm with rfl | hm
    · exact ⟨.refl _, hS m hr⟩
    · exact ⟨L.cols_perm (hS r hr) hm, L.node_of_mem (hS r hr) hm⟩
  have hmem := h.complete m hperm.2 fun x hx => hsub (hperm.1.mem_iff.mp hx)
  rw [← hperm.1.diff_left] at hcovers
  refine ⟨m :: S.erase r, List.forall_mem_cons.mpr ⟨hperm.2, fun n hn => ?_⟩,
    m, hmem, S.erase r, rfl, hcovers⟩
  exact hS n (List.mem_of_mem_erase hn)

/-- `solve` decides whether the columns have an exact cover. -/
theorem solves (L : Layout) (cell val : ℕ → ℕ) (fuel : ℕ) : Solves L cell val fuel := by
  -- A call has fewer columns than its caller, which has covered at least one.
  induction fuel with
  | zero => exact fun _ _ _ hfuel => absurd hfuel (Nat.not_lt_zero _)
  | succ fuel ih =>
    intro H V s h hl hstack hfuel
    rw [solve]
    by_cases hH : H = []
    · subst hH
      rw [if_pos (h.header.prev_eq_iff.mpr rfl), fillStack hl h.row hstack, ok_bind]
      exact ⟨_, rfl, .found [] _ (by simp) covers_nil (by simp)⟩
    · obtain ⟨c, hmin, hc⟩ := h.getMinColumn hH
      rw [if_neg (mt h.header.prev_eq_iff.mp hH), hmin, ok_bind, h.cover_eq hc, ok_bind]
      have hcover := h.cover hc
      have hring := h.ring_covering hc (V c).append_nil.symm
      obtain ⟨_, _, _, _, _, heq⟩ := relinked_covering (L := L) s c (V c)
      obtain ⟨r, hr, hsearched⟩ := tryRows_searched ih hcover (by rwa [heq]) (by rwa [heq]) hc
        (Nat.lt_succ_iff.mp hfuel) (fun _ => h.belongs hc) hring.seg (h.length_column c hc)
      rw [hr, ok_bind]
      cases hsearched with
      | found S t hnode hP hfill =>
        obtain ⟨n, hn, S', rfl, hcovers⟩ := hP
        refine ⟨_, rfl, .found (n :: S') t hnode (hcovers.cons ?_ ?_) (by rw [hfill, heq])⟩
        · exact L.nodup (h.node hc hn)
        · exact h.active c hc n hn
      | exhausted hnone =>
        simp only [Bool.false_eq_true, if_false]
        rw [h.uncover_eq hc, ok_bind]
        refine ⟨_, rfl, .exhausted fun S hS hcovers => ?_⟩
        obtain ⟨S', hS', hstarts⟩ := h.startsIn_of_covers hc hS hcovers
        exact hnone S' hS' hstarts

end SudokuSolver
end Muduo

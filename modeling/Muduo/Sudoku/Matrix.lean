import Muduo.Sudoku.Construction

/-!
# The matrix

The constructor and the search together: the solver finds an exact cover of `names` by the rows of
`candidates`, if there is one.
-/

namespace Muduo

open Machine Sudoku

namespace SudokuSolver

variable {s : SudokuSolver} {b i v n : ℕ}

/-! ### The rows -/

/-- The other nodes of the row of a node. -/
def othersOf (s : SudokuSolver) (n : ℕ) : List ℕ :=
  [s.right n, s.right (s.right n), s.right (s.right (s.right n))]

/-- A row can be followed from each of its nodes. -/
lemma Row.rotate (h : Row s b i v) (hn : n ∈ quad b) :
    Machine.Ring s.right s.left n (s.othersOf n) ∧ (n :: s.othersOf n).Perm (quad b) := by
  obtain ⟨⟨h₁, h₁'⟩, ⟨h₂, h₂'⟩, ⟨h₃, h₃'⟩, h₀, h₀'⟩ := h.ring.seg
  simp only [quad, List.mem_cons, List.not_mem_nil, or_false] at hn
  have hperm : (n :: s.othersOf n).Perm (quad b) := by
    rcases hn with rfl | rfl | rfl | rfl <;> simp only [othersOf, quad, h₀, h₁, h₂, h₃]
    exacts [.refl _, List.rotate_perm (quad b) 1, List.rotate_perm (quad b) 2,
      List.rotate_perm (quad b) 3]
  refine ⟨⟨?_, hperm.nodup_iff.mpr ?_⟩, hperm⟩
  · rcases hn with rfl | rfl | rfl | rfl <;> simp [othersOf, h₀, h₀', h₁, h₁', h₂, h₂', h₃, h₃']
  · simp [quad]

/-! ### Names -/

section

variable {board : ℕ → ℤ}

lemma nodup_rowNames (h : (i, v) ∈ candidates board) : (rowNames i v).Nodup := by
  obtain ⟨⟨hi, -⟩, ⟨-, hv⟩, -⟩ := mem_candidates.mp h
  rw [kCells] at hi
  have hrow := Group.row.of_lt hi
  have hcol := Group.col.of_lt hi
  have hbox := Group.box.of_lt hi
  simp only [Group.of] at hrow hcol hbox
  simp [rowNames, getRowCol, getColCol, getBoxCol, kRow, kCol, kBox]
  omega

end

/-! ### The layout of the matrix -/

/-- The rows of the matrix, each with its first node. -/
structure IsMatrix (board : ℕ → ℤ) (H : List ℕ) (rows : List (ℕ × ℕ × ℕ)) (s : SudokuSolver) :
    Prop extends Constructed (names board) H rows s where
  candidates_eq : rows.map Prod.snd = candidates board

variable {board : ℕ → ℤ} {H : List ℕ} {rows : List (ℕ × ℕ × ℕ)} {r : ℕ × ℕ × ℕ}

/-- The nodes of the rows. -/
def nodesOf (rows : List (ℕ × ℕ × ℕ)) : List ℕ := rows.flatMap fun r => quad r.1

lemma mem_nodesOf : n ∈ nodesOf rows ↔ ∃ r ∈ rows, n ∈ quad r.1 := List.mem_flatMap

namespace IsMatrix

lemma mem_candidates (h : IsMatrix board H rows s) (hr : r ∈ rows) : r.2 ∈ candidates board := by
  rw [← h.candidates_eq]
  exact List.mem_map_of_mem hr

lemma col_spec (h : IsMatrix board H rows s) (hn : n ∈ nodesOf rows) :
    s.col n ∈ H ∧ s.name (s.col n) = s.name n :=
  (h.built.columns _ _).mp (h.built.col n hn)

/-- The columns of a row have the names that they should have. -/
lemma names_perm (h : IsMatrix board H rows s) (hr : r ∈ rows) (hn : n ∈ quad r.1) :
    ((n :: s.othersOf n).map s.name).Perm (rowNames r.2.1 r.2.2) := by
  rw [← (h.row r hr).names]
  exact ((h.row r hr).rotate hn).2.map s.name

lemma cols_names (h : IsMatrix board H rows s) (hr : r ∈ rows) (hn : n ∈ quad r.1) :
    (((n :: s.othersOf n).map s.col).map s.name).Perm (rowNames r.2.1 r.2.2) := by
  have hmap : ((n :: s.othersOf n).map s.col).map s.name = (n :: s.othersOf n).map s.name := by
    rw [List.map_map]
    refine List.map_congr_left fun m hm => (h.col_spec (mem_nodesOf.mpr ⟨r, hr, ?_⟩)).2
    exact ((h.row r hr).rotate hn).2.mem_iff.mp hm
  rw [hmap]
  exact h.names_perm hr hn

def layout (h : IsMatrix board H rows s) : Layout where
  node n := n ∈ nodesOf rows
  col := s.col
  others := s.othersOf
  node_of_mem := by
    intro n m hn hm
    obtain ⟨r, hr, hn⟩ := mem_nodesOf.mp hn
    exact mem_nodesOf.mpr
      ⟨r, hr, ((h.row r hr).rotate hn).2.mem_iff.mp (List.mem_cons_of_mem n hm)⟩
  perm := by
    intro n m hn hm
    obtain ⟨r, hr, hn⟩ := mem_nodesOf.mp hn
    have hrotate := ((h.row r hr).rotate hn).2
    have hm : m ∈ quad r.1 := hrotate.mem_iff.mp (List.mem_cons_of_mem n hm)
    exact ((h.row r hr).rotate hm).2.trans hrotate.symm
  not_node_col := fun hn => h.built.not_mem_nodes (h.col_spec hn).1
  nodup := by
    intro n hn
    obtain ⟨r, hr, hn⟩ := mem_nodesOf.mp hn
    exact ((h.cols_names hr hn).nodup_iff.mpr (nodup_rowNames (h.mem_candidates hr))).of_map
  length_row := by
    intro n _
    simp [othersOf, rounds, kMaxNodes]

lemma cols_subset (h : IsMatrix board H rows s) (hn : n ∈ nodesOf rows) : h.layout.cols n ⊆ H := by
  intro x hx
  obtain ⟨m, hm, rfl⟩ := List.mem_map.mp hx
  rcases List.mem_cons.mp hm with rfl | hm
  · exact (h.col_spec hn).1
  · exact (h.col_spec (h.layout.node_of_mem hn hm)).1

lemma length_nodesOf (h : IsMatrix board H rows s) : (nodesOf rows).length < rounds := by
  have hcandidates := length_candidates board
  rw [← h.candidates_eq, List.length_map] at hcandidates
  have hlength : (nodesOf rows).length = rows.length * 4 := by
    simp [nodesOf, quad]
  rw [hlength, rounds, kMaxNodes]
  omega

theorem linked (h : IsMatrix board H rows s) :
    Linked h.layout H (fun c => (nodesOf rows).filter (s.col · = c)) s where
  col := fun _ _ => rfl
  row := by
    intro n hn
    obtain ⟨r, hr, hn⟩ := mem_nodesOf.mp hn
    exact ((h.row r hr).rotate hn).1
  not_node := fun c hc => h.built.not_mem_nodes hc
  column := h.built.column
  mem_column := by
    intro c _ n hn
    exact (List.mem_filter.mp hn).imp_right of_decide_eq_true
  header := h.built.header
  root := by
    have := (List.nodup_cons.mp h.built.nodup).1
    exact fun hmem => this (List.mem_append_right _ hmem)
  active := fun c _ n hn => h.cols_subset (List.mem_of_mem_filter hn)
  complete := by
    intro n hn _
    exact List.mem_filter.mpr ⟨hn, by simp [layout]⟩
  length_column := fun c _ => (List.length_filter_le ..).trans_lt h.length_nodesOf
  length_header := by
    have hnames := length_names board
    rw [← h.built.names, List.length_map] at hnames
    rw [rounds, kMaxNodes]
    omega

/-- The rows that the nodes are in. -/
lemma exists_row (rows : List (ℕ × ℕ × ℕ)) :
    ∃ row : ℕ → ℕ × ℕ × ℕ, ∀ n ∈ nodesOf rows, row n ∈ rows ∧ n ∈ quad (row n).1 := by
  have hrow : ∀ n, ∃ r, n ∈ nodesOf rows → r ∈ rows ∧ n ∈ quad r.1 := by
    intro n
    by_cases hn : n ∈ nodesOf rows
    · obtain ⟨r, hr⟩ := mem_nodesOf.mp hn
      exact ⟨r, fun _ => hr⟩
    · exact ⟨(0, 0, 0), fun hmem => absurd hmem hn⟩
  choose row hrow using hrow
  exact ⟨row, hrow⟩

/-- The cell and the digit of a row are read from its names. -/
theorem labelled (h : IsMatrix board H rows s) {row : ℕ → ℕ × ℕ × ℕ}
    (hrow : ∀ n ∈ nodesOf rows, row n ∈ rows ∧ n ∈ quad (row n).1) :
    Labelled h.layout (fun n => (row n).2.1) (fun n => (row n).2.2) s.name := by
  have hmem : ∀ n ∈ nodesOf rows, ∀ x, (∃ m ∈ n :: s.othersOf n, s.name m = x) ↔
      x = (row n).2.1 ∨ ∃ k : Group, x = k.name (k.of (row n).2.1) (row n).2.2 := by
    intro n hn x
    rw [← mem_rowNames, ← (h.names_perm (hrow n hn).1 (hrow n hn).2).mem_iff, List.mem_map]
  have hrange : ∀ n ∈ nodesOf rows, (row n).2.1 < 81 ∧ (row n).2.2 ≤ 9 := by
    intro n hn
    obtain ⟨⟨hi, -⟩, ⟨-, hv⟩, -⟩ := SudokuSolver.mem_candidates.mp (h.mem_candidates (hrow n hn).1)
    exact ⟨hi, hv⟩
  refine ⟨fun n hn m hm hlt => ?_, fun n hn m hm hle => ?_, fun n hn => ?_, fun n hn => ?_⟩
  · rcases (hmem n hn _).mp ⟨m, hm, rfl⟩ with heq | ⟨k, heq⟩
    · exact heq
    · have := (Group.name_mod (k := k) (u := k.of (row n).2.1) (hrange n hn).2).1
      omega
  · rcases (hmem n hn _).mp ⟨m, hm, rfl⟩ with heq | ⟨k, heq⟩
    · have := (hrange n hn).1
      omega
    · rw [heq]
      exact (Group.name_mod (hrange n hn).2).2
  · obtain ⟨m, hm, heq⟩ := (hmem n hn _).mpr (.inl rfl)
    have := (hrange n hn).1
    exact ⟨m, hm, by omega⟩
  · obtain ⟨m, hm, heq⟩ := (hmem n hn _).mpr (.inr ⟨.row, rfl⟩)
    have := (Group.name_mod (k := .row) (u := Group.row.of (row n).2.1) (hrange n hn).2).1
    exact ⟨m, hm, by omega⟩

/-! ### Covers -/

/-- The cover that consists of the rows of the nodes in `S`. -/
lemma covers_of_nodes (h : IsMatrix board H rows s) {row : ℕ → ℕ × ℕ × ℕ}
    (hrow : ∀ n ∈ nodesOf rows, row n ∈ rows ∧ n ∈ quad (row n).1) {S : List ℕ}
    (hS : ∀ n ∈ S, n ∈ nodesOf rows) (hcovers : Covers h.layout.cols H S) :
    Covers (fun p => rowNames p.1 p.2) (names board) (S.map fun n => (row n).2) := by
  have hmap := hcovers.map s.name
  rw [h.built.names, List.map_flatMap] at hmap
  rw [Covers, List.flatMap_map]
  refine (List.Perm.flatMap_left S fun n hn => ?_).trans hmap
  exact (h.cols_names (hrow n (hS n hn)).1 (hrow n (hS n hn)).2).symm

/-- The cover with the digits in `C`. -/
lemma covers_of_candidates (h : IsMatrix board H rows s) {C : List (ℕ × ℕ)}
    (hC : ∀ p ∈ C, p ∈ candidates board)
    (hcovers : Covers (fun p => rowNames p.1 p.2) (names board) C) :
    ∃ S, (∀ n ∈ S, n ∈ nodesOf rows) ∧ Covers h.layout.cols H S := by
  have hfirst : ∀ p ∈ C, ∃ b, (b, p) ∈ rows := by
    intro p hp
    have hmem := hC p hp
    rw [← h.candidates_eq] at hmem
    obtain ⟨⟨b, p⟩, hr, rfl⟩ := List.mem_map.mp hmem
    exact ⟨b, hr⟩
  choose! first hfirst using hfirst
  have hnode : ∀ p ∈ C, first p ∈ nodesOf rows := fun p hp =>
    mem_nodesOf.mpr ⟨_, hfirst p hp, by simp [quad]⟩
  have hperm : (((C.map first).flatMap h.layout.cols).map s.name).Perm (H.map s.name) := by
    rw [h.built.names, List.map_flatMap, List.flatMap_map]
    refine (List.Perm.flatMap_left C fun p hp => ?_).trans hcovers
    exact h.cols_names (hfirst p hp) (by simp [quad])
  -- A column is known by its name.
  have hback : ∀ l ⊆ H, (l.map s.name).map (fun x => (s.columns x).getD 0) = l := by
    intro l hl
    rw [List.map_map]
    refine (List.map_congr_left fun c hc => ?_).trans (List.map_id l)
    simp [(h.built.columns (s.name c) c).mpr ⟨hl hc, rfl⟩]
  have hsub : (C.map first).flatMap h.layout.cols ⊆ H := by
    intro c hc
    obtain ⟨n, hn, hc⟩ := List.mem_flatMap.mp hc
    obtain ⟨p, hp, rfl⟩ := List.mem_map.mp hn
    exact h.cols_subset (hnode p hp) hc
  refine ⟨C.map first, List.forall_mem_map.mpr hnode, ?_⟩
  have hinv := hperm.map fun x => (s.columns x).getD 0
  rwa [hback _ hsub, hback H (List.Subset.refl H)] at hinv

end IsMatrix

/-- The digits in `C` are written into the cells. -/
def fillCells (C : List (ℕ × ℕ)) (f : ℕ → ℤ) : ℕ → ℤ :=
  C.foldl (fun f p => Function.update f p.1 p.2) f

/-- The rows for the digits in `C` are an exact cover of the columns. -/
def IsCover (board : ℕ → ℤ) (C : List (ℕ × ℕ)) : Prop :=
  (∀ p ∈ C, p ∈ candidates board) ∧ Covers (fun p => rowNames p.1 p.2) (names board) C

theorem construct_solve (board : ℕ → ℤ) :
    Yields (construct board >>= solve rounds) fun r =>
      (∃ C, IsCover board C ∧ r.1 = true ∧ r.2.inout = fillCells C board) ∨
        (r.1 = false ∧ ∀ C, ¬ IsCover board C) := by
  obtain ⟨s, hs, ⟨H, rows, hrows, hconstructed⟩, hstack, hinout⟩ := construct_constructed board
  have h : IsMatrix board H rows s := ⟨hconstructed, hrows⟩
  obtain ⟨row, hrow⟩ := IsMatrix.exists_row rows
  obtain ⟨r, hr, hsearched⟩ := solves _ _ _ rounds h.linked (h.labelled hrow) (by simp [hstack])
    h.linked.length_header
  rw [hs, ok_bind]
  refine ⟨r, hr, ?_⟩
  cases hsearched with
  | found S t hnode hP hfill =>
    refine .inl ⟨_, ⟨fun p hp => ?_, h.covers_of_nodes hrow hnode hP⟩, rfl, ?_⟩
    · obtain ⟨n, hn, rfl⟩ := List.mem_map.mp hp
      exact h.mem_candidates (hrow n (hnode n hn)).1
    · rw [hfill, hstack, hinout, fillCells, List.foldl_map]
      rfl
  | exhausted hnone =>
    refine .inr ⟨rfl, fun C hC => ?_⟩
    obtain ⟨S, hS, hcovers⟩ := h.covers_of_candidates hC.1 hC.2
    exact hnone S hS hcovers

end SudokuSolver
end Muduo

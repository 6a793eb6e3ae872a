import Muduo.Sudoku.Matrix

/-!
# Grids

A completed grid is a digit for each cell such that each row, each column and each box contains each
of the digits from 1 to 9 once. The exact covers of the matrix are the completed grids that agree
with the digits on the board. If two digits on the board are in conflict, the group that they are in
has a digit too few, and there is no cover.
-/

namespace Muduo

open Machine Sudoku

namespace SudokuSolver

/-! ### Groups of cells -/

/-- The cells of a group. -/
def Group.cell : Group → ℕ → ℕ → ℕ
  | .row, u, j => 9 * u + j
  | .col, u, j => 9 * j + u
  | .box, u, j => 9 * (u / 3 * 3 + j / 3) + (u % 3 * 3 + j % 3)

/-- Each row, each column and each box contains each of the digits from 1 to 9 once. -/
def Completed (g : ℕ → ℕ) : Prop :=
  ∀ (k : Group), ∀ u < 9, ((List.range 9).map fun j => g (k.cell u j)).Perm (List.range' 1 9)

variable {i j u v : ℕ} {k : Group}

lemma Group.cell_spec (hu : u < 9) (hj : j < 9) : k.cell u j < kCells ∧ k.of (k.cell u j) = u := by
  rw [kCells]
  cases k <;> simp only [Group.cell, Group.of, rowOf, colOf, boxOf] <;> omega

lemma Group.exists_cell (hi : i < kCells) : ∃ j < 9, k.cell (k.of i) j = i := by
  rw [kCells] at hi
  cases k <;> simp only [Group.cell, Group.of, rowOf, colOf, boxOf]
  · exact ⟨i % 9, by omega, by omega⟩
  · exact ⟨i / 9, by omega, by omega⟩
  · exact ⟨i / 9 % 3 * 3 + i % 3, by omega, by omega⟩

namespace Completed

variable {g : ℕ → ℕ}

lemma exists_cell (h : Completed g) (k : Group) (hu : u < 9) (hv : 1 ≤ v ∧ v ≤ 9) :
    ∃ i < kCells, k.of i = u ∧ g i = v := by
  have hmem : v ∈ List.range' 1 9 := by
    simp
    omega
  obtain ⟨j, hj, rfl⟩ := List.mem_map.mp ((h k u hu).mem_iff.mpr hmem)
  have hcell := Group.cell_spec (k := k) hu (List.mem_range.mp hj)
  exact ⟨_, hcell.1, hcell.2, rfl⟩

lemma digit (h : Completed g) (hi : i < kCells) : 1 ≤ g i ∧ g i ≤ 9 := by
  obtain ⟨j, hj, hcell⟩ := Group.exists_cell (k := .row) hi
  have hmem := (h .row _ (Group.row.of_lt hi)).mem_iff.mp
    (List.mem_map.mpr ⟨j, List.mem_range.mpr hj, rfl⟩)
  rw [hcell] at hmem
  simp at hmem
  omega

/-- A digit is in one cell of a group only. -/
lemma eq_of_digit_eq (h : Completed g) (k : Group) (hi : i < kCells) (hj : j < kCells)
    (hof : k.of i = k.of j) (heq : g i = g j) : i = j := by
  obtain ⟨a, ha, hcell⟩ := Group.exists_cell (k := k) hi
  obtain ⟨b, hb, hcell'⟩ := Group.exists_cell (k := k) hj
  rw [← hof] at hcell'
  have hnodup := (h k _ (k.of_lt hi)).nodup_iff.mpr List.nodup_range'
  have hab := List.inj_on_of_nodup_map hnodup (List.mem_range.mpr ha) (List.mem_range.mpr hb)
    (by rw [hcell, hcell', heq])
  rw [← hcell, ← hcell', hab]

end Completed

/-- It is enough that no digit is missing: a group has no more than nine cells. -/
lemma completed_of_exists {g : ℕ → ℕ} (h : ∀ (k : Group), ∀ u < 9, ∀ v, 1 ≤ v ∧ v ≤ 9 →
    ∃ i < kCells, k.of i = u ∧ g i = v) : Completed g := by
  intro k u hu
  have hsub : List.range' 1 9 ⊆ (List.range 9).map fun j => g (k.cell u j) := by
    intro v hv
    simp at hv
    obtain ⟨i, hi, rfl, rfl⟩ := h k u hu v (by omega)
    obtain ⟨j, hj, hcell⟩ := Group.exists_cell (k := k) hi
    exact List.mem_map.mpr ⟨j, List.mem_range.mpr hj, by rw [hcell]⟩
  have hnodup : (List.range' 1 9).Nodup := List.nodup_range'
  exact ((hnodup.subperm hsub).perm_of_length_le (by simp)).symm

/-! ### The digits on the board -/

variable {board : ℕ → ℤ}

lemma Group.seen_mark (b : Seen) (i u v : ℕ) : k.seen (b.mark board i) u v = true ↔
    k.seen b u v = true ∨ k.of i = u ∧ (board i).toNat = v := by
  have hset : ∀ (a : ℕ → ℕ → Bool) (i j : ℕ), setTrue a i j u v = true ↔
      a u v = true ∨ i = u ∧ j = v := by
    intro a i j
    rw [setTrue]
    by_cases hi : u = i
    · subst hi
      by_cases hj : v = j
      · subst hj
        simp
      · simp [hj, Ne.symm hj]
    · simp [hi, Ne.symm hi]
  cases k <;> exact hset ..

lemma Group.seen_iff : k.seen (SudokuSolver.seen board) u v = true ↔
    ∃ i < kCells, k.of i = u ∧ (board i).toNat = v := by
  have hfold : ∀ (l : List ℕ) (b : Seen), k.seen (l.foldl (Seen.mark board) b) u v = true ↔
      k.seen b u v = true ∨ ∃ i ∈ l, k.of i = u ∧ (board i).toNat = v := by
    intro l
    induction l with
    | nil => simp
    | cons i l ih =>
      intro b
      rw [List.foldl_cons, ih, Group.seen_mark]
      simp [or_assoc]
  rw [SudokuSolver.seen, hfold]
  cases k <;> simp [Group.seen]

/-! ### Covers and grids -/

variable {C : List (ℕ × ℕ)} {p : ℕ × ℕ} {f : ℕ → ℤ}

lemma fillCells_of_forall_ne (h : ∀ p ∈ C, p.1 ≠ i) : fillCells C f i = f i := by
  induction C generalizing f with
  | nil => rfl
  | cons q C ih =>
    obtain ⟨hq, hC⟩ := List.forall_mem_cons.mp h
    exact (ih hC).trans (Function.update_of_ne hq.symm ..)

lemma fillCells_of_mem (hp : p ∈ C) (h : ∀ q ∈ C, q.1 = p.1 → q = p) :
    fillCells C f p.1 = p.2 := by
  induction C generalizing f with
  | nil => exact absurd hp List.not_mem_nil
  | cons q C ih =>
    obtain ⟨hq, hC⟩ := List.forall_mem_cons.mp h
    by_cases hmem : p ∈ C
    · exact ih hmem hC
    · -- No later digit is written into the same cell.
      have hne : ∀ r ∈ C, r.1 ≠ p.1 := fun r hr heq => hmem (hC r hr heq ▸ hr)
      obtain rfl : p = q := (List.mem_cons.mp hp).resolve_right hmem
      exact (fillCells_of_forall_ne hne).trans (Function.update_self ..)

namespace IsCover

lemma fillCells_eq (h : IsCover board C) (hp : p ∈ C) : fillCells C board p.1 = p.2 := by
  refine fillCells_of_mem hp fun q hq heq => ?_
  exact h.2.eq_of_mem nodup_names hq hp (mem_rowNames.mpr (.inl rfl))
    (mem_rowNames.mpr (.inl heq))

/-- The digits on the board stay. -/
lemma fillCells_of_ne_zero (h : IsCover board C) (hi : board i ≠ 0) :
    fillCells C board i = board i := by
  refine fillCells_of_forall_ne fun p hp => ?_
  rintro rfl
  exact hi (mem_candidates.mp (h.1 p hp)).1.2

theorem completed (h : IsCover board C) : Completed fun i => (fillCells C board i).toNat := by
  refine completed_of_exists fun k u hu v hv => ?_
  by_cases hseen : k.seen (seen board) u v = true
  · obtain ⟨i, hi, hof, hval⟩ := Group.seen_iff.mp hseen
    have hne : board i ≠ 0 := by
      intro heq
      rw [heq] at hval
      simp at hval
      omega
    exact ⟨i, hi, hof, by rw [h.fillCells_of_ne_zero hne, hval]⟩
  · have hmem : k.name u v ∈ names board :=
      mem_names.mpr (.inr ⟨k, u, v, hu, hv.1, hv.2, by simpa using hseen, rfl⟩)
    obtain ⟨p, hp, hname⟩ := List.mem_flatMap.mp (h.2.mem_iff.mpr hmem)
    obtain ⟨⟨hi, -⟩, ⟨-, hle⟩, -⟩ := mem_candidates.mp (h.1 p hp)
    refine ⟨p.1, hi, ?_⟩
    rcases mem_rowNames.mp hname with heq | ⟨k', heq⟩
    · have := (Group.name_mod (k := k) (u := u) hv.2).1
      rw [kCells] at hi
      omega
    · obtain ⟨rfl, rfl, rfl⟩ := Group.name_inj hu hv.2 hle (k'.of_lt hi) heq
      rw [h.fillCells_eq hp]
      exact ⟨rfl, Int.toNat_natCast _⟩

end IsCover

namespace Completed

variable {g : ℕ → ℕ}

/-- A digit of the grid is on the board, in its group, only if it is in a cell that is not empty. -/
lemma seen_eq_false_iff (h : Completed g) (hboard : ∀ i < kCells, board i ≠ 0 → board i = g i)
    (k : Group) (hi : i < kCells) :
    k.seen (seen board) (k.of i) (g i) = false ↔ board i = 0 := by
  have hdigit := h.digit hi
  rw [← not_iff_not, Bool.not_eq_false, Group.seen_iff]
  constructor
  · rintro ⟨j, hj, hof, hval⟩
    have hne : board j ≠ 0 := by
      intro heq
      rw [heq] at hval
      simp at hval
      omega
    have heq : g j = g i := by
      rw [hboard j hj hne] at hval
      simpa using hval
    rwa [← h.eq_of_digit_eq k hj hi hof heq]
  · intro hne
    exact ⟨i, hi, rfl, by rw [hboard i hi hne, Int.toNat_natCast]⟩

/-- The digits of two cells have no column in common. -/
lemma eq_of_mem_rowNames (h : Completed g) {n : ℕ} (hi : i < kCells) (hj : j < kCells)
    (hn : n ∈ rowNames i (g i)) (hn' : n ∈ rowNames j (g j)) : i = j := by
  have hname : ∀ (k : Group) (u : ℕ) {j}, j < kCells → kCells < k.name u (g j) := by
    intro k u j hj
    have hle := (Group.name_mod (k := k) (u := u) (h.digit hj).2).1
    rw [kCells]
    omega
  rcases mem_rowNames.mp hn with rfl | ⟨k, rfl⟩ <;>
    rcases mem_rowNames.mp hn' with heq | ⟨k', heq⟩
  · exact heq
  · have := hname k' (k'.of j) hj
    omega
  · have := hname k (k.of i) hi
    omega
  · obtain ⟨rfl, hof, hdigit⟩ := Group.name_inj (k.of_lt hi) (h.digit hi).2 (h.digit hj).2
      (k'.of_lt hj) heq
    exact h.eq_of_digit_eq k hi hj hof hdigit

/-- The digits of a completed grid for the empty cells are a cover. -/
theorem isCover (h : Completed g) (hboard : ∀ i < kCells, board i ≠ 0 → board i = g i) :
    IsCover board ((cells board).map fun i => (i, g i)) := by
  have hcandidates : ∀ i ∈ cells board, (i, g i) ∈ candidates board := by
    intro i hi
    have hi := mem_cells.mp hi
    exact mem_candidates.mpr
      ⟨hi, h.digit hi.1, fun k => (h.seen_eq_false_iff hboard k hi.1).mpr hi.2⟩
  refine ⟨List.forall_mem_map.mpr hcandidates, covers_of_mem_iff nodup_names ?_ ?_ ?_ ?_⟩
  · exact (List.nodup_range.filter _).map fun i j heq => congrArg Prod.fst heq
  · exact List.forall_mem_map.mpr fun i hi => nodup_rowNames (hcandidates i hi)
  · refine List.forall_mem_map.mpr fun i hi => List.forall_mem_map.mpr fun j hj n hn hn' => ?_
    rw [h.eq_of_mem_rowNames (mem_cells.mp hi).1 (mem_cells.mp hj).1 hn hn']
  · intro n
    simp only [mem_names, List.mem_map, exists_exists_and_eq_and]
    constructor
    · rintro (hn | ⟨k, u, v, hu, hv, hv', hseen, rfl⟩)
      · exact ⟨n, mem_cells.mpr hn, mem_rowNames.mpr (.inl rfl)⟩
      · -- The cell that has this digit in the grid is empty, as the digit is not on the board.
        obtain ⟨i, hi, rfl, rfl⟩ := h.exists_cell k hu ⟨hv, hv'⟩
        exact ⟨i, mem_cells.mpr ⟨hi, (h.seen_eq_false_iff hboard k hi).mp hseen⟩,
          mem_rowNames.mpr (.inr ⟨k, rfl⟩)⟩
    · rintro ⟨i, hi, hn⟩
      exact mem_names.mp (rowNames_subset (hcandidates i hi) hn)

end Completed

end SudokuSolver

/-! ### Puzzles -/

open SudokuSolver

/-- The character of a digit. -/
def digitChar (d : ℕ) : UInt8 := UInt8.ofNat (48 + d)

def IsDigit (b : UInt8) : Prop := 48 ≤ b.toNat ∧ b.toNat ≤ 57

/-- `g` is a completed grid that agrees with the characters of `puzzle` that are not zero. -/
def IsSolution (puzzle : List UInt8) (g : ℕ → ℕ) : Prop :=
  Completed g ∧ ∀ i < kCells, puzzle.getD i 0 ≠ digitChar 0 → puzzle.getD i 0 = digitChar (g i)

/-- The text of a grid. -/
def gridText (g : ℕ → ℕ) : List UInt8 := (List.range kCells).map fun i => digitChar (g i)

/-- Two cells of a row, a column or a box have the same digit. -/
def Conflict (puzzle : List UInt8) : Prop :=
  ∃ i < kCells, ∃ j < kCells, i ≠ j ∧ (∃ k : Group, k.of i = k.of j) ∧
    puzzle.getD i 0 = puzzle.getD j 0 ∧ puzzle.getD i 0 ≠ digitChar 0

lemma toNat_digitChar {d : ℕ} (hd : d ≤ 9) : (digitChar d).toNat = 48 + d := by
  rw [digitChar, UInt8.toNat_ofNat']
  omega

lemma bmod_char {n : ℕ} (hn : n < 256) : Int.bmod n 256 = if n < 128 then (n : ℤ) else n - 256 := by
  rw [Int.bmod_def]
  split <;> split <;> omega

lemma charValue_eq (b : UInt8) :
    charValue b = if b.toNat < 128 then (b.toNat : ℤ) else b.toNat - 256 :=
  bmod_char b.toNat_lt

lemma charValue_digit {b : UInt8} : (0 ≤ charValue b - 48 ∧ charValue b - 48 ≤ 9) ↔ IsDigit b := by
  have hb : b.toNat < 256 := b.toNat_lt
  rw [charValue_eq, IsDigit]
  split <;> omega

lemma charValue_of_isDigit {b : UInt8} (hb : IsDigit b) : charValue b = b.toNat := by
  have hle := hb.2
  rw [charValue_eq, if_pos (by omega)]

theorem IsSolution.not_conflict {puzzle : List UInt8} {g : ℕ → ℕ} (h : IsSolution puzzle g) :
    ¬ Conflict puzzle := by
  rintro ⟨i, hi, j, hj, hne, ⟨k, hof⟩, heq, hzero⟩
  refine hne (h.1.eq_of_digit_eq k hi hj hof ?_)
  have hgi := h.2 i hi hzero
  have hgj := h.2 j hj (heq ▸ hzero)
  have hchar : (digitChar (g i)).toNat = (digitChar (g j)).toNat := by rw [← hgi, ← hgj, heq]
  rw [toNat_digitChar (h.1.digit hi).2, toNat_digitChar (h.1.digit hj).2] at hchar
  omega

/-- The board that `solveSudoku` reads from a puzzle. -/
def boardOf (puzzle : List UInt8) : ℕ → ℤ := fun i => charValue (puzzle.getD i 0) - 48

section

variable {puzzle : List UInt8} {g : ℕ → ℕ} {C : List (ℕ × ℕ)}

lemma forall_isDigit (hsize : puzzle.length = kCells) :
    (∀ b ∈ puzzle, IsDigit b) ↔ ∀ i < kCells, IsDigit (puzzle.getD i 0) := by
  rw [List.forall_mem_iff_getElem, ← hsize]
  refine forall₂_congr fun i hi => ?_
  simp [List.getD_eq_getElem?_getD, hi]

lemma IsSolution.boardOf_eq (h : IsSolution puzzle g)
    (hdigit : ∀ i < kCells, IsDigit (puzzle.getD i 0)) {i : ℕ} (hi : i < kCells)
    (hne : boardOf puzzle i ≠ 0) : boardOf puzzle i = g i := by
  rw [boardOf, charValue_of_isDigit (hdigit i hi)] at hne ⊢
  have hchar : puzzle.getD i 0 ≠ digitChar 0 := by
    intro heq
    rw [heq, toNat_digitChar (by omega)] at hne
    simp at hne
  rw [h.2 i hi hchar, toNat_digitChar (h.1.digit hi).2]
  omega

lemma SudokuSolver.IsCover.isSolution (h : IsCover (boardOf puzzle) C)
    (hdigit : ∀ i < kCells, IsDigit (puzzle.getD i 0)) :
    IsSolution puzzle fun i => (fillCells C (boardOf puzzle) i).toNat := by
  refine ⟨h.completed, fun i hi hne => UInt8.toNat_inj.mp ?_⟩
  have hrange := hdigit i hi
  have hvalue : boardOf puzzle i = (puzzle.getD i 0).toNat - 48 := by
    rw [boardOf, charValue_of_isDigit hrange]
  have hboard : boardOf puzzle i ≠ 0 := by
    intro heq
    refine hne (UInt8.toNat_inj.mp ?_)
    rw [toNat_digitChar (by omega)]
    omega
  have hlow := hrange.1
  have hhigh := hrange.2
  dsimp only
  rw [h.fillCells_of_ne_zero hboard, hvalue, toNat_digitChar (by omega)]
  omega

end

/-- The two results of `solveSudoku`. -/
lemma solveSudoku_cases (puzzle : List UInt8) (hsize : puzzle.length = kCells) :
    Yields (solveSudoku puzzle) fun result =>
      ((∀ b ∈ puzzle, IsDigit b) ∧ ∃ g, IsSolution puzzle g ∧ result = gridText g) ∨
        ¬ ((∀ b ∈ puzzle, IsDigit b) ∧ ∃ g, IsSolution puzzle g) ∧ result = kNoSolution := by
  rw [solveSudoku, check_of hsize, ok_bind, forall_isDigit hsize]
  by_cases hdigit : ∀ i < kCells, IsDigit (puzzle.getD i 0)
  · obtain ⟨⟨found, t⟩, hr, hcases⟩ := construct_solve (boardOf puzzle)
    obtain ⟨s, hs, hr⟩ := bind_eq_ok.mp hr
    have hconstruct : construct (fun i => charValue (puzzle.getD i 0) - 48) = .ok s := hs
    dsimp only at hcases ⊢
    rw [if_pos fun i hi => charValue_digit.mpr (hdigit i hi), hconstruct, ok_bind, hr, ok_bind]
    rcases hcases with ⟨C, hC, rfl, hinout⟩ | ⟨rfl, hno⟩
    · have hsolution := hC.isSolution hdigit
      refine ⟨_, rfl, .inl ⟨hdigit, _, hsolution, List.map_congr_left fun i hi => ?_⟩⟩
      have hpos := (hsolution.1.digit (List.mem_range.mp hi)).1
      have hval : (t.inout i + 48).toNat = 48 + (t.inout i).toNat := by
        rw [← hinout] at hpos
        omega
      rw [digitChar, hval, hinout]
    · refine ⟨_, rfl, .inr ⟨fun ⟨_, g, hg⟩ => ?_, rfl⟩⟩
      exact hno _ (hg.1.isCover fun i hi => hg.boardOf_eq hdigit hi)
  · refine ⟨kNoSolution, ?_, .inr ⟨fun h => hdigit h.1, rfl⟩⟩
    rw [if_neg fun h => hdigit fun i hi => charValue_digit.mp (h i hi)]
    rfl

/-- `solveSudoku` terminates. If there is a completed grid that agrees with the puzzle, it returns
such a grid, and otherwise that there is no solution. -/
theorem solveSudoku_correct (puzzle : List UInt8) (hsize : puzzle.length = kCells) :
    Yields (solveSudoku puzzle) fun result =>
      ((∀ b ∈ puzzle, IsDigit b) ∧ (∃ g, IsSolution puzzle g) →
        ∃ g, IsSolution puzzle g ∧ result = gridText g) ∧
      (¬ ((∀ b ∈ puzzle, IsDigit b) ∧ ∃ g, IsSolution puzzle g) → result = kNoSolution) ∧
      (Conflict puzzle → result = kNoSolution) := by
  obtain ⟨result, hresult, ⟨hdigit, g, hg, htext⟩ | ⟨hno, hnone⟩⟩ := solveSudoku_cases puzzle hsize
  · exact ⟨result, hresult, fun _ => ⟨g, hg, htext⟩, fun hno => absurd ⟨hdigit, g, hg⟩ hno,
      fun hconflict => absurd hconflict hg.not_conflict⟩
  · exact ⟨result, hresult, fun hyes => absurd hyes hno, fun _ => hnone, fun _ => hnone⟩

/-- A completed grid: each row is the one above it, moved on. -/
def shifted (i : ℕ) : ℕ := (3 * (i / 9 % 3) + i / 9 / 3 + i % 9) % 9 + 1

lemma completed_shifted : Completed shifted := by
  intro k
  cases k <;> decide

theorem solveSudoku_zeros :
    Yields (solveSudoku (List.replicate kCells (digitChar 0))) (fun result =>
      ∃ g, IsSolution (List.replicate kCells (digitChar 0)) g ∧ result = gridText g) ∧
    Yields (solveSudoku (List.replicate kCells (digitChar 5))) (· = kNoSolution) := by
  constructor
  · obtain ⟨result, hresult, hsolved, -⟩ :=
      solveSudoku_correct (List.replicate kCells (digitChar 0)) (List.length_replicate ..)
    have hdigit : IsDigit (digitChar 0) := by simp [IsDigit, toNat_digitChar]
    refine ⟨result, hresult, hsolved ⟨fun b hb => ?_, shifted, completed_shifted, ?_⟩⟩
    · rwa [List.eq_of_mem_replicate hb]
    · intro i hi hne
      exact absurd (by simp [List.getD_eq_getElem?_getD, hi]) hne
  · obtain ⟨result, hresult, -, -, hconflict⟩ :=
      solveSudoku_correct (List.replicate kCells (digitChar 5)) (List.length_replicate ..)
    exact ⟨result, hresult, hconflict ⟨0, by decide, 1, by decide, by decide, ⟨.row, rfl⟩, rfl,
      by decide⟩⟩

end Muduo

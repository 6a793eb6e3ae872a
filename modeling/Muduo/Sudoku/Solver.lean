import Muduo.Base.Code
import Muduo.Machine.Ring
import Muduo.Machine.Text

/-!
# The Sudoku solver

`sudoku/sudoku.cc`: the puzzle is made into a matrix with a column for each condition that is still
open and a row for each digit that can still be put into a cell, and the solver looks for an exact
cover of the columns. The matrix is held in nodes that are linked to their neighbours in all four
directions. A pointer to a node is its index in `nodes_`, and the fields of the nodes are functions
of it.
-/

namespace Muduo

open Machine

namespace Sudoku

def kCells : ℕ := 81

def kMaxNodes : ℕ := 1 + 81 * 4 + 9 * 9 * 9 * 4

def kRow : ℕ := 100

def kCol : ℕ := 200

def kBox : ℕ := 300

def kNoSolution : List UInt8 := ascii "NoSolution"

/-- More rounds than any loop of the solver makes. -/
def rounds : ℕ := kMaxNodes + 1

end Sudoku

open Sudoku

structure SudokuSolver where
  root : ℕ
  inout : ℕ → ℤ
  /-- `none` is `NULL`. -/
  columns : ℕ → Option ℕ
  stack : List ℕ
  curNode : ℕ
  left : ℕ → ℕ
  right : ℕ → ℕ
  up : ℕ → ℕ
  down : ℕ → ℕ
  col : ℕ → ℕ
  name : ℕ → ℕ
  size : ℕ → ℤ

namespace SudokuSolver

/-! ### Nodes -/

def newColumn (s : SudokuSolver) (n : ℕ) : Code (ℕ × SudokuSolver) := do
  check .nodesExhausted (s.curNode < kMaxNodes)
  let c := s.curNode
  return (c, { s with
    curNode := c + 1
    left := Function.update s.left c c
    right := Function.update s.right c c
    up := Function.update s.up c c
    down := Function.update s.down c c
    col := Function.update s.col c c
    name := Function.update s.name c n
    size := Function.update s.size c 0 })

def putLeft (s : SudokuSolver) (old nnew : ℕ) : SudokuSolver :=
  let s := { s with left := Function.update s.left nnew (s.left old) }
  let s := { s with right := Function.update s.right nnew old }
  let s := { s with right := Function.update s.right (s.left old) nnew }
  { s with left := Function.update s.left old nnew }

def putUp (s : SudokuSolver) (old nnew : ℕ) : SudokuSolver :=
  let s := { s with up := Function.update s.up nnew (s.up old) }
  let s := { s with down := Function.update s.down nnew old }
  let s := { s with down := Function.update s.down (s.up old) nnew }
  let s := { s with up := Function.update s.up old nnew }
  { s with
    size := Function.update s.size old (s.size old + 1)
    col := Function.update s.col nnew old }

def appendColumn (s : SudokuSolver) (n : ℕ) : Code SudokuSolver := do
  check .columnAppended (s.columns n = none)
  let (c, s) ← s.newColumn n
  let s := s.putLeft s.root c
  return { s with columns := Function.update s.columns n (some c) }

def newRow (s : SudokuSolver) (col : ℕ) : Code (ℕ × SudokuSolver) :=
  match s.columns col with
  | none => .error (.failed .columnMissing)
  | some c => do
    check .nodesExhausted (s.curNode < kMaxNodes)
    let r := s.curNode
    let s := { s with
      curNode := r + 1
      left := Function.update s.left r r
      right := Function.update s.right r r
      up := Function.update s.up r r
      down := Function.update s.down r r
      col := Function.update s.col r c
      name := Function.update s.name r col
      size := Function.update s.size r 0 }
    return (r, s.putUp c r)

/-! ### The constructor -/

def getRowCol (row val : ℕ) : ℕ := kRow + row * 10 + val

def getColCol (col val : ℕ) : ℕ := kCol + col * 10 + val

def getBoxCol (box val : ℕ) : ℕ := kBox + box * 10 + val

def rowOf (i : ℕ) : ℕ := i / 9

def colOf (i : ℕ) : ℕ := i % 9

def boxOf (i : ℕ) : ℕ := i / 9 / 3 * 3 + i % 9 / 3

/-- The arrays `rows`, `cols` and `boxes`. -/
structure Seen where
  rows : ℕ → ℕ → Bool
  cols : ℕ → ℕ → Bool
  boxes : ℕ → ℕ → Bool

/-- `a[i][j] = true`. -/
def setTrue (a : ℕ → ℕ → Bool) (i j : ℕ) : ℕ → ℕ → Bool :=
  Function.update a i (Function.update (a i) j true)

def Seen.mark (board : ℕ → ℤ) (seen : Seen) (i : ℕ) : Seen :=
  let val := (board i).toNat
  { rows := setTrue seen.rows (rowOf i) val
    cols := setTrue seen.cols (colOf i) val
    boxes := setTrue seen.boxes (boxOf i) val }

def seen (board : ℕ → ℤ) : Seen :=
  (List.range kCells).foldl (Seen.mark board)
    { rows := fun _ _ => false, cols := fun _ _ => false, boxes := fun _ _ => false }

/-- A column for a condition that is not yet met. -/
def appendUnless (s : SudokuSolver) (met : Bool) (n : ℕ) : Code SudokuSolver :=
  if met then return s else s.appendColumn n

/-- The three columns for the digit `v` in the row, the column and the box `i`. -/
def appendUnits (seen : Seen) (i : ℕ) (s : SudokuSolver) (v : ℕ) : Code SudokuSolver := do
  let s ← s.appendUnless (seen.rows i v) (getRowCol i v)
  let s ← s.appendUnless (seen.cols i v) (getColCol i v)
  s.appendUnless (seen.boxes i v) (getBoxCol i v)

/-- The row of the matrix for the digit `v` in the cell `i`. -/
def appendRow (s : SudokuSolver) (i v : ℕ) : Code SudokuSolver := do
  let (n0, s) ← s.newRow i
  let (nr, s) ← s.newRow (getRowCol (rowOf i) v)
  let (nc, s) ← s.newRow (getColCol (colOf i) v)
  let (nb, s) ← s.newRow (getBoxCol (boxOf i) v)
  let s := s.putLeft n0 nr
  let s := s.putLeft n0 nc
  return s.putLeft n0 nb

def appendRowUnless (seen : Seen) (i : ℕ) (s : SudokuSolver) (v : ℕ) : Code SudokuSolver :=
  if seen.rows (rowOf i) v || seen.cols (colOf i) v || seen.boxes (boxOf i) v then return s
  else s.appendRow i v

/-- An object whose members are not yet initialised. -/
def blank (board : ℕ → ℤ) : SudokuSolver where
  root := 0
  inout := board
  columns _ := none
  stack := []
  curNode := 0
  left _ := 0
  right _ := 0
  up _ := 0
  down _ := 0
  col _ := 0
  name _ := 0
  size _ := 0

def appendColumns (s : SudokuSolver) (board : ℕ → ℤ) : Code SudokuSolver := do
  let s ← (List.range kCells).foldlM (fun s i => s.appendUnless (board i ≠ 0) i) s
  (List.range 9).foldlM (fun s i => (List.range' 1 9).foldlM (appendUnits (seen board) i) s) s

def appendRows (s : SudokuSolver) (board : ℕ → ℤ) : Code SudokuSolver :=
  (List.range kCells).foldlM (fun s i =>
    if board i = 0 then (List.range' 1 9).foldlM (appendRowUnless (seen board) i) s
    else return s) s

def construct (board : ℕ → ℤ) : Code SudokuSolver := do
  let (root, s) ← (blank board).newColumn 0
  let s := { s with
    root := root
    left := Function.update s.left root root
    right := Function.update s.right root root }
  let s ← s.appendColumns board
  s.appendRows board

/-! ### Covering -/

/-- The body of the inner loop of `cover`. -/
def hide (s : SudokuSolver) (j : ℕ) : SudokuSolver :=
  let s := { s with up := Function.update s.up (s.down j) (s.up j) }
  let s := { s with down := Function.update s.down (s.up j) (s.down j) }
  { s with size := Function.update s.size (s.col j) (s.size (s.col j) - 1) }

/-- The body of the inner loop of `uncover`. -/
def unhide (s : SudokuSolver) (j : ℕ) : SudokuSolver :=
  let s := { s with size := Function.update s.size (s.col j) (s.size (s.col j) + 1) }
  let s := { s with up := Function.update s.up (s.down j) j }
  { s with down := Function.update s.down (s.up j) j }

def hideRow (s : SudokuSolver) (row : ℕ) : Code SudokuSolver :=
  walk .outOfFuel right row (fun s j => .ok (s.hide j)) rounds s (s.right row)

def unhideRow (s : SudokuSolver) (row : ℕ) : Code SudokuSolver :=
  walk .outOfFuel left row (fun s j => .ok (s.unhide j)) rounds s (s.left row)

/-- The first two statements of `cover`. -/
def unlinkColumn (s : SudokuSolver) (c : ℕ) : SudokuSolver :=
  let s := { s with left := Function.update s.left (s.right c) (s.left c) }
  { s with right := Function.update s.right (s.left c) (s.right c) }

/-- The last two statements of `uncover`. -/
def relinkColumn (s : SudokuSolver) (c : ℕ) : SudokuSolver :=
  let s := { s with left := Function.update s.left (s.right c) c }
  { s with right := Function.update s.right (s.left c) c }

def cover (s : SudokuSolver) (c : ℕ) : Code SudokuSolver :=
  let s := s.unlinkColumn c
  walk .outOfFuel down c hideRow rounds s (s.down c)

def uncover (s : SudokuSolver) (c : ℕ) : Code SudokuSolver := do
  let s ← walk .outOfFuel up c unhideRow rounds s (s.up c)
  return s.relinkColumn c

/-! ### The search -/

/-- The loop of `get_min_column`. -/
def minColumn (s : SudokuSolver) : ℕ → ℕ → ℤ → ℕ → Code ℕ
  | 0, _, _, _ => .error (.failed .outOfFuel)
  | fuel + 1, c, minSize, cc =>
    if cc = s.root then return c
    else if s.size cc < minSize then
      if s.size cc ≤ 1 then return cc else s.minColumn fuel cc (s.size cc) (s.right cc)
    else s.minColumn fuel c minSize (s.right cc)

def getMinColumn (s : SudokuSolver) : Code ℕ :=
  let c := s.right s.root
  if 1 < s.size c then s.minColumn rounds c (s.size c) (s.right c) else return c

/-- The inner loop of `solve` when it has found a solution: the cell and the digit of the row of a
node. Both variables start at `-1`, which is `none`. -/
def readRow (s : SudokuSolver) : ℕ → ℕ → Option ℕ → Option ℕ → Code (ℕ × ℕ)
  | 0, _, _, _ => .error (.failed .outOfFuel)
  | _ + 1, _, some cell, some val => return (cell, val)
  | fuel + 1, n, cell, val =>
    if s.name n < 100 then s.readRow fuel (s.right n) (some (s.name n)) val
    else s.readRow fuel (s.right n) cell (some (s.name n % 10))

def fillCell (s : SudokuSolver) (n : ℕ) : Code SudokuSolver := do
  let (cell, val) ← s.readRow rounds n none none
  return { s with inout := Function.update s.inout cell val }

def coverRow (s : SudokuSolver) (row : ℕ) : Code SudokuSolver :=
  walk .outOfFuel right row (fun s j => s.cover (s.col j)) rounds s (s.right row)

def uncoverRow (s : SudokuSolver) (row : ℕ) : Code SudokuSolver :=
  walk .outOfFuel left row (fun s j => s.uncover (s.col j)) rounds s (s.left row)

/-- The loop over the rows of `col`. -/
def tryRows (solve : SudokuSolver → Code (Bool × SudokuSolver)) (col : ℕ) :
    ℕ → SudokuSolver → ℕ → Code (Bool × SudokuSolver)
  | 0, _, _ => .error (.failed .outOfFuel)
  | fuel + 1, s, row =>
    if row = col then return (false, s)
    else do
      let s ← { s with stack := s.stack ++ [row] }.coverRow row
      let (found, s) ← solve s
      if found then return (true, s)
      else do
        let s ← { s with stack := s.stack.dropLast }.uncoverRow row
        tryRows solve col fuel s (s.down row)

def solve : ℕ → SudokuSolver → Code (Bool × SudokuSolver)
  | 0, _ => .error (.failed .outOfFuel)
  | fuel + 1, s =>
    if s.left s.root = s.root then do
      let s ← s.stack.foldlM fillCell s
      return (true, s)
    else do
      let col ← s.getMinColumn
      let s ← s.cover col
      let (found, s) ← tryRows (solve fuel) col rounds s (s.down col)
      if found then return (true, s)
      else do
        let s ← s.uncover col
        return (false, s)

end SudokuSolver

/-- The value of a `char`, which is signed. -/
def charValue (b : UInt8) : ℤ := Int.bmod b.toNat 256

def solveSudoku (puzzle : List UInt8) : Code (List UInt8) := do
  check .puzzleSize (puzzle.length = kCells)
  let board : ℕ → ℤ := fun i => charValue (puzzle.getD i 0) - 48
  if ∀ i < kCells, 0 ≤ board i ∧ board i ≤ 9 then do
    let s ← SudokuSolver.construct board
    let (found, s) ← s.solve rounds
    if found then
      return (List.range kCells).map fun i => UInt8.ofNat (s.inout i + 48).toNat
    else return kNoSolution
  else return kNoSolution

end Muduo

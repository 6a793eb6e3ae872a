import Muduo.Sudoku.Search

/-!
# The constructor

The constructor of the solver appends a column for each name in `names` and a row for each digit in
`candidates`. The matrix that it leaves behind is linked in the way that the search relies on.
-/

namespace Muduo

open Machine Sudoku

namespace SudokuSolver

/-! ### The columns and the rows of the matrix -/

/-- The groups of cells in which each digit occurs once. -/
inductive Group
  | row | col | box
  deriving DecidableEq

namespace Group

/-- The group that a cell is in. -/
def of : Group → ℕ → ℕ
  | .row => rowOf
  | .col => colOf
  | .box => boxOf

/-- The name of the column for the digit `v` in the group `i`. -/
def name : Group → ℕ → ℕ → ℕ
  | .row => getRowCol
  | .col => getColCol
  | .box => getBoxCol

def seen (b : Seen) : Group → ℕ → ℕ → Bool
  | .row => b.rows
  | .col => b.cols
  | .box => b.boxes

end Group

/-- The digits of the groups, in the order in which the constructor looks at them. -/
def groups : List (Group × ℕ × ℕ) :=
  (List.range 9).flatMap fun i => (List.range' 1 9).flatMap fun v =>
    [(.row, i, v), (.col, i, v), (.box, i, v)]

def cells (board : ℕ → ℤ) : List ℕ := (List.range kCells).filter fun i => board i = 0

/-- The names of the columns of the matrix. -/
def names (board : ℕ → ℤ) : List ℕ :=
  cells board ++ (groups.filter fun g => !g.1.seen (seen board) g.2.1 g.2.2).map
    fun g => g.1.name g.2.1 g.2.2

/-- The digits that can be put into the cells. -/
def candidates (board : ℕ → ℤ) : List (ℕ × ℕ) :=
  (cells board).flatMap fun i => ((List.range' 1 9).filter fun v =>
    !((seen board).rows (rowOf i) v || (seen board).cols (colOf i) v ||
      (seen board).boxes (boxOf i) v)).map fun v => (i, v)

/-- The columns in which the row for the digit `v` in the cell `i` has nodes. -/
def rowNames (i v : ℕ) : List ℕ :=
  [i, getRowCol (rowOf i) v, getColCol (colOf i) v, getBoxCol (boxOf i) v]

section Names

variable {board : ℕ → ℤ} {i u u' v v' n : ℕ}

lemma mem_cells : i ∈ cells board ↔ i < kCells ∧ board i = 0 := by
  simp [cells]

lemma mem_groups {k : Group} : (k, i, v) ∈ groups ↔ i < 9 ∧ 1 ≤ v ∧ v ≤ 9 := by
  cases k <;> simp [groups, Nat.lt_succ_iff]

lemma mem_names : n ∈ names board ↔ (n < kCells ∧ board n = 0) ∨ ∃ (k : Group) (u v : ℕ), u < 9 ∧
    1 ≤ v ∧ v ≤ 9 ∧ k.seen (seen board) u v = false ∧ k.name u v = n := by
  simp [names, mem_cells, mem_groups, and_assoc]

lemma Group.forall {P : Group → Prop} : (∀ k, P k) ↔ P .row ∧ P .col ∧ P .box :=
  ⟨fun h => ⟨h _, h _, h _⟩, fun h k => by cases k <;> tauto⟩

lemma mem_candidates : (i, v) ∈ candidates board ↔ (i < kCells ∧ board i = 0) ∧
    (1 ≤ v ∧ v ≤ 9) ∧ ∀ k : Group, k.seen (seen board) (k.of i) v = false := by
  simp [candidates, mem_cells, Group.forall, Group.seen, Group.of, Nat.lt_succ_iff, and_assoc]

lemma mem_rowNames : n ∈ rowNames i v ↔ n = i ∨ ∃ k : Group, n = k.name (k.of i) v := by
  constructor
  · intro h
    simp only [rowNames, List.mem_cons, List.not_mem_nil, or_false] at h
    rcases h with h | h | h | h
    exacts [.inl h, .inr ⟨.row, h⟩, .inr ⟨.col, h⟩, .inr ⟨.box, h⟩]
  · rintro (rfl | ⟨k, rfl⟩)
    · simp [rowNames]
    · cases k <;> simp [rowNames, Group.name, Group.of]

lemma Group.of_lt (k : Group) (hi : i < kCells) : k.of i < 9 := by
  rw [kCells] at hi
  cases k <;> simp only [Group.of, rowOf, colOf, boxOf] <;> omega

/-- The columns of a row are in the matrix. -/
lemma rowNames_subset (h : (i, v) ∈ candidates board) : rowNames i v ⊆ names board := by
  obtain ⟨hi, hv, hseen⟩ := mem_candidates.mp h
  intro n hn
  rcases mem_rowNames.mp hn with rfl | ⟨k, rfl⟩
  · exact mem_names.mpr (.inl hi)
  · exact mem_names.mpr (.inr ⟨k, k.of i, v, k.of_lt hi.1, hv.1, hv.2, hseen k, rfl⟩)

/-- A name stands for one digit of one group. -/
lemma Group.name_inj {k k' : Group} (hu : u < 9) (hv : v ≤ 9) (hv' : v' ≤ 9) (hu' : u' < 9)
    (heq : k.name u v = k'.name u' v') : k = k' ∧ u = u' ∧ v = v' := by
  cases k <;> cases k' <;>
    simp only [Group.name, getRowCol, getColCol, getBoxCol, kRow, kCol, kBox] at heq <;>
    first | exact ⟨rfl, by omega, by omega⟩ | omega

lemma Group.name_mod {k : Group} (hv : v ≤ 9) : 100 ≤ k.name u v ∧ k.name u v % 10 = v := by
  cases k <;> simp only [Group.name, getRowCol, getColCol, getBoxCol, kRow, kCol, kBox] <;> omega

lemma nodup_groups : groups.Nodup := by
  have hdigits : (List.range' 1 9).Nodup := List.nodup_range'
  refine List.nodup_flatMap.mpr ⟨fun i _ => List.nodup_flatMap.mpr ⟨fun v _ => by simp, ?_⟩, ?_⟩
  · refine hdigits.imp fun hne => ?_
    rintro ⟨k, u, w⟩ h h'
    simp at h h'
    omega
  · refine List.nodup_range.imp fun hne => ?_
    rintro ⟨k, u, w⟩ h h'
    simp at h h'
    omega

lemma nodup_names : (names board).Nodup := by
  refine List.nodup_append.mpr ⟨List.nodup_range.filter _, ?_, ?_⟩
  · refine (nodup_groups.filter _).map_on ?_
    rintro ⟨k, u, v⟩ hg ⟨k', u', v'⟩ hg' heq
    have hg := mem_groups.mp (List.mem_of_mem_filter hg)
    have hg' := mem_groups.mp (List.mem_of_mem_filter hg')
    obtain ⟨rfl, rfl, rfl⟩ := Group.name_inj hg.1 hg.2.2 hg'.2.2 hg'.1 heq
    rfl
  · intro i hi n hn
    obtain ⟨⟨k, u, v⟩, hg, rfl⟩ := List.mem_map.mp hn
    have hi : i < 81 := (mem_cells.mp hi).1
    have hv := (mem_groups.mp (List.mem_of_mem_filter hg)).2.2
    have hname := (Group.name_mod (k := k) (u := u) hv).1
    dsimp only
    omega

lemma length_cells (board : ℕ → ℤ) : (cells board).length ≤ 81 :=
  (List.length_filter_le ..).trans (by simp [kCells])

lemma length_names (board : ℕ → ℤ) : (names board).length ≤ 81 * 4 := by
  have hcells := length_cells board
  have hgroups : groups.length = 81 * 3 := by simp [groups]
  rw [names, List.length_append, List.length_map]
  have hfilter := List.length_filter_le (fun g => !g.1.seen (seen board) g.2.1 g.2.2) groups
  omega

lemma length_candidates (board : ℕ → ℤ) : (candidates board).length ≤ 9 * 9 * 9 := by
  have hcells := length_cells board
  rw [candidates, List.length_flatMap]
  refine (List.sum_le_card_nsmul _ 9 fun n hn => ?_).trans ?_
  · obtain ⟨i, -, rfl⟩ := List.mem_map.mp hn
    rw [List.length_map]
    exact (List.length_filter_le ..).trans (by simp)
  · simp
    omega

end Names

lemma appendUnless_eq (s : SudokuSolver) (met : Bool) (n : ℕ) :
    s.appendUnless met n = if !met then s.appendColumn n else pure s := by
  cases met <;> rfl

lemma appendColumns_eq (s : SudokuSolver) (board : ℕ → ℤ) :
    s.appendColumns board = (names board).foldlM appendColumn s := by
  have hunits : ∀ i, appendUnits (seen board) i = fun s v =>
      [(Group.row, i, v), (.col, i, v), (.box, i, v)].foldlM (fun s g =>
        if !g.1.seen (seen board) g.2.1 g.2.2 then s.appendColumn (g.1.name g.2.1 g.2.2)
        else pure s) s := by
    intro i
    funext s v
    simp only [appendUnits, appendUnless_eq, List.foldlM_cons, List.foldlM_nil, bind_pure,
      Group.seen, Group.name]
    rfl
  simp only [appendColumns, hunits, appendUnless_eq, names, cells, groups, List.foldlM_append,
    List.foldlM_map, List.foldlM_filter, foldlM_flatMap, decide_not, Bool.not_not]

lemma appendRows_eq (s : SudokuSolver) (board : ℕ → ℤ) :
    s.appendRows board = (candidates board).foldlM (fun s p => s.appendRow p.1 p.2) s := by
  have hunless : ∀ i, appendRowUnless (seen board) i = fun s v =>
      if !((seen board).rows (rowOf i) v || (seen board).cols (colOf i) v ||
        (seen board).boxes (boxOf i) v) then s.appendRow i v else pure s := by
    intro i
    funext s v
    rw [appendRowUnless]
    cases (seen board).rows (rowOf i) v || (seen board).cols (colOf i) v ||
      (seen board).boxes (boxOf i) v <;> rfl
  simp only [candidates, cells, foldlM_flatMap, List.foldlM_map, List.foldlM_filter, appendRows,
    hunless, decide_eq_true_eq]

/-! ### Linking a node -/

variable {s : SudokuSolver} {c x y n : ℕ} {l : List ℕ}

section Put

variable {h : ℕ} {l' : List ℕ}

lemma putLeft_right (hne : x ≠ y) :
    (s.putLeft y x).right = Function.update (Function.update s.right x y) (s.left y) x := by
  simp [putLeft, Function.update_of_ne hne.symm]

lemma putUp_down (hne : x ≠ y) :
    (s.putUp y x).down = Function.update (Function.update s.down x y) (s.up y) x := by
  simp [putUp, Function.update_of_ne hne.symm]

lemma ring_putLeft (hr : Machine.Ring s.right s.left y l) (hx : x ∉ y :: l) :
    Machine.Ring (s.putLeft y x).right (s.putLeft y x).left y (l ++ [x]) := by
  rw [putLeft_right (List.ne_of_not_mem_cons hx)]
  exact hr.concat hx

lemma ring_putLeft_of_disjoint (hr : Machine.Ring s.right s.left y l) (hx : x ∉ y :: l)
    (hr' : Machine.Ring s.right s.left h l') (hdisj : ∀ z ∈ h :: l', z ∉ x :: y :: l) :
    Machine.Ring (s.putLeft y x).right (s.putLeft y x).left h l' := by
  rw [putLeft_right (List.ne_of_not_mem_cons hx)]
  exact hr.concat_of_disjoint hr' hdisj

lemma ring_putUp (hr : Machine.Ring s.down s.up y l) (hx : x ∉ y :: l) :
    Machine.Ring (s.putUp y x).down (s.putUp y x).up y (l ++ [x]) := by
  rw [putUp_down (List.ne_of_not_mem_cons hx)]
  exact hr.concat hx

lemma ring_putUp_of_disjoint (hr : Machine.Ring s.down s.up y l) (hx : x ∉ y :: l)
    (hr' : Machine.Ring s.down s.up h l') (hdisj : ∀ z ∈ h :: l', z ∉ x :: y :: l) :
    Machine.Ring (s.putUp y x).down (s.putUp y x).up h l' := by
  rw [putUp_down (List.ne_of_not_mem_cons hx)]
  exact hr.concat_of_disjoint hr' hdisj

end Put

/-- A node that is linked to itself in all directions. -/
def fresh (s : SudokuSolver) (n c : ℕ) : SudokuSolver :=
  { s with
    curNode := s.curNode + 1
    left := Function.update s.left s.curNode s.curNode
    right := Function.update s.right s.curNode s.curNode
    up := Function.update s.up s.curNode s.curNode
    down := Function.update s.down s.curNode s.curNode
    col := Function.update s.col s.curNode c
    name := Function.update s.name s.curNode n
    size := Function.update s.size s.curNode 0 }

lemma appendColumn_eq (hn : s.columns n = none) (hcur : s.curNode < kMaxNodes) :
    s.appendColumn n = .ok { (s.fresh n s.curNode).putLeft s.root s.curNode with
      columns := Function.update s.columns n (some s.curNode) } := by
  simp only [appendColumn, newColumn, check_of hn, check_of hcur]
  rfl

lemma newRow_eq (hc : s.columns n = some c) (hcur : s.curNode < kMaxNodes) :
    s.newRow n = .ok (s.curNode, (s.fresh n c).putUp c s.curNode) := by
  simp only [newRow, hc, check_of hcur]
  rfl

/-! ### The matrix under construction -/

/-- The columns in `H` with the names `ns` and the nodes in `nodes` have been made. -/
structure Built (ns H nodes : List ℕ) (s : SudokuSolver) : Prop where
  header : Machine.Ring s.right s.left s.root H
  names : H.map s.name = ns
  columns : ∀ n c, s.columns n = some c ↔ c ∈ H ∧ s.name c = n
  col : ∀ n ∈ nodes, s.columns (s.name n) = some (s.col n)
  column : ∀ c ∈ H, Machine.Ring s.down s.up c (nodes.filter (s.col · = c))
  nodup : (s.root :: (H ++ nodes)).Nodup
  lt_curNode : ∀ x ∈ s.root :: (H ++ nodes), x < s.curNode
  curNode_eq : s.curNode = 1 + H.length + nodes.length

/-- What `new_row` changes besides the columns. -/
structure Added (s : SudokuSolver) (n : ℕ) (t : SudokuSolver) : Prop where
  right : t.right = Function.update s.right s.curNode s.curNode
  left : t.left = Function.update s.left s.curNode s.curNode
  name : t.name = Function.update s.name s.curNode n
  curNode : t.curNode = s.curNode + 1
  root : t.root = s.root
  stack : t.stack = s.stack
  inout : t.inout = s.inout

variable {ns H nodes : List ℕ}

namespace Built

lemma curNode_not_mem (h : Built ns H nodes s) : s.curNode ∉ s.root :: (H ++ nodes) :=
  fun hmem => (h.lt_curNode _ hmem).false

lemma ne_curNode (h : Built ns H nodes s) (hx : x ∈ s.root :: (H ++ nodes)) : x ≠ s.curNode :=
  (h.lt_curNode x hx).ne

lemma lt_curNode_succ (h : Built ns H nodes s) (hx : x ∈ s.root :: (H ++ nodes) ∨ x = s.curNode) :
    x < s.curNode + 1 := by
  rcases hx with hx | rfl
  · exact (h.lt_curNode x hx).trans (Nat.lt_succ_self _)
  · exact Nat.lt_succ_self _

lemma exists_column (h : Built ns H nodes s) (hn : n ∈ ns) :
    ∃ c, s.columns n = some c ∧ c ∈ H := by
  rw [← h.names] at hn
  obtain ⟨c, hc, hname⟩ := List.mem_map.mp hn
  exact ⟨c, (h.columns n c).mpr ⟨hc, hname⟩, hc⟩

lemma columns_eq_none (h : Built ns H nodes s) (hn : n ∉ ns) : s.columns n = none := by
  refine Option.eq_none_iff_forall_not_mem.mpr fun c hc => hn ?_
  obtain ⟨hmem, hname⟩ := (h.columns n c).mp hc
  rw [← h.names]
  exact List.mem_map.mpr ⟨c, hmem, hname⟩

lemma not_mem_nodes (h : Built ns H nodes s) (hc : c ∈ H) : c ∉ nodes := fun hmem =>
  (List.nodup_append.mp (List.nodup_cons.mp h.nodup).2).2.2 c hc c hmem rfl

/-- Different columns have no node in common. -/
lemma eq_of_mem (h : Built ns H nodes s) (hx : x ∈ H) (hc : c ∈ H)
    (hyx : y ∈ x :: nodes.filter (s.col · = x)) (hyc : y ∈ c :: nodes.filter (s.col · = c)) :
    x = c := by
  simp only [List.mem_cons, List.mem_filter, decide_eq_true_eq] at hyx hyc
  rcases hyx with rfl | ⟨hmem, rfl⟩ <;> rcases hyc with heq | ⟨hmem', heq⟩
  · exact heq
  · exact absurd hmem' (h.not_mem_nodes hx)
  · exact absurd (heq ▸ hmem) (h.not_mem_nodes hc)
  · exact heq

/-! ### Appending a column -/

lemma columns_update (h : Built ns H nodes s) (hn : n ∉ ns) (m c : ℕ) :
    Function.update s.columns n (some s.curNode) m = some c ↔
      c ∈ H ++ [s.curNode] ∧ Function.update s.name s.curNode n c = m := by
  by_cases hc : c = s.curNode
  · subst hc
    by_cases hm : m = n
    · simp [hm]
    · have hold : s.columns m ≠ some s.curNode := by
        intro heq
        have hmem := ((h.columns m _).mp heq).1
        exact h.ne_curNode (List.mem_cons_of_mem _ (List.mem_append_left _ hmem)) rfl
      simp [Function.update_of_ne hm, hold, Ne.symm hm]
  · rw [Function.update_of_ne hc, List.mem_append, List.mem_singleton, or_iff_left hc]
    by_cases hm : m = n
    · subst hm
      have hnone := (h.columns m c).not.mp (by simp [h.columns_eq_none hn])
      simp [Ne.symm hc, hnone]
    · rw [Function.update_of_ne hm]
      exact h.columns m c

lemma appendColumn (h : Built ns H [] s) (hn : n ∉ ns) (hcur : s.curNode < kMaxNodes) :
    Yields (s.appendColumn n) fun t => Built (ns ++ [n]) (H ++ [s.curNode]) [] t ∧
      t.stack = s.stack ∧ t.inout = s.inout := by
  have hnew : s.curNode ∉ s.root :: H := by simpa using h.curNode_not_mem
  have hne : ∀ c ∈ H, c ≠ s.curNode := fun c hc =>
    h.ne_curNode (List.mem_cons_of_mem _ (List.mem_append_left _ hc))
  refine ⟨_, appendColumn_eq (h.columns_eq_none hn) hcur, ?_, rfl, rfl⟩
  exact {
    header := ring_putLeft (h.header.update hnew _ _) hnew
    names := by
      change (H ++ [s.curNode]).map (Function.update s.name s.curNode n) = ns ++ [n]
      rw [List.map_append, List.map_singleton, Function.update_self, ← h.names]
      refine congrArg (· ++ [n]) (List.map_congr_left fun c hc => ?_)
      exact Function.update_of_ne (hne c hc) ..
    columns := h.columns_update hn
    col := by simp
    column := by
      intro c hc
      change Machine.Ring (Function.update s.down s.curNode s.curNode)
        (Function.update s.up s.curNode s.curNode) c []
      rcases List.mem_append.mp hc with hc | hc
      · exact (h.column c hc).update (by simpa using (hne c hc).symm) _ _
      · rw [List.mem_singleton.mp hc]
        exact ⟨by simp, by simp⟩
    nodup := by
      change (s.root :: (H ++ [s.curNode] ++ [])).Nodup
      simpa using h.header.nodup.concat hnew
    lt_curNode := by
      change ∀ x ∈ s.root :: (H ++ [s.curNode] ++ []), x < s.curNode + 1
      exact fun x hx => h.lt_curNode_succ (by simpa [or_assoc] using hx)
    curNode_eq := by
      change s.curNode + 1 = _
      simp [h.curNode_eq]
      omega }

/-! ### Appending a node to a column -/

lemma column_putUp (h : Built ns H nodes s) (hc : c ∈ H) (hx : x ∈ H) :
    Machine.Ring ((s.fresh n c).putUp c s.curNode).down ((s.fresh n c).putUp c s.curNode).up x
      ((nodes ++ [s.curNode]).filter (Function.update s.col s.curNode c · = x)) := by
  have hfilter : nodes.filter (Function.update s.col s.curNode c · = x) =
      nodes.filter (s.col · = x) := by
    refine List.filter_congr fun m hm => ?_
    rw [Function.update_of_ne (h.ne_curNode (List.mem_cons_of_mem _ (List.mem_append_right _ hm)))]
  have hnew : ∀ x ∈ H, s.curNode ∉ x :: nodes.filter (s.col · = x) := by
    intro x hx hmem
    refine h.curNode_not_mem (List.mem_cons_of_mem _ ?_)
    rcases List.mem_cons.mp hmem with heq | hmem
    · exact List.mem_append_left _ (heq ▸ hx)
    · exact List.mem_append_right _ (List.mem_of_mem_filter hmem)
  have hcring := (h.column c hc).update (hnew c hc) s.curNode s.curNode
  have hxring := (h.column x hx).update (hnew x hx) s.curNode s.curNode
  rw [List.filter_append, hfilter]
  by_cases hxc : x = c
  · subst hxc
    rw [List.filter_cons_of_pos (by simp), List.filter_nil]
    exact ring_putUp hcring (hnew x hx)
  · rw [List.filter_cons_of_neg (by simpa using Ne.symm hxc), List.filter_nil, List.append_nil]
    refine ring_putUp_of_disjoint hcring (hnew c hc) hxring fun y hy hmem => ?_
    rcases List.mem_cons.mp hmem with rfl | hmem
    · exact hnew x hx hy
    · exact hxc (h.eq_of_mem hx hc hy hmem)

lemma newRow (h : Built ns H nodes s) (hn : n ∈ ns) (hcur : s.curNode < kMaxNodes) :
    ∃ t, s.newRow n = .ok (s.curNode, t) ∧ Built ns H (nodes ++ [s.curNode]) t ∧ Added s n t := by
  obtain ⟨c, hcolumn, hc⟩ := h.exists_column hn
  have hne : ∀ x ∈ H, x ≠ s.curNode := fun x hx =>
    h.ne_curNode (List.mem_cons_of_mem _ (List.mem_append_left _ hx))
  have hcol : ((s.fresh n c).putUp c s.curNode).col = Function.update s.col s.curNode c := by
    simp [putUp, fresh]
  refine ⟨_, newRow_eq hcolumn hcur, ?_, ⟨rfl, rfl, rfl, rfl, rfl, rfl, rfl⟩⟩
  exact {
    header := by
      refine h.header.update (fun hmem => h.curNode_not_mem ?_) _ _
      exact List.mem_append_left nodes hmem
    names := by
      rw [← h.names]
      exact List.map_congr_left fun x hx => Function.update_of_ne (hne x hx) ..
    columns := by
      intro m x
      refine (h.columns m x).trans (and_congr_right fun hx => ?_)
      change _ ↔ Function.update s.name s.curNode n x = m
      rw [Function.update_of_ne (hne x hx)]
    col := by
      intro m hm
      rw [hcol]
      change s.columns (Function.update s.name s.curNode n m) = _
      rcases List.mem_append.mp hm with hm | hm
      · have hne := h.ne_curNode (List.mem_cons_of_mem _ (List.mem_append_right _ hm))
        rw [Function.update_of_ne hne, Function.update_of_ne hne]
        exact h.col m hm
      · rw [List.mem_singleton.mp hm, Function.update_self, Function.update_self]
        exact hcolumn
    column := by
      rw [hcol]
      exact fun x hx => h.column_putUp hc hx
    nodup := by
      change (s.root :: (H ++ (nodes ++ [s.curNode]))).Nodup
      simpa using h.nodup.concat h.curNode_not_mem
    lt_curNode := by
      change ∀ x ∈ s.root :: (H ++ (nodes ++ [s.curNode])), x < s.curNode + 1
      exact fun x hx => h.lt_curNode_succ (by simpa [or_assoc] using hx)
    curNode_eq := by
      change s.curNode + 1 = _
      simp [h.curNode_eq]
      omega }

lemma putLeft (h : Built ns H nodes s) (hr : Machine.Ring s.right s.left y l) (hx : x ∉ y :: l)
    (hnodes : x :: y :: l ⊆ nodes) : Built ns H nodes (s.putLeft y x) := by
  refine { h with header := ring_putLeft_of_disjoint hr hx h.header fun z hz hmem => ?_ }
  have hnodup : (s.root :: H ++ nodes).Nodup := h.nodup
  exact List.disjoint_of_nodup_append hnodup hz (hnodes hmem)

end Built

/-! ### Rows -/

/-- The nodes of the row that starts at `b`. -/
def quad (b : ℕ) : List ℕ := [b, b + 1, b + 2, b + 3]

structure Row (s : SudokuSolver) (b i v : ℕ) : Prop where
  ring : Machine.Ring s.right s.left b [b + 1, b + 2, b + 3]
  names : (quad b).map s.name = rowNames i v

/-- The nodes before `k` have the same rows and the same names. -/
def SameBelow (k : ℕ) (s t : SudokuSolver) : Prop :=
  ∀ y < k, t.right y = s.right y ∧ t.left y = s.left y ∧ t.name y = s.name y

lemma SameBelow.trans {k : ℕ} {s t u : SudokuSolver} (h : SameBelow k s t) (h' : SameBelow k t u) :
    SameBelow k s u := fun y hy =>
  ⟨(h' y hy).1.trans (h y hy).1, (h' y hy).2.1.trans (h y hy).2.1,
    (h' y hy).2.2.trans (h y hy).2.2⟩

lemma Row.of_sameBelow {b i v k : ℕ} {t : SudokuSolver} (h : Row s b i v) (hb : b + 4 ≤ k)
    (ht : SameBelow k s t) : Row t b i v := by
  have hlt : ∀ y ∈ quad b, y < k := by
    intro y hy
    simp only [quad, List.mem_cons, List.not_mem_nil, or_false] at hy
    omega
  refine ⟨h.ring.congr (fun y hy => (ht y (hlt y hy)).1) fun y hy => (ht y (hlt y hy)).2.1, ?_⟩
  rw [← h.names]
  exact List.map_congr_left fun y hy => (ht y (hlt y hy)).2.2

lemma Added.sameBelow {k : ℕ} {t : SudokuSolver} (h : Added s n t) (hk : k ≤ s.curNode) :
    SameBelow k s t := by
  intro y hy
  have hne : y ≠ s.curNode := by omega
  rw [h.right, h.left, h.name]
  simp [Function.update_of_ne hne]

lemma sameBelow_putLeft {k : ℕ} (hr : Machine.Ring s.right s.left y l) (hx : x ∉ y :: l)
    (hk : ∀ z ∈ x :: y :: l, k ≤ z) : SameBelow k s (s.putLeft y x) := by
  intro z hz
  have hzx : z ≠ x := fun heq => (hk x (by simp)).not_gt (heq ▸ hz)
  have hzy : z ≠ y := fun heq => (hk y (by simp)).not_gt (heq ▸ hz)
  have hzl : z ≠ s.left y := by
    rintro rfl
    exact (hk _ (List.mem_cons_of_mem x hr.seg.prev_mem)).not_gt hz
  rw [putLeft_right (List.ne_of_not_mem_cons hx)]
  simp [SudokuSolver.putLeft, Function.update_of_ne hzx, Function.update_of_ne hzy,
    Function.update_of_ne hzl]

lemma Built.appendRow {i v : ℕ} (h : Built ns H nodes s) (hnames : rowNames i v ⊆ ns)
    (hcur : s.curNode + 4 ≤ kMaxNodes) :
    Yields (s.appendRow i v) fun t => Built ns H (nodes ++ quad s.curNode) t ∧
      Row t s.curNode i v ∧ SameBelow s.curNode s t ∧ t.stack = s.stack ∧ t.inout = s.inout := by
  obtain ⟨k, hk⟩ : ∃ k, s.curNode = k := ⟨_, rfl⟩
  obtain ⟨t₀, h₀, hb₀, ha₀⟩ := h.newRow (n := i) (hnames (by simp [rowNames])) (by omega)
  have hk₀ : t₀.curNode = k + 1 := by rw [ha₀.curNode, hk]
  obtain ⟨t₁, h₁, hb₁, ha₁⟩ := hb₀.newRow (n := getRowCol (rowOf i) v)
    (hnames (by simp [rowNames])) (by omega)
  have hk₁ : t₁.curNode = k + 2 := by rw [ha₁.curNode, hk₀]
  obtain ⟨t₂, h₂, hb₂, ha₂⟩ := hb₁.newRow (n := getColCol (colOf i) v)
    (hnames (by simp [rowNames])) (by omega)
  have hk₂ : t₂.curNode = k + 3 := by rw [ha₂.curNode, hk₁]
  obtain ⟨t₃, h₃, hb₃, ha₃⟩ := hb₂.newRow (n := getBoxCol (boxOf i) v)
    (hnames (by simp [rowNames])) (by omega)
  rw [hk, hk₀, hk₁, hk₂] at hb₃
  simp only [SudokuSolver.appendRow, h₀, h₁, h₂, h₃, ok_bind, hk, hk₀, hk₁, hk₂]
  have hself : Machine.Ring t₃.right t₃.left k [] := by
    rw [ha₃.right, ha₂.right, ha₁.right, ha₀.right, ha₃.left, ha₂.left, ha₁.left, ha₀.left, hk₂,
      hk₁, hk₀, hk]
    exact ⟨by simp, by simp⟩
  have hname : (quad k).map t₃.name = rowNames i v := by
    rw [ha₃.name, ha₂.name, ha₁.name, ha₀.name, hk₂, hk₁, hk₀, hk]
    simp [quad, rowNames]
  have hr₁ := ring_putLeft (x := k + 1) hself (by simp)
  have hr₂ := ring_putLeft (x := k + 2) hr₁ (by simp)
  have hr₃ := ring_putLeft (x := k + 3) hr₂ (by simp)
  refine ⟨_, rfl, ?_, ⟨hr₃, hname⟩, ?_, ?_⟩
  · have hnodes : nodes ++ [k] ++ [k + 1] ++ [k + 2] ++ [k + 3] = nodes ++ quad k := by
      simp [quad]
    rw [hnodes] at hb₃
    refine ((hb₃.putLeft hself (by simp) ?_).putLeft hr₁ (by simp) ?_).putLeft hr₂ (by simp) ?_ <;>
      · intro z hz
        simp [quad] at hz ⊢
        omega
  · refine (ha₀.sameBelow (by omega)).trans ((ha₁.sameBelow (by omega)).trans
      ((ha₂.sameBelow (by omega)).trans ((ha₃.sameBelow (by omega)).trans ?_)))
    refine (sameBelow_putLeft hself (by simp) ?_).trans ((sameBelow_putLeft hr₁ (by simp) ?_).trans
      (sameBelow_putLeft hr₂ (by simp) ?_)) <;>
      · intro z hz
        simp at hz
        omega
  · exact ⟨ha₃.stack.trans (ha₂.stack.trans (ha₁.stack.trans ha₀.stack)),
      ha₃.inout.trans (ha₂.inout.trans (ha₁.inout.trans ha₀.inout))⟩

/-! ### The loops of the constructor -/

lemma Built.appendColumns {l : List ℕ} (h : Built ns H [] s) (hnodup : (ns ++ l).Nodup)
    (hcur : s.curNode + l.length ≤ kMaxNodes) :
    Yields (l.foldlM SudokuSolver.appendColumn s) fun t =>
      (∃ H', Built (ns ++ l) H' [] t) ∧ t.stack = s.stack ∧ t.inout = s.inout := by
  induction l generalizing ns H s with
  | nil => exact ⟨s, rfl, ⟨H, by simpa using h⟩, rfl, rfl⟩
  | cons n l ih =>
    rw [List.length_cons] at hcur
    have hn : n ∉ ns := fun hmem =>
      (List.nodup_append.mp hnodup).2.2 n hmem n (List.mem_cons_self ..) rfl
    obtain ⟨t, ht, hbuilt, hstack, hinout⟩ := h.appendColumn hn (by omega)
    have hcurt : t.curNode = s.curNode + 1 := by
      rw [hbuilt.curNode_eq, h.curNode_eq]
      simp
      omega
    obtain ⟨u, hu, hbuilt', hstack', hinout'⟩ := ih hbuilt (by simpa using hnodup) (by omega)
    rw [List.foldlM_cons, ht, ok_bind]
    refine ⟨u, hu, ?_, hstack'.trans hstack, hinout'.trans hinout⟩
    simpa using hbuilt'

/-- The rows, given by their first nodes, their cells and their digits, have been made. -/
structure Constructed (ns H : List ℕ) (rows : List (ℕ × ℕ × ℕ)) (s : SudokuSolver) : Prop where
  built : Built ns H (rows.flatMap fun r => quad r.1) s
  row : ∀ r ∈ rows, Row s r.1 r.2.1 r.2.2

lemma Constructed.appendRows {rows : List (ℕ × ℕ × ℕ)} {ps : List (ℕ × ℕ)}
    (h : Constructed ns H rows s) (hps : ∀ p ∈ ps, rowNames p.1 p.2 ⊆ ns)
    (hcur : s.curNode + 4 * ps.length ≤ kMaxNodes) :
    Yields (ps.foldlM (fun s p => s.appendRow p.1 p.2) s) fun t =>
      (∃ rows', rows'.map Prod.snd = rows.map Prod.snd ++ ps ∧ Constructed ns H rows' t) ∧
        t.stack = s.stack ∧ t.inout = s.inout := by
  induction ps generalizing rows s with
  | nil => exact ⟨s, rfl, ⟨rows, by simp, h⟩, rfl, rfl⟩
  | cons p ps ih =>
    rw [List.length_cons] at hcur
    obtain ⟨hp, hps⟩ := List.forall_mem_cons.mp hps
    obtain ⟨t, ht, hbuilt, hrow, hsame, hstack, hinout⟩ := h.built.appendRow hp (by omega)
    have hcurt : t.curNode = s.curNode + 4 := by
      rw [hbuilt.curNode_eq, h.built.curNode_eq]
      simp [quad]
      omega
    have hconstructed : Constructed ns H (rows ++ [(s.curNode, p)]) t := by
      refine ⟨by simpa using hbuilt, fun r hr => ?_⟩
      rcases List.mem_append.mp hr with hr | hr
      · have hlt : r.1 + 3 < s.curNode := by
          refine h.built.lt_curNode _ ?_
          simp only [List.mem_cons, List.mem_append, List.mem_flatMap]
          exact .inr (.inr ⟨r, hr, by simp [quad]⟩)
        exact (h.row r hr).of_sameBelow (by omega) hsame
      · rw [List.mem_singleton.mp hr]
        exact hrow
    obtain ⟨u, hu, ⟨rows', hrows', hconstructed'⟩, hstack', hinout'⟩ :=
      ih hconstructed hps (by omega)
    rw [List.foldlM_cons, ht, ok_bind]
    exact ⟨u, hu, ⟨rows', by simpa using hrows', hconstructed'⟩, hstack'.trans hstack,
      hinout'.trans hinout⟩

lemma construct_constructed (board : ℕ → ℤ) :
    Yields (construct board) fun s => (∃ H rows, rows.map Prod.snd = candidates board ∧
      Constructed (names board) H rows s) ∧ s.stack = [] ∧ s.inout = board := by
  obtain ⟨s₀, hs₀, hbuilt, hstack, hinout⟩ : ∃ s₀ : SudokuSolver,
      construct board = (s₀.appendColumns board >>= fun s => s.appendRows board) ∧
      Built [] [] [] s₀ ∧ s₀.stack = [] ∧ s₀.inout = board := by
    refine ⟨_, rfl, ?_, rfl, rfl⟩
    exact {
      header := ⟨by simp [blank], by simp⟩
      names := rfl
      columns := by simp [blank]
      col := by simp
      column := by simp
      nodup := by simp
      lt_curNode := by simp [blank]
      curNode_eq := rfl }
  have hnames := length_names board
  obtain ⟨s₁, hs₁, ⟨H, hbuilt₁⟩, hstack₁, hinout₁⟩ := hbuilt.appendColumns (l := names board)
    (by simpa using nodup_names) (by rw [hbuilt.curNode_eq, kMaxNodes]; simp; omega)
  rw [List.nil_append] at hbuilt₁
  have hcur : s₁.curNode = 1 + (names board).length := by
    rw [hbuilt₁.curNode_eq, ← hbuilt₁.names]
    simp
  have hcandidates := length_candidates board
  have hconstructed : Constructed (names board) H [] s₁ := ⟨hbuilt₁, by simp⟩
  obtain ⟨s₂, hs₂, ⟨rows, hrows, hconstructed₂⟩, hstack₂, hinout₂⟩ :=
    hconstructed.appendRows (fun p (hp : p ∈ candidates board) => rowNames_subset hp)
      (by rw [hcur, kMaxNodes]; omega)
  rw [hs₀, appendColumns_eq, hs₁, ok_bind, appendRows_eq]
  exact ⟨s₂, hs₂, ⟨H, rows, by simpa using hrows, hconstructed₂⟩,
    hstack₂.trans (hstack₁.trans hstack), hinout₂.trans (hinout₁.trans hinout)⟩

end SudokuSolver
end Muduo

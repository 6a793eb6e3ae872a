import Muduo.Sudoku.Solver

/-!
# Covering and uncovering

The links of the matrix: the columns that are not covered are in a ring with the root, each of them
is in a ring with the nodes of the rows that have not been taken out of it, and the nodes of a row
are in a ring that never changes. `cover` takes a column out of the first ring and its rows out of
the other columns, and `uncover` puts everything back, down to the last link.
-/

namespace Muduo

open Machine Sudoku

namespace SudokuSolver

/-! ### The matrix -/

/-- What is fixed when the solver has been constructed: the nodes that are not headers of columns,
the columns they are in, and the other nodes of their rows in the order of the links. -/
structure Layout where
  node : ℕ → Prop
  col : ℕ → ℕ
  others : ℕ → List ℕ
  node_of_mem : ∀ {n m}, node n → m ∈ others n → node m
  perm : ∀ {n m}, node n → m ∈ others n → (m :: others m).Perm (n :: others n)
  not_node_col : ∀ {n}, node n → ¬ node (col n)
  nodup : ∀ {n}, node n → ((n :: others n).map col).Nodup
  length_row : ∀ {n}, node n → (n :: others n).length < rounds

namespace Layout

variable (L : Layout) {n m : ℕ}

/-- The columns of the row of a node. -/
def cols (n : ℕ) : List ℕ := (n :: L.others n).map L.col

variable {L}

lemma cols_perm (hn : L.node n) (hm : m ∈ L.others n) : (L.cols m).Perm (L.cols n) :=
  (L.perm hn hm).map L.col

lemma col_ne (hn : L.node n) (hm : m ∈ L.others n) : L.col m ≠ L.col n := by
  intro heq
  have := L.nodup hn
  rw [List.map_cons, List.nodup_cons] at this
  exact this.1 (heq ▸ List.mem_map_of_mem hm)

lemma mem_others_symm (hn : L.node n) (hm : m ∈ L.others n) : n ∈ L.others m := by
  have hmem : n ∈ m :: L.others m := (L.perm hn hm).mem_iff.mpr (List.mem_cons_self ..)
  rcases List.mem_cons.mp hmem with rfl | hmem
  · exact absurd rfl (L.col_ne hn hm)
  · exact hmem

lemma length_others (hn : L.node n) : (L.others n).length < rounds :=
  (Nat.lt_succ_self _).trans (L.length_row hn)

/-- Two nodes of a row are in different columns. -/
lemma eq_of_col_eq (hn : L.node n) {x y : ℕ} (hx : x ∈ n :: L.others n) (hy : y ∈ n :: L.others n)
    (heq : L.col x = L.col y) : x = y :=
  List.inj_on_of_nodup_map (L.nodup hn) hx hy heq

end Layout

/-! ### Taking nodes out of their columns -/

/-- The columns in `K`, with the nodes that are linked in them, and the rows. -/
structure Rings (L : Layout) (K : List ℕ) (V : ℕ → List ℕ) (s : SudokuSolver) : Prop where
  col : ∀ n, L.node n → s.col n = L.col n
  row : ∀ n, L.node n → Ring s.right s.left n (L.others n)
  not_node : ∀ c ∈ K, ¬ L.node c
  column : ∀ c ∈ K, Ring s.down s.up c (V c)
  mem_column : ∀ c ∈ K, ∀ n ∈ V c, L.node n ∧ L.col n = c

variable {L : Layout} {K : List ℕ} {V : ℕ → List ℕ} {s : SudokuSolver} {j c : ℕ}

/-- Different columns have no node in common. -/
lemma Rings.eq_of_mem (h : Rings L K V s) {c c' x : ℕ} (hc : c ∈ K) (hc' : c' ∈ K)
    (hx : x ∈ c :: V c) (hx' : x ∈ c' :: V c') : c = c' := by
  rcases List.mem_cons.mp hx with rfl | hx
  · rcases List.mem_cons.mp hx' with rfl | hx'
    · rfl
    · exact absurd (h.mem_column c' hc' x hx').1 (h.not_node x hc)
  · rcases List.mem_cons.mp hx' with rfl | hx'
    · exact absurd (h.mem_column c hc x hx).1 (h.not_node x hc')
    · exact (h.mem_column c hc x hx).2.symm.trans (h.mem_column c' hc' x hx').2

/-- The node `j` is linked in its column. -/
structure Present (L : Layout) (K : List ℕ) (V : ℕ → List ℕ) (j : ℕ) : Prop where
  node : L.node j
  col_mem : L.col j ∈ K
  mem : j ∈ V (L.col j)

lemma hide_down (hd : s.down j ≠ j) :
    (s.hide j).down = Function.update s.down (s.up j) (s.down j) := by
  simp [hide, Function.update_of_ne hd.symm]

lemma Rings.hide (h : Rings L K V s) (hj : Present L K V j) :
    Rings L K (fun c => (V c).filter (· ≠ j)) (s.hide j) := by
  have hring := h.column _ hj.col_mem
  have hdown := hide_down (hring.next_ne hj.mem)
  have hup : (s.hide j).up = Function.update s.up (s.down j) (s.up j) := rfl
  refine ⟨h.col, h.row, h.not_node, fun c hc => ?_, fun c hc n hn => ?_⟩
  · rw [hdown, hup]
    by_cases hcj : c = L.col j
    · subst hcj
      exact hring.unlink hj.mem
    · -- The links that change are those of two nodes in the column of `j`.
      have hfilter : (V c).filter (· ≠ j) = V c := by
        refine List.filter_eq_self.mpr fun n hn => ?_
        simp only [ne_eq, decide_eq_true_eq]
        rintro rfl
        exact hcj (h.mem_column c hc n hn).2.symm
      rw [hfilter]
      refine (h.column c hc).congr (fun y hy => Function.update_of_ne ?_ ..)
        fun y hy => Function.update_of_ne ?_ ..
      · rintro rfl
        exact hcj (h.eq_of_mem hc hj.col_mem hy (hring.prev_mem hj.mem))
      · rintro rfl
        exact hcj (h.eq_of_mem hc hj.col_mem hy (hring.next_mem hj.mem))
  · exact h.mem_column c hc n (List.mem_of_mem_filter hn)

/-- `unhide` undoes `hide`. -/
lemma Rings.unhide_hide (h : Rings L K V s) (hj : Present L K V j) : (s.hide j).unhide j = s := by
  have hring := h.column _ hj.col_mem
  have hdn := hring.next_ne hj.mem
  have hun := hring.prev_ne hj.mem
  have hud : s.up (s.down j) = j := hring.prev_next hj.mem
  have hdu : s.down (s.up j) = j := hring.next_prev hj.mem
  have hup : Function.update s.up (s.down j) j = s.up := by
    rw [Function.update_eq_self_iff, hud]
  have hdown : Function.update s.down (s.up j) j = s.down := by
    rw [Function.update_eq_self_iff, hdu]
  simp [SudokuSolver.hide, unhide, Function.update_of_ne hdn.symm, Function.update_of_ne hun.symm,
    hup, hdown]

lemma Rings.hideAll (h : Rings L K V s) {js : List ℕ} (hnodup : js.Nodup)
    (hjs : ∀ j ∈ js, Present L K V j) :
    Rings L K (fun c => (V c).filter (· ∉ js)) (js.foldl SudokuSolver.hide s) := by
  induction js generalizing s V with
  | nil => simpa using h
  | cons j js ih =>
    obtain ⟨hj, hjs⟩ := List.forall_mem_cons.mp hjs
    obtain ⟨hnew, hnodup⟩ := List.nodup_cons.mp hnodup
    have hpresent : ∀ i ∈ js, Present L K (fun c => (V c).filter (· ≠ j)) i := by
      intro i hi
      have hne : i ≠ j := by
        rintro rfl
        exact hnew hi
      exact ⟨(hjs i hi).node, (hjs i hi).col_mem, by simpa [hne] using (hjs i hi).mem⟩
    have hfilter : (fun c => ((V c).filter (· ≠ j)).filter (· ∉ js)) =
        fun c => (V c).filter (· ∉ j :: js) := by
      funext c
      rw [List.filter_filter]
      refine List.filter_congr fun n _ => ?_
      simp [Bool.and_comm]
    rw [← hfilter]
    exact ih (h.hide hj) hnodup hpresent

/-! ### The loops along the rows -/

lemma rows_foldl_hide (js : List ℕ) (s : SudokuSolver) :
    (js.foldl hide s).right = s.right ∧ (js.foldl hide s).left = s.left := by
  induction js generalizing s with
  | nil => exact ⟨rfl, rfl⟩
  | cons j js ih => exact ih (s.hide j)

lemma Rings.row_hide (h : Rings L K V s) {n : ℕ} (hn : L.node n) (js : List ℕ) :
    Machine.Ring (js.foldl SudokuSolver.hide s).right (js.foldl SudokuSolver.hide s).left n
      (L.others n) := by
  rw [(rows_foldl_hide js s).1, (rows_foldl_hide js s).2]
  exact h.row n hn

lemma Rings.hideRow (h : Rings L K V s) {n : ℕ} (hn : L.node n) :
    s.hideRow n = .ok ((L.others n).foldl SudokuSolver.hide s) := by
  refine walk_ring (q := left) (T := fun done => done.foldl SudokuSolver.hide s)
    (fun done _ _ => h.row_hide hn done) (fun done x rest _ => ?_) (L.length_others hn)
  rw [List.foldl_append]
  rfl

lemma Rings.unhideRow (h : Rings L K V s) {n : ℕ} (hn : L.node n)
    (hpresent : ∀ j ∈ L.others n, Present L K V j) :
    ((L.others n).foldl SudokuSolver.hide s).unhideRow n = .ok s := by
  have hnodup : (L.others n).Nodup := (List.nodup_cons.mp (L.nodup hn).of_map).2
  refine walk_ring_undo (p := right) (T := fun done => done.foldl SudokuSolver.hide s)
    (fun done _ _ => h.row_hide hn done) (fun done x rest hl => ?_) (L.length_others hn)
  rw [hl, List.nodup_append] at hnodup
  have hdone := h.hideAll hnodup.1 fun j hj => hpresent j (by simp [hl, hj])
  have hx := hpresent x (by simp [hl])
  have hx' : x ∈ (V (L.col x)).filter (· ∉ done) := by
    refine List.mem_filter.mpr ⟨hx.mem, ?_⟩
    simpa using fun hmem => hnodup.2.2 x hmem x (List.mem_cons_self ..) rfl
  rw [List.foldl_append]
  exact congrArg Except.ok (hdone.unhide_hide ⟨hx.node, hx.col_mem, hx'⟩)

/-! ### The columns that are not covered -/

/-- The columns in `H` are not covered. The nodes in them are those of the rows all of whose columns
are not covered. -/
structure Linked (L : Layout) (H : List ℕ) (V : ℕ → List ℕ) (s : SudokuSolver) : Prop
    extends Rings L H V s where
  header : Machine.Ring s.right s.left s.root H
  root : ¬ L.node s.root
  active : ∀ c ∈ H, ∀ n ∈ V c, L.cols n ⊆ H
  complete : ∀ n, L.node n → L.cols n ⊆ H → n ∈ V (L.col n)
  length_column : ∀ c ∈ H, (V c).length < rounds
  length_header : H.length < rounds

/-- The nodes that `cover` takes out of the other columns. -/
def hidden (L : Layout) (V : ℕ → List ℕ) (c : ℕ) : List ℕ := (V c).flatMap L.others

/-- `cover` has taken out the column `c`, and the rows `done` of it from the other columns. -/
def covering (L : Layout) (s : SudokuSolver) (c : ℕ) (done : List ℕ) : SudokuSolver :=
  (done.flatMap L.others).foldl hide (s.unlinkColumn c)

variable {H : List ℕ}

namespace Linked

lemma node (h : Linked L H V s) (hc : c ∈ H) {n : ℕ} (hn : n ∈ V c) : L.node n :=
  (h.mem_column c hc n hn).1

lemma present (h : Linked L H V s) (hc : c ∈ H) {n : ℕ} (hn : n ∈ V c) (hj : j ∈ L.others n) :
    Present L H V j := by
  have hnode := h.node hc hn
  have hcols : L.cols j ⊆ H := fun x hx =>
    h.active c hc n hn ((L.cols_perm hnode hj).mem_iff.mp hx)
  have hnodej := L.node_of_mem hnode hj
  exact ⟨hnodej, hcols (List.mem_cons_self ..), h.complete j hnodej hcols⟩

/-- No node of the column itself is taken out. -/
lemma not_mem_hidden (h : Linked L H V s) (hc : c ∈ H) {n : ℕ} (hn : n ∈ V c) :
    n ∉ hidden L V c := by
  intro hmem
  obtain ⟨m, hm, hnm⟩ := List.mem_flatMap.mp hmem
  have := L.col_ne (h.node hc hm) hnm
  rw [(h.mem_column c hc n hn).2, (h.mem_column c hc m hm).2] at this
  exact this rfl

lemma nodup_hidden (h : Linked L H V s) (hc : c ∈ H) : (hidden L V c).Nodup := by
  have hV := (List.nodup_cons.mp (h.column c hc).nodup).2
  refine List.nodup_flatMap.mpr ⟨fun n hn => ?_, hV.imp_of_mem ?_⟩
  · exact (List.nodup_cons.mp (L.nodup (h.node hc hn)).of_map).2
  · intro n m hn hm hne x hxn hxm
    -- A node in both rows would have two nodes of the column in its row.
    have hnode := L.node_of_mem (h.node hc hn) hxn
    have hcol : L.col n = L.col m := by
      rw [(h.mem_column c hc n hn).2, (h.mem_column c hc m hm).2]
    exact hne (L.eq_of_col_eq hnode (List.mem_cons_of_mem x (L.mem_others_symm (h.node hc hn) hxn))
      (List.mem_cons_of_mem x (L.mem_others_symm (h.node hc hm) hxm)) hcol)

end Linked

/-! ### Taking a column out -/

lemma unlinkColumn_right (hr : s.right c ≠ c) :
    (s.unlinkColumn c).right = Function.update s.right (s.left c) (s.right c) := by
  simp [unlinkColumn, Function.update_of_ne hr.symm]

namespace Linked

lemma header_unlink (h : Linked L H V s) (hc : c ∈ H) :
    Machine.Ring (s.unlinkColumn c).right (s.unlinkColumn c).left s.root (H.filter (· ≠ c)) := by
  rw [unlinkColumn_right (h.header.next_ne hc)]
  exact h.header.unlink hc

lemma rings_unlink (h : Linked L H V s) (hc : c ∈ H) : Rings L H V (s.unlinkColumn c) := by
  have hnot : ∀ x ∈ s.root :: H, ¬ L.node x := by
    intro x hx
    rcases List.mem_cons.mp hx with rfl | hx
    · exact h.root
    · exact h.not_node x hx
  refine ⟨h.col, fun n hn => ?_, h.not_node, h.column, h.mem_column⟩
  have hnode : ∀ y ∈ n :: L.others n, L.node y := by
    intro y hy
    rcases List.mem_cons.mp hy with rfl | hy
    · exact hn
    · exact L.node_of_mem hn hy
  rw [unlinkColumn_right (h.header.next_ne hc)]
  refine (h.row n hn).congr (fun y hy => Function.update_of_ne ?_ ..)
    fun y hy => Function.update_of_ne ?_ ..
  · rintro rfl
    exact hnot _ (h.header.prev_mem hc) (hnode _ hy)
  · rintro rfl
    exact hnot _ (h.header.next_mem hc) (hnode _ hy)

lemma relink_unlink (h : Linked L H V s) (hc : c ∈ H) : (s.unlinkColumn c).relinkColumn c = s := by
  have hrn := h.header.next_ne hc
  have hln := h.header.prev_ne hc
  have hleft : Function.update s.left (s.right c) c = s.left := by
    rw [Function.update_eq_self_iff, h.header.prev_next hc]
  have hright : Function.update s.right (s.left c) c = s.right := by
    rw [Function.update_eq_self_iff, h.header.next_prev hc]
  simp [unlinkColumn, relinkColumn, Function.update_of_ne hrn.symm, Function.update_of_ne hln.symm,
    hleft, hright]

/-- The rows in `done`, which are the first ones of the column, have been taken out. -/
lemma rings_covering (h : Linked L H V s) (hc : c ∈ H) {done rest : List ℕ}
    (hV : V c = done ++ rest) :
    Rings L H (fun x => (V x).filter (· ∉ done.flatMap L.others)) (covering L s c done) ∧
      (V c).filter (· ∉ done.flatMap L.others) = V c := by
  have hsub : (done.flatMap L.others).Sublist (hidden L V c) := by
    rw [hidden, hV, List.flatMap_append]
    exact List.sublist_append_left ..
  constructor
  · refine (h.rings_unlink hc).hideAll ((h.nodup_hidden hc).sublist hsub) fun j hj => ?_
    obtain ⟨n, hn, hj⟩ := List.mem_flatMap.mp (hsub.subset hj)
    exact h.present hc hn hj
  · refine List.filter_eq_self.mpr fun n hn => ?_
    simpa using fun hmem => h.not_mem_hidden hc hn (hsub.subset hmem)

/-- The column that is being covered keeps its links. -/
lemma ring_covering (h : Linked L H V s) (hc : c ∈ H) {done rest : List ℕ}
    (hV : V c = done ++ rest) :
    Machine.Ring (covering L s c done).down (covering L s c done).up c (V c) := by
  obtain ⟨hr, hfilter⟩ := h.rings_covering hc hV
  have := hr.column c hc
  rwa [hfilter] at this

lemma hideRow_covering (h : Linked L H V s) (hc : c ∈ H) {done rest : List ℕ} {x : ℕ}
    (hV : V c = done ++ x :: rest) :
    (covering L s c done).hideRow x = .ok (covering L s c (done ++ [x])) := by
  rw [(h.rings_covering hc hV).1.hideRow (h.node hc (by simp [hV]))]
  simp [covering]

lemma unhideRow_covering (h : Linked L H V s) (hc : c ∈ H) {done rest : List ℕ} {x : ℕ}
    (hV : V c = done ++ x :: rest) :
    (covering L s c (done ++ [x])).unhideRow x = .ok (covering L s c done) := by
  have hx : x ∈ V c := by simp [hV]
  have hnodup := h.nodup_hidden hc
  rw [hidden, hV, List.flatMap_append, List.flatMap_cons, List.nodup_append] at hnodup
  have hpresent : ∀ j ∈ L.others x,
      Present L H (fun c => (V c).filter (· ∉ done.flatMap L.others)) j := by
    intro j hj
    have hp := h.present hc hx hj
    refine ⟨hp.node, hp.col_mem, List.mem_filter.mpr ⟨hp.mem, ?_⟩⟩
    simpa using fun n hn hjn => hnodup.2.2 j (List.mem_flatMap.mpr ⟨n, hn, hjn⟩) j
      (List.mem_append_left _ hj) rfl
  rw [← (h.rings_covering hc hV).1.unhideRow (h.node hc hx) hpresent]
  simp [covering]

theorem cover_eq (h : Linked L H V s) (hc : c ∈ H) : s.cover c = .ok (covering L s c (V c)) :=
  walk_ring (q := up) (T := covering L s c) (fun _ _ hV => h.ring_covering hc hV)
    (fun _ _ _ hV => h.hideRow_covering hc hV) (h.length_column c hc)

/-- `uncover` undoes `cover`. -/
theorem uncover_eq (h : Linked L H V s) (hc : c ∈ H) :
    (covering L s c (V c)).uncover c = .ok s := by
  have hwalk : walk .outOfFuel up c SudokuSolver.unhideRow rounds (covering L s c (V c))
      ((covering L s c (V c)).up c) = .ok (s.unlinkColumn c) :=
    walk_ring_undo (p := down) (T := covering L s c) (fun _ _ hV => h.ring_covering hc hV)
      (fun _ _ _ hV => h.unhideRow_covering hc hV) (h.length_column c hc)
  rw [uncover, hwalk, ok_bind, h.relink_unlink hc]
  rfl

end Linked

/-! ### Covering several columns -/

/-- `t` differs from `s` in the links and the sizes only. -/
def Relinked (s t : SudokuSolver) : Prop :=
  ∃ left right up down size, t = { s with left, right, up, down, size }

lemma Relinked.trans {s t u : SudokuSolver} (h : Relinked s t) (h' : Relinked t u) :
    Relinked s u := by
  obtain ⟨_, _, _, _, _, rfl⟩ := h
  obtain ⟨_, _, _, _, _, rfl⟩ := h'
  exact ⟨_, _, _, _, _, rfl⟩

lemma relinked_covering (s : SudokuSolver) (c : ℕ) (done : List ℕ) :
    Relinked s (covering L s c done) := by
  have hhide : ∀ (js : List ℕ) (t : SudokuSolver), Relinked t (js.foldl hide t) := by
    intro js
    induction js with
    | nil => exact fun t => ⟨_, _, _, _, _, rfl⟩
    | cons j js ih => exact fun t => Relinked.trans ⟨_, _, _, _, _, rfl⟩ (ih (t.hide j))
  exact Relinked.trans ⟨_, _, _, _, _, rfl⟩ (hhide _ (s.unlinkColumn c))

/-- What is left in the columns when `c` has been covered. -/
def uncovered (L : Layout) (V : ℕ → List ℕ) (c : ℕ) : ℕ → List ℕ :=
  fun x => (V x).filter (· ∉ hidden L V c)

namespace Linked

lemma mem_hidden (h : Linked L H V s) (hc : c ∈ H) {n : ℕ} (hn : L.node n) (hne : L.col n ≠ c)
    (hcols : L.cols n ⊆ H) : n ∈ hidden L V c ↔ c ∈ L.cols n := by
  constructor
  · intro hmem
    obtain ⟨m, hm, hnm⟩ := List.mem_flatMap.mp hmem
    have hcm : c ∈ L.cols m := by
      rw [← (h.mem_column c hc m hm).2]
      exact List.mem_cons_self ..
    exact (L.cols_perm (h.node hc hm) hnm).mem_iff.mpr hcm
  · intro hmem
    obtain ⟨m, hm, rfl⟩ := List.mem_map.mp hmem
    rcases List.mem_cons.mp hm with rfl | hm
    · exact absurd rfl hne
    · have hcols' : L.cols m ⊆ H := fun x hx => hcols ((L.cols_perm hn hm).mem_iff.mp hx)
      exact List.mem_flatMap.mpr ⟨m, h.complete m (L.node_of_mem hn hm) hcols',
        L.mem_others_symm hn hm⟩

theorem cover (h : Linked L H V s) (hc : c ∈ H) :
    Linked L (H.erase c) (uncovered L V c) (covering L s c (V c)) := by
  have hrings := (h.rings_covering hc (V c).append_nil.symm).1
  have hnodup := (List.nodup_cons.mp h.header.nodup).2
  have hsub : ∀ {x}, x ∈ H.erase c → x ∈ H := List.mem_of_mem_erase
  have hroot : (covering L s c (V c)).root = s.root := by
    obtain ⟨_, _, _, _, _, ht⟩ := relinked_covering (L := L) s c (V c)
    rw [ht]
  exact {
    col := hrings.col
    row := hrings.row
    not_node := fun x hx => hrings.not_node x (hsub hx)
    column := fun x hx => hrings.column x (hsub hx)
    mem_column := fun x hx => hrings.mem_column x (hsub hx)
    header := by
      have herase : H.erase c = H.filter (· ≠ c) := by
        rw [hnodup.erase_eq_filter]
        exact List.filter_congr fun x _ => by simp [bne, beq_eq_decide]
      rw [hroot, herase, covering, (rows_foldl_hide _ _).1, (rows_foldl_hide _ _).2]
      exact h.header_unlink hc
    root := by
      rw [hroot]
      exact h.root
    active := by
      intro x hx n hn y hy
      obtain ⟨hn, hhidden⟩ := List.mem_filter.mp hn
      obtain ⟨hxc, hx⟩ := hnodup.mem_erase_iff.mp hx
      obtain ⟨hnode, hcol⟩ := h.mem_column x hx n hn
      have hcols := h.active x hx n hn
      refine hnodup.mem_erase_iff.mpr ⟨?_, hcols hy⟩
      rintro rfl
      exact of_decide_eq_true hhidden ((h.mem_hidden hc hnode (hcol ▸ hxc) hcols).mpr hy)
    complete := by
      intro n hn hcols
      have hcols' : L.cols n ⊆ H := fun x hx => hsub (hcols hx)
      have hc' : ∀ y ∈ L.cols n, y ≠ c := fun y hy => (hnodup.mem_erase_iff.mp (hcols hy)).1
      refine List.mem_filter.mpr ⟨h.complete n hn hcols', decide_eq_true fun hmem => ?_⟩
      exact hc' c ((h.mem_hidden hc hn (hc' _ (List.mem_cons_self ..)) hcols').mp hmem) rfl
    length_column := fun x hx =>
      (List.length_filter_le ..).trans_lt (h.length_column x (hsub hx))
    length_header := (List.length_erase_le ..).trans_lt h.length_header }

end Linked

/-- Covers a column: what is left in the columns, and the state. -/
def coverColumn (L : Layout) (p : (ℕ → List ℕ) × SudokuSolver) (c : ℕ) :
    (ℕ → List ℕ) × SudokuSolver :=
  (uncovered L p.1 c, covering L p.2 c (p.1 c))

lemma relinked_coverColumns (cs : List ℕ) (p : (ℕ → List ℕ) × SudokuSolver) :
    Relinked p.2 (cs.foldl (coverColumn L) p).2 := by
  induction cs generalizing p with
  | nil => exact ⟨_, _, _, _, _, rfl⟩
  | cons c cs ih => exact (relinked_covering p.2 c (p.1 c)).trans (ih (coverColumn L p c))

namespace Linked

lemma coverColumns (h : Linked L H V s) {cs : List ℕ} (hnodup : cs.Nodup) (hsub : cs ⊆ H) :
    Linked L (H.diff cs) (cs.foldl (coverColumn L) (V, s)).1
      (cs.foldl (coverColumn L) (V, s)).2 := by
  induction cs generalizing H V s with
  | nil => exact h
  | cons c cs ih =>
    rw [List.diff_cons]
    obtain ⟨hc, hnodup⟩ := List.nodup_cons.mp hnodup
    refine ih (h.cover (hsub (List.mem_cons_self ..))) hnodup fun x hx => ?_
    have hne : x ≠ c := by
      rintro rfl
      exact hc hx
    exact (List.mem_erase_of_ne hne).mpr (hsub (List.mem_cons_of_mem c hx))

end Linked

/-- Covers the columns of the nodes in `js`. -/
def coverNodes (L : Layout) (V : ℕ → List ℕ) (s : SudokuSolver) (js : List ℕ) :
    (ℕ → List ℕ) × SudokuSolver :=
  (js.map L.col).foldl (coverColumn L) (V, s)

namespace Linked

variable {n : ℕ}

lemma coverNodes (h : Linked L H V s) (hn : L.node n) (hsub : (L.others n).map L.col ⊆ H)
    {done rest : List ℕ} (hl : L.others n = done ++ rest) :
    Linked L (H.diff (done.map L.col)) (SudokuSolver.coverNodes L V s done).1
      (SudokuSolver.coverNodes L V s done).2 := by
  have hnodup := (List.nodup_cons.mp (L.nodup hn)).2
  rw [hl, List.map_append] at hnodup hsub
  exact h.coverColumns (List.nodup_append.mp hnodup).1 fun x hx =>
    hsub (List.mem_append_left _ hx)

/-- The column of the next node is not yet covered. -/
lemma col_mem_diff (hn : L.node n) (hsub : (L.others n).map L.col ⊆ H) {done rest : List ℕ}
    {x : ℕ} (hl : L.others n = done ++ x :: rest) : L.col x ∈ H.diff (done.map L.col) := by
  have hnodup := (List.nodup_cons.mp (L.nodup hn)).2
  rw [hl, List.map_append, List.map_cons, List.nodup_append] at hnodup
  refine List.mem_diff_of_mem (hsub (by simp [hl])) fun hmem => ?_
  exact hnodup.2.2 _ hmem _ (List.mem_cons_self ..) rfl

lemma coverNodes_concat (done : List ℕ) (x : ℕ) :
    (SudokuSolver.coverNodes L V s (done ++ [x])).2 =
      covering L (SudokuSolver.coverNodes L V s done).2 (L.col x)
        ((SudokuSolver.coverNodes L V s done).1 (L.col x)) := by
  simp [SudokuSolver.coverNodes, coverColumn]

/-- The column of the next node is covered. -/
lemma cover_coverNodes (h : Linked L H V s) (hn : L.node n) (hsub : (L.others n).map L.col ⊆ H)
    {done rest : List ℕ} {x : ℕ} (hl : L.others n = done ++ x :: rest) :
    (SudokuSolver.coverNodes L V s done).2.cover
        ((SudokuSolver.coverNodes L V s done).2.col x) =
      .ok (SudokuSolver.coverNodes L V s (done ++ [x])).2 := by
  have hlinked := h.coverNodes hn hsub hl
  rw [hlinked.col x (L.node_of_mem hn (by simp [hl])), hlinked.cover_eq (col_mem_diff hn hsub hl),
    coverNodes_concat]

/-- The column of the last node is uncovered. -/
lemma uncover_coverNodes (h : Linked L H V s) (hn : L.node n) (hsub : (L.others n).map L.col ⊆ H)
    {done rest : List ℕ} {x : ℕ} (hl : L.others n = done ++ x :: rest) :
    (SudokuSolver.coverNodes L V s (done ++ [x])).2.uncover
        ((SudokuSolver.coverNodes L V s (done ++ [x])).2.col x) =
      .ok (SudokuSolver.coverNodes L V s done).2 := by
  have hlinked := h.coverNodes hn hsub hl
  have hl' : L.others n = (done ++ [x]) ++ rest := by simpa using hl
  have hlinked' := h.coverNodes hn hsub hl'
  rw [hlinked'.col x (L.node_of_mem hn (by simp [hl])), coverNodes_concat,
    hlinked.uncover_eq (col_mem_diff hn hsub hl)]

theorem coverRow_eq (h : Linked L H V s) (hn : L.node n) (hsub : (L.others n).map L.col ⊆ H) :
    s.coverRow n = .ok (SudokuSolver.coverNodes L V s (L.others n)).2 :=
  walk_ring (q := left) (T := fun done => (SudokuSolver.coverNodes L V s done).2)
    (fun _ _ hl => (h.coverNodes hn hsub hl).row n hn)
    (fun _ _ _ hl => h.cover_coverNodes hn hsub hl) (L.length_others hn)

theorem uncoverRow_eq (h : Linked L H V s) (hn : L.node n) (hsub : (L.others n).map L.col ⊆ H) :
    (SudokuSolver.coverNodes L V s (L.others n)).2.uncoverRow n = .ok s :=
  walk_ring_undo (p := right) (T := fun done => (SudokuSolver.coverNodes L V s done).2)
    (fun _ _ hl => (h.coverNodes hn hsub hl).row n hn)
    (fun _ _ _ hl => h.uncover_coverNodes hn hsub hl) (L.length_others hn)

end Linked

end SudokuSolver
end Muduo

import Muduo.Sudoku.Matrix

/-!
# Undoing

`uncover` is exact: after a column has been covered, and others covered and uncovered in the order
of brackets, it brings back the links and the sizes as they were. `Reaches` are the points that a
run of `solve` comes to, with the state at each of them; a call of `solve` that fails leaves the
state as it was.

## Main results

* `undo_exact`: at every point of a run, nested calls of `cover` and `uncover` lead back to the
  state in which they started; a call of `solve` that returns false changes nothing; and the loops
  come to their ends.
-/

namespace Muduo

open Machine Sudoku

namespace SudokuSolver

/-! ### Nested calls -/

inductive Op where
  | cover (c : ℕ)
  | uncover (c : ℕ)

def call (s : SudokuSolver) : Op → Code SudokuSolver
  | .cover c => s.cover c
  | .uncover c => s.uncover c

/-- Every call of `cover` has its call of `uncover`, as brackets have. -/
inductive Balanced : List Op → Prop
  | nil : Balanced []
  | cons {w w' : List Op} (c : ℕ) (hw : Balanced w) (hw' : Balanced w') :
      Balanced (.cover c :: (w ++ .uncover c :: w'))

/-- The column `c` is one of those that the links to the right lead to. -/
def Uncovered (s : SudokuSolver) (c : ℕ) : Prop := c ≠ s.root ∧ ∃ k, s.right^[k] s.root = c

/-- A column is covered that is not covered yet. -/
def Proper (s : SudokuSolver) : Op → Prop
  | .cover c => s.Uncovered c
  | .uncover _ => True

variable {L : Layout} {H : List ℕ} {V : ℕ → List ℕ} {s t : SudokuSolver} {c n : ℕ}
  {cell val : ℕ → ℕ}

lemma Linked.uncovered_iff (h : Linked L H V s) : s.Uncovered c ↔ c ∈ H := by
  rw [Uncovered, ← h.header.mem_iff_iterate, List.mem_cons]
  constructor
  · rintro ⟨hne, hc⟩
    exact hc.resolve_left hne
  · intro hc
    refine ⟨?_, .inr hc⟩
    rintro rfl
    exact (List.nodup_cons.mp h.header.nodup).1 hc

/-- Nested calls lead back to where they started. -/
theorem Linked.run_balanced {w : List Op} (hw : Balanced w) (h : Linked L H V s)
    (hproper : Along call Proper s w) : run call s w = .ok s := by
  induction hw generalizing H V s with
  | nil => rfl
  | @cons w w' c _ _ ih ih' =>
    have hc : c ∈ H := h.uncovered_iff.mp hproper.head
    have hcover : s.call (.cover c) = .ok (covering L s c (V c)) := h.cover_eq hc
    have huncover : (covering L s c (V c)).call (.uncover c) = .ok s := h.uncover_eq hc
    have hrest := hproper.tail hcover
    have hw := ih (h.cover hc) hrest.left
    have hw' := ih' h ((hrest.of_append hw).tail huncover)
    rw [run_cons, hcover, ok_bind, run_append, hw, ok_bind, run_cons, huncover, ok_bind, hw']

/-! ### A run of solve -/

/-- A point of the program text, with the state and the local variables. -/
inductive Point where
  /-- A call of `solve` begins. -/
  | enter (s : SudokuSolver)
  /-- The test of the loop over the rows of `col`. -/
  | rows (s : SudokuSolver) (col row : ℕ)
  /-- The test of the loop that covers the columns of `row`. -/
  | covers (s : SudokuSolver) (col row j : ℕ)
  /-- The test of the loop that uncovers them. -/
  | uncovers (s : SudokuSolver) (col row j : ℕ)
  /-- The call returns false. -/
  | leave (s : SudokuSolver)

def Point.state : Point → SudokuSolver
  | .enter s | .rows s _ _ | .covers s _ _ _ | .uncovers s _ _ _ | .leave s => s

/-- The points that a run of `solve` comes to, in its own call and in the calls that it makes. -/
inductive Reaches (s₀ : SudokuSolver) : Point → Prop
  | start : Reaches s₀ (.enter s₀)
  | cover {s t : SudokuSolver} {col : ℕ} (h : Reaches s₀ (.enter s)) (hne : s.left s.root ≠ s.root)
      (hmin : s.getMinColumn = .ok col) (ht : s.cover col = .ok t) :
      Reaches s₀ (.rows t col (t.down col))
  | push {s : SudokuSolver} {col row : ℕ} (h : Reaches s₀ (.rows s col row)) (hne : row ≠ col) :
      Reaches s₀ (.covers { s with stack := s.stack ++ [row] } col row (s.right row))
  | coverNext {s t : SudokuSolver} {col row j : ℕ} (h : Reaches s₀ (.covers s col row j))
      (hne : j ≠ row) (ht : s.cover (s.col j) = .ok t) :
      Reaches s₀ (.covers t col row (t.right j))
  | call {s : SudokuSolver} {col row : ℕ} (h : Reaches s₀ (.covers s col row row)) :
      Reaches s₀ (.enter s)
  | pop {s t : SudokuSolver} {col row fuel : ℕ} (h : Reaches s₀ (.covers s col row row))
      (ht : solve fuel s = .ok (false, t)) :
      Reaches s₀ (.uncovers { t with stack := t.stack.dropLast } col row (t.left row))
  | uncoverNext {s t : SudokuSolver} {col row j : ℕ} (h : Reaches s₀ (.uncovers s col row j))
      (hne : j ≠ row) (ht : s.uncover (s.col j) = .ok t) :
      Reaches s₀ (.uncovers t col row (t.left j))
  | nextRow {s : SudokuSolver} {col row : ℕ} (h : Reaches s₀ (.uncovers s col row row)) :
      Reaches s₀ (.rows s col (s.down row))
  | uncover {s t : SudokuSolver} {col : ℕ} (h : Reaches s₀ (.rows s col col))
      (ht : s.uncover col = .ok t) : Reaches s₀ (.leave t)

/-- The call of `cover` or `uncover` that is made at a point comes to its end. -/
def Point.Ends : Point → Prop
  | .enter s => s.left s.root ≠ s.root → Yields (s.getMinColumn >>= s.cover) fun _ => True
  | .rows s col row => row = col → Yields (s.uncover col) fun _ => True
  | .covers s _ row j => j ≠ row → Yields (s.cover (s.col j)) fun _ => True
  | .uncovers s _ row j => j ≠ row → Yields (s.uncover (s.col j)) fun _ => True
  | .leave _ => True

/-! ### More fuel -/

lemma tryRows_mono {f g : SudokuSolver → Code (Bool × SudokuSolver)}
    (hfg : ∀ s r, f s = .ok r → g s = .ok r) {col k row : ℕ} {r : Bool × SudokuSolver}
    (h : tryRows f col k s row = .ok r) : tryRows g col k s row = .ok r := by
  induction k generalizing s row with
  | zero => exact h
  | succ k ih =>
    rw [tryRows] at h ⊢
    split at h
    · next heq =>
      rw [if_pos heq]
      exact h
    · next hne =>
      rw [if_neg hne]
      obtain ⟨u, hu, h⟩ := bind_eq_ok.mp h
      obtain ⟨⟨found, v⟩, hv, h⟩ := bind_eq_ok.mp h
      rw [hu, ok_bind, hfg u _ hv, ok_bind]
      dsimp only at h ⊢
      split at h
      · next hfound =>
        rw [if_pos hfound]
        exact h
      · next hfound =>
        obtain ⟨w, hw, h⟩ := bind_eq_ok.mp h
        rw [if_neg hfound, hw, ok_bind]
        exact ih h

lemma solve_succ {fuel : ℕ} {r : Bool × SudokuSolver} (h : solve fuel s = .ok r) :
    solve (fuel + 1) s = .ok r := by
  induction fuel generalizing s r with
  | zero => cases h
  | succ fuel ih =>
    rw [solve] at h ⊢
    split at h
    · next heq =>
      rw [if_pos heq]
      exact h
    · next hne =>
      rw [if_neg hne]
      obtain ⟨col, hcol, h⟩ := bind_eq_ok.mp h
      obtain ⟨u, hu, h⟩ := bind_eq_ok.mp h
      obtain ⟨p, hp, h⟩ := bind_eq_ok.mp h
      rw [hcol, ok_bind, hu, ok_bind, tryRows_mono (fun s r => ih) hp, ok_bind]
      exact h

lemma solve_of_le {fuel fuel' : ℕ} {r : Bool × SudokuSolver} (h : solve fuel s = .ok r)
    (hle : fuel ≤ fuel') : solve fuel' s = .ok r := by
  induction hle with
  | refl => exact h
  | step _ ih => exact solve_succ ih

/-! ### The states of a run -/

/-- A state in which `solve` can be called. -/
structure Ready (L : Layout) (cell val : ℕ → ℕ) (H : List ℕ) (V : ℕ → List ℕ)
    (s : SudokuSolver) : Prop extends Linked L H V s where
  labelled : Labelled L cell val s.name
  stack_node : ∀ n ∈ s.stack, L.node n

lemma Ready.relinked {H' : List ℕ} {V' : ℕ → List ℕ} (h : Ready L cell val H V s)
    (hst : Relinked s t) (ht : Linked L H' V' t) : Ready L cell val H' V' t := by
  obtain ⟨_, _, _, _, _, rfl⟩ := hst
  exact ⟨ht, h.labelled, h.stack_node⟩

/-- A call that returns false changes nothing. -/
lemma Ready.solve_false (h : Ready L cell val H V s) {fuel : ℕ}
    (ht : solve fuel s = .ok (false, t)) : t = s := by
  have hmore := solve_of_le ht (Nat.le_add_right fuel (H.length + 1))
  obtain ⟨r, hr, hsearched⟩ := solves L cell val (fuel + (H.length + 1)) h.toLinked h.labelled
    h.stack_node (by omega)
  rw [hmore] at hr
  cases hr
  cases hsearched
  rfl

/-- The column `c` has been covered, and so have the columns of the nodes in `done`. -/
def covered (L : Layout) (V : ℕ → List ℕ) (s : SudokuSolver) (c : ℕ) (stack done : List ℕ) :
    SudokuSolver :=
  (coverNodes L (uncovered L V c) { covering L s c (V c) with stack := stack } done).2

lemma stack_covering (s : SudokuSolver) (c : ℕ) (done : List ℕ) :
    (covering L s c done).stack = s.stack := by
  obtain ⟨_, _, _, _, _, ht⟩ := relinked_covering (L := L) s c done
  rw [ht]

lemma covered_nil : covered L V s c s.stack [] = covering L s c (V c) := by
  rw [← stack_covering s c (V c)]
  rfl

/-- `n` is taken off the stack. -/
lemma covered_pop {stack done : List ℕ} :
    { covered L V s c (stack ++ [n]) done with
      stack := (covered L V s c (stack ++ [n]) done).stack.dropLast } =
      covered L V s c stack done := by
  simp [covered, coverNodes_stack]

lemma headD_eq_self_iff {l : List ℕ} (hn : n ∉ l) : n = l.headD n ↔ l = [] := by
  cases l with
  | nil => simp
  | cons x l => simpa using List.ne_of_not_mem_cons hn

section

variable (h : Ready L cell val H V s) (hc : c ∈ H) (hn : n ∈ V c) (stack : List ℕ)
  {done rest : List ℕ}

include h hc hn

lemma Ready.linked_covered (hl : L.others n = done ++ rest) :
    Linked L ((H.erase c).diff (done.map L.col))
      (coverNodes L (uncovered L V c) { covering L s c (V c) with stack := stack } done).1
      (covered L V s c stack done) :=
  ((h.cover hc).stack stack).coverNodes (h.belongs hc hn).node (h.belongs hc hn).subset hl

/-- The loop that covers the columns of the row goes on to the next node. -/
lemma Ready.cover_covered (hl : L.others n = done ++ rest) (hne : rest.headD n ≠ n) :
    ∃ x rest', rest = x :: rest' ∧
      (covered L V s c stack done).cover ((covered L V s c stack done).col (rest.headD n)) =
        .ok (covered L V s c stack (done ++ [x])) := by
  cases rest with
  | nil => exact absurd rfl hne
  | cons x rest =>
    have hb := h.belongs hc hn
    exact ⟨x, rest, rfl, ((h.cover hc).stack stack).cover_coverNodes hb.node hb.subset hl⟩

/-- The loop that uncovers them goes back to the node before. -/
lemma Ready.uncover_covered (hl : L.others n = done ++ rest) (hne : done.reverse.headD n ≠ n) :
    ∃ x done', done = done' ++ [x] ∧
      (covered L V s c stack done).uncover
          ((covered L V s c stack done).col (done.reverse.headD n)) =
        .ok (covered L V s c stack done') := by
  rcases List.eq_nil_or_concat' done with rfl | ⟨done, x, rfl⟩
  · exact absurd rfl hne
  · have hb := h.belongs hc hn
    rw [List.append_assoc] at hl
    rw [List.reverse_concat, List.headD_cons]
    exact ⟨x, done, rfl, ((h.cover hc).stack stack).uncover_coverNodes hb.node hb.subset hl⟩

/-- The links of the row are the same all the time. -/
lemma Ready.row_covered (hl : L.others n = done ++ rest) :
    Machine.Ring (covered L V s c stack done).right (covered L V s c stack done).left n
      (L.others n) :=
  (h.linked_covered hc hn stack hl).row n (h.belongs hc hn).node

/-- When all columns of the row have been covered, `solve` can be called. -/
lemma Ready.ready_covered :
    ∃ H' V', Ready L cell val H' V' (covered L V s c (s.stack ++ [n]) (L.others n)) := by
  have hcover := h.relinked (relinked_covering s c (V c)) (h.cover hc)
  have hpush : Ready L cell val (H.erase c) (uncovered L V c)
      { covering L s c (V c) with stack := s.stack ++ [n] } := by
    refine ⟨hcover.stack _, hcover.labelled, fun m hm => ?_⟩
    rcases List.mem_append.mp hm with hm | hm
    · exact h.stack_node m hm
    · rw [List.mem_singleton.mp hm]
      exact (h.belongs hc hn).node
  exact ⟨_, _, hpush.relinked (relinked_coverColumns _ (uncovered L V c, _))
    (h.linked_covered hc hn _ (List.append_nil _).symm)⟩

lemma Ready.not_mem_others : n ∉ L.others n :=
  (List.nodup_cons.mp (L.nodup (h.belongs hc hn).node).of_map).1

/-- The loop over the row ends when all of it has been visited. -/
lemma Ready.eq_others (hl : L.others n = done ++ rest) (hj : n = rest.headD n) :
    done = L.others n := by
  have hnot : n ∉ rest := fun hmem => h.not_mem_others hc hn (by
    rw [hl]
    exact List.mem_append_right done hmem)
  rw [hl, (headD_eq_self_iff hnot).mp hj, List.append_nil]

end

/-- What is known at a point, where `s` is the state in which the call was made. -/
def Known (L : Layout) (cell val : ℕ → ℕ) : Point → Prop
  | .enter s => ∃ H V, Ready L cell val H V s
  | .rows t c n => ∃ H V s, Ready L cell val H V s ∧ c ∈ H ∧ n ∈ c :: V c ∧
      t = covering L s c (V c)
  | .covers t c n j => ∃ H V s done rest, Ready L cell val H V s ∧ c ∈ H ∧ n ∈ V c ∧
      L.others n = done ++ rest ∧ t = covered L V s c (s.stack ++ [n]) done ∧ j = rest.headD n
  | .uncovers t c n j => ∃ H V s done rest, Ready L cell val H V s ∧ c ∈ H ∧ n ∈ V c ∧
      L.others n = done ++ rest ∧ t = covered L V s c s.stack done ∧ j = done.reverse.headD n
  | .leave s => ∃ H V, Ready L cell val H V s

lemma Reaches.known {s₀ : SudokuSolver} {p : Point} (h₀ : Ready L cell val H V s₀)
    (hp : Reaches s₀ p) : Known L cell val p := by
  induction hp with
  | start => exact ⟨H, V, h₀⟩
  | cover _ hne hmin ht ih =>
    obtain ⟨H, V, h⟩ := ih
    obtain ⟨c, hmin', hc⟩ := h.getMinColumn (mt h.header.prev_eq_iff.mpr hne)
    rw [hmin] at hmin'
    cases hmin'
    rw [h.cover_eq hc] at ht
    cases ht
    have hring := h.ring_covering hc (V _).append_nil.symm
    exact ⟨H, V, _, h, hc, hring.next_mem_ring (List.mem_cons_self ..), rfl⟩
  | push _ hne ih =>
    obtain ⟨H, V, s, h, hc, hn, rfl⟩ := ih
    have hn := (List.mem_cons.mp hn).resolve_left hne
    refine ⟨H, V, s, [], _, h, hc, hn, rfl, ?_, ?_⟩
    · rw [stack_covering]
      rfl
    · exact ((h.cover hc).row _ (h.belongs hc hn).node).next_head
  | @coverNext _ _ _ n _ _ hne ht ih =>
    obtain ⟨H, V, s, done, rest, h, hc, hn, hl, rfl, rfl⟩ := ih
    obtain ⟨x, rest, rfl, hcover⟩ := h.cover_covered hc hn _ hl hne
    have hl' : L.others n = (done ++ [x]) ++ rest := by simpa using hl
    rw [hcover] at ht
    cases ht
    exact ⟨H, V, s, _, rest, h, hc, hn, hl', rfl, (h.row_covered hc hn _ hl').next_of_append hl⟩
  | call _ ih =>
    obtain ⟨H, V, s, done, rest, h, hc, hn, hl, rfl, hj⟩ := ih
    rw [h.eq_others hc hn hl hj]
    exact h.ready_covered hc hn
  | @pop _ _ _ n _ _ ht ih =>
    obtain ⟨H, V, s, done, rest, h, hc, hn, hl, rfl, hj⟩ := ih
    rw [h.eq_others hc hn hl hj] at ht
    obtain ⟨H', V', hready⟩ := h.ready_covered hc hn
    rw [hready.solve_false ht, covered_pop]
    have hall : L.others n = L.others n ++ [] := (List.append_nil _).symm
    exact ⟨H, V, s, _, [], h, hc, hn, hall, rfl, (h.row_covered hc hn _ hall).reverse.next_head⟩
  | @uncoverNext _ _ _ n _ _ hne ht ih =>
    obtain ⟨H, V, s, done, rest, h, hc, hn, hl, rfl, rfl⟩ := ih
    obtain ⟨x, done, rfl, huncover⟩ := h.uncover_covered hc hn _ hl hne
    have hl' : L.others n = done ++ x :: rest := by simpa using hl
    rw [huncover] at ht
    cases ht
    rw [List.reverse_concat, List.headD_cons]
    exact ⟨H, V, s, done, _, h, hc, hn, hl', rfl,
      (h.row_covered hc hn _ hl').prev_of_append hl'⟩
  | @nextRow _ _ n _ ih =>
    obtain ⟨H, V, s, done, rest, h, hc, hn, hl, rfl, hj⟩ := ih
    have hnot : n ∉ done.reverse := fun hmem => h.not_mem_others hc hn (by
      rw [hl]
      exact List.mem_append_left _ (List.mem_reverse.mp hmem))
    obtain rfl := List.reverse_eq_nil_iff.mp ((headD_eq_self_iff hnot).mp hj)
    rw [covered_nil]
    have hring := h.ring_covering hc (V _).append_nil.symm
    exact ⟨H, V, s, h, hc, hring.next_mem hn, rfl⟩
  | uncover _ ht ih =>
    obtain ⟨H, V, s, h, hc, -, rfl⟩ := ih
    rw [h.uncover_eq hc] at ht
    cases ht
    exact ⟨H, V, h⟩

/-! ### What holds at every point -/

lemma Known.linked {p : Point} (hp : Known L cell val p) : ∃ H V, Linked L H V p.state := by
  cases p with
  | enter s =>
    obtain ⟨H, V, h⟩ := hp
    exact ⟨H, V, h.toLinked⟩
  | rows t c n =>
    obtain ⟨H, V, s, h, hc, -, rfl⟩ := hp
    exact ⟨_, _, h.cover hc⟩
  | covers t c n j =>
    obtain ⟨H, V, s, done, rest, h, hc, hn, hl, rfl, -⟩ := hp
    exact ⟨_, _, h.linked_covered hc hn _ hl⟩
  | uncovers t c n j =>
    obtain ⟨H, V, s, done, rest, h, hc, hn, hl, rfl, -⟩ := hp
    exact ⟨_, _, h.linked_covered hc hn _ hl⟩
  | leave s =>
    obtain ⟨H, V, h⟩ := hp
    exact ⟨H, V, h.toLinked⟩

lemma Known.ends {p : Point} (hp : Known L cell val p) : p.Ends := by
  cases p with
  | enter s =>
    obtain ⟨H, V, h⟩ := hp
    intro hne
    obtain ⟨c, hmin, hc⟩ := h.getMinColumn (mt h.header.prev_eq_iff.mpr hne)
    rw [hmin, ok_bind]
    exact ⟨_, h.cover_eq hc, trivial⟩
  | rows t c n =>
    obtain ⟨H, V, s, h, hc, -, rfl⟩ := hp
    exact fun _ => ⟨_, h.uncover_eq hc, trivial⟩
  | covers t c n j =>
    obtain ⟨H, V, s, done, rest, h, hc, hn, hl, rfl, rfl⟩ := hp
    intro hne
    obtain ⟨x, rest, rfl, hcover⟩ := h.cover_covered hc hn _ hl hne
    exact ⟨_, hcover, trivial⟩
  | uncovers t c n j =>
    obtain ⟨H, V, s, done, rest, h, hc, hn, hl, rfl, rfl⟩ := hp
    intro hne
    obtain ⟨x, done, rfl, huncover⟩ := h.uncover_covered hc hn _ hl hne
    exact ⟨_, huncover, trivial⟩
  | leave s => trivial

lemma construct_ready (board : ℕ → ℤ) :
    Yields (construct board) fun s => ∃ L cell val H V, Ready L cell val H V s := by
  obtain ⟨s, hs, ⟨H, rows, hrows, hconstructed⟩, hstack, -⟩ := construct_constructed board
  have h : IsMatrix board H rows s := ⟨hconstructed, hrows⟩
  obtain ⟨row, hrow⟩ := IsMatrix.exists_row rows
  exact ⟨s, hs, _, _, _, _, _, h.linked, h.labelled hrow, by simp [hstack]⟩

/-- For every board. -/
theorem undo_exact (board : ℕ → ℤ) :
    Yields (construct board) fun s₀ =>
      (∀ p, Reaches s₀ p → ∀ c w, Balanced w →
        Along call Proper p.state (.cover c :: (w ++ [.uncover c])) →
        run call p.state (.cover c :: (w ++ [.uncover c])) = .ok p.state) ∧
      (∀ s fuel t, Reaches s₀ (.enter s) → solve fuel s = .ok (false, t) → t = s) ∧
      ∀ p, Reaches s₀ p → p.Ends := by
  obtain ⟨s₀, hs₀, L, cell, val, H, V, h₀⟩ := construct_ready board
  refine ⟨s₀, hs₀, ?_, ?_, fun p hp => (hp.known h₀).ends⟩
  · intro p hp c w hw hproper
    obtain ⟨H, V, h⟩ := (hp.known h₀).linked
    exact h.run_balanced (.cons c hw .nil) hproper
  · intro s fuel t hs ht
    obtain ⟨H, V, h⟩ := hs.known h₀
    exact h.solve_false ht

end SudokuSolver
end Muduo

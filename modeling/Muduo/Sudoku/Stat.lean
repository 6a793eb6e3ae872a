import Muduo.Base.Code
import Muduo.Machine.Loop
import Muduo.Machine.Size
import Muduo.Machine.Window

/-!
# Statistics of the Sudoku server

`SudokuStat` of `sudoku/stat.h` counts the responses of the last minute, second by second, and adds
up their latencies. The two circular buffers are windows of functions of the time: the number of
responses in a second, and the sum of their latencies. A response in the last second, a later one or
an earlier one changes these functions at its second and moves the windows on.

The sums are of type `int64_t` and wrap around.

## Main results

* `window_exact`: the window ends with the newest second, every second in it has its number of
  responses and the sum of their latencies, and the window does not move back.
-/

namespace Muduo

open Machine

namespace Sudoku

def kSeconds : ℕ := 60

/-- A call of `recordResponse`. The times are in microseconds. -/
structure Response where
  now : ℤ
  receive : ℤ
  solved : Bool
  deriving DecidableEq

namespace Response

/-- `now.secondsSinceEpoch()`. -/
def second (r : Response) : ℤ := r.now.tdiv (1000 * 1000)

/-- `elapsed_us`. -/
def elapsed (r : Response) : ℤ := int64 (r.now - r.receive)

end Response

end Sudoku

open Sudoku

structure SudokuStat where
  lastSecond : ℤ
  requests : List ℤ
  latencies : List ℤ
  totalRequests : ℤ
  totalResponses : ℤ
  totalSolved : ℤ
  badRequests : ℤ
  droppedRequests : ℤ
  totalLatency : ℤ
  badLatency : ℤ
  deriving DecidableEq

namespace SudokuStat

def new : SudokuStat := ⟨0, [], [], 0, 0, 0, 0, 0, 0, 0⟩

/-- `droppedRequests_` is not reset. -/
def reset (s : SudokuStat) : SudokuStat := { new with droppedRequests := s.droppedRequests }

/-- The second of the front element. -/
def firstSecond (s : SudokuStat) : ℤ := s.lastSecond - s.requests.length + 1

/-- `requests_.push_back(0); latencies_.push_back(0);`. -/
def pushBack (s : SudokuStat) : SudokuStat :=
  { s with
    requests := pushBounded kSeconds s.requests 0
    latencies := pushBounded kSeconds s.latencies 0 }

/-- `requests_.clear(); latencies_.clear();`. -/
def clear (s : SudokuStat) : SudokuStat := { s with requests := [], latencies := [] }

/-- `++requests_[idx]; latencies_[idx] += elapsed_us;`. -/
def addAt (s : SudokuStat) (idx : ℕ) (elapsed : ℤ) : Code SudokuStat := do
  check .statIndex (idx < s.requests.length)
  check .statIndex (idx < s.latencies.length)
  return { s with
    requests := s.requests.modify idx (· + 1)
    latencies := s.latencies.modify idx fun x => int64 (x + elapsed) }

/-- `++requests_.back(); latencies_.back() += elapsed_us;`. -/
def addToBack (s : SudokuStat) (elapsed : ℤ) : Code SudokuStat := do
  check .statBack (s.requests ≠ [] ∧ s.latencies ≠ [])
  return { s with
    requests := s.requests.modify (s.requests.length - 1) (· + 1)
    latencies := s.latencies.modify (s.latencies.length - 1) fun x => int64 (x + elapsed) }

/-- A round of `while (lastSecond_ < second)`. -/
def advanceRound (second : ℤ) (s : SudokuStat) : Code (Round SudokuStat) :=
  if s.lastSecond < second then
    return .again { s.pushBack with lastSecond := s.lastSecond + 1 }
  else
    return .stop s

def advance (s : SudokuStat) (second : ℤ) : Code SudokuStat :=
  loop .outOfFuel (advanceRound second) (fun s => (second - s.lastSecond).toNat) s

/-- The part of `recordResponse` for a latency that is not negative. -/
def record (s : SudokuStat) (second elapsed : ℤ) : Code SudokuStat :=
  if s.lastSecond = second then
    s.addToBack elapsed
  else if s.lastSecond + 1 = second ∨ s.lastSecond = 0 then
    { s with lastSecond := second }.pushBack.addToBack elapsed
  else if s.lastSecond < second then
    if second < s.lastSecond + kSeconds then do
      let s ← s.advance second
      s.addToBack elapsed
    else
      { s.clear with lastSecond := second }.pushBack.addToBack elapsed
  else if s.firstSecond ≤ second then do
    let idx := (second - s.firstSecond).toNat
    check .statIndex (idx < s.requests.length)
    s.addAt idx elapsed
  else do
    check .statDiscard (second < s.firstSecond)
    return s

def recordResponse (s : SudokuStat) (r : Response) : Code SudokuStat := do
  check .statSizes (s.requests.length = s.latencies.length)
  let s := { s with
    totalResponses := s.totalResponses + 1
    totalSolved := if r.solved then s.totalSolved + 1 else s.totalSolved }
  if r.elapsed < 0 then
    return { s with badLatency := s.badLatency + 1 }
  else do
    let s ← { s with totalLatency := int64 (s.totalLatency + r.elapsed) }.record r.second r.elapsed
    check .statSizes (s.requests.length = s.latencies.length)
    return s

/-! ### Windows of functions -/

/-- One function of the time is counted up at a second. -/
def bump (f : ℤ → ℤ) (second x : ℤ) : ℤ → ℤ := Function.update f second (f second + x)

/-- The buffers are windows of `f` and of `g` that end with the last second. Behind it there is
nothing. -/
structure Shows (f g : ℤ → ℤ) (first : ℤ) (n : ℕ) (s : SudokuStat) : Prop where
  requests : s.requests = window f first n
  latencies : s.latencies = window (int64 ∘ g) first n
  last : first + n = s.lastSecond + 1
  size_le : n ≤ kSeconds
  beyond : ∀ second, s.lastSecond < second → f second = 0 ∧ g second = 0

variable {f g : ℤ → ℤ} {first second elapsed : ℤ} {n : ℕ} {s : SudokuStat}

lemma bump_of_lt {x place : ℤ} (h : second < place) : bump f second x place = f place :=
  Function.update_of_ne (by omega) ..

/-- The sums wrap around, and wrapping around in between makes no difference. -/
lemma int64_comp_bump (g : ℤ → ℤ) (second elapsed : ℤ) :
    int64 ∘ bump g second elapsed =
      Function.update (int64 ∘ g) second (int64 ((int64 ∘ g) second + elapsed)) := by
  rw [bump, Function.comp_update]
  congr 1
  exact Int.bmod_add_bmod.symm

namespace Shows

lemma length_requests (h : Shows f g first n s) : s.requests.length = n := by
  rw [h.requests, length_window]

lemma length_latencies (h : Shows f g first n s) : s.latencies.length = n := by
  rw [h.latencies, length_window]

lemma firstSecond_eq (h : Shows f g first n s) : s.firstSecond = first := by
  have hlast := h.last
  rw [firstSecond, h.length_requests]
  omega

lemma beyond_bump (h : Shows f g first n s) (hsecond : second ≤ s.lastSecond) {place : ℤ}
    (hplace : s.lastSecond < place) :
    bump f second 1 place = 0 ∧ bump g second elapsed place = 0 := by
  rw [bump_of_lt (by omega), bump_of_lt (by omega)]
  exact h.beyond place hplace

lemma of_empty (hrequests : s.requests = []) (hlatencies : s.latencies = [])
    (hbeyond : ∀ second, s.lastSecond < second → f second = 0 ∧ g second = 0) :
    Shows f g (s.lastSecond + 1) 0 s :=
  ⟨hrequests, hlatencies, by simp, Nat.zero_le _, hbeyond⟩

/-- The next second is put in. -/
lemma next (h : Shows f g first n s) :
    ∃ first' n', first ≤ first' ∧ 0 < n' ∧
      Shows f g first' n' { s.pushBack with lastSecond := s.lastSecond + 1 } := by
  have hlast := h.last
  obtain ⟨hf, hg⟩ := h.beyond (first + n) (by omega)
  have hg' : (int64 ∘ g) (first + n) = 0 := by
    rw [Function.comp_apply, hg]
    rfl
  have hrequests := pushBounded_window (by decide : 0 < kSeconds) h.size_le f first
  have hlatencies := pushBounded_window (by decide : 0 < kSeconds) h.size_le (int64 ∘ g) first
  rw [hf, ← h.requests] at hrequests
  rw [hg', ← h.latencies] at hlatencies
  have hbeyond : ∀ second, s.lastSecond + 1 < second → f second = 0 ∧ g second = 0 :=
    fun second hsecond => h.beyond second (by omega)
  rcases Nat.lt_or_ge n kSeconds with hn | hn
  · rw [if_pos hn] at hrequests hlatencies
    exact ⟨first, n + 1, le_rfl, n.succ_pos, hrequests, hlatencies, by push_cast; omega, hn,
      hbeyond⟩
  · rw [if_neg (by omega)] at hrequests hlatencies
    exact ⟨first + 1, n, by omega, by unfold kSeconds at hn; omega, hrequests, hlatencies,
      by simp only; omega, h.size_le, hbeyond⟩

/-- A response in a second of the window. -/
lemma modify (h : Shows f g first n s) {i : ℕ} (hi : i < n) (elapsed : ℤ) :
    Shows (bump f (first + i) 1) (bump g (first + i) elapsed) first n
      { s with
        requests := s.requests.modify i (· + 1)
        latencies := s.latencies.modify i fun x => int64 (x + elapsed) } where
  requests := by
    rw [h.requests, modify_window]
    rfl
  latencies := by
    rw [h.latencies, modify_window, int64_comp_bump]
  last := h.last
  size_le := h.size_le
  beyond := fun place hplace => h.beyond_bump (by have := h.last; omega) hplace

/-- A response before the window. -/
lemma discard (h : Shows f g first n s) (hsecond : second < first) :
    Shows (bump f second 1) (bump g second elapsed) first n s where
  requests := by rw [bump, window_update_of_lt hsecond, h.requests]
  latencies := by rw [int64_comp_bump, window_update_of_lt hsecond, h.latencies]
  last := h.last
  size_le := h.size_le
  beyond := fun place hplace => h.beyond_bump (by have := h.last; omega) hplace

end Shows

/-! ### A response -/

/-- The functions are `f` and `g`, and the window ends with `last` and does not start before
`first`. -/
def Keeps (f g : ℤ → ℤ) (first last : ℤ) (s : SudokuStat) : Prop :=
  ∃ first' n, first ≤ first' ∧ 0 < n ∧ Shows f g first' n s ∧ s.lastSecond = last

lemma Keeps.of_le {first' last : ℤ} (h : Keeps f g first' last s) (hle : first ≤ first') :
    Keeps f g first last s := by
  obtain ⟨first'', n, hfirst, hshows⟩ := h
  exact ⟨first'', n, hle.trans hfirst, hshows⟩

namespace Shows

lemma addAt_yields (h : Shows f g first n s) (hfirst : first ≤ second)
    (hsecond : second ≤ s.lastSecond) :
    Yields (s.addAt (second - first).toNat elapsed)
      (Keeps (bump f second 1) (bump g second elapsed) first s.lastSecond) := by
  have hlast := h.last
  have hi : (second - first).toNat < n := by omega
  have hplace : first + (second - first).toNat = second := by omega
  have hmodify := h.modify hi elapsed
  rw [hplace] at hmodify
  refine ⟨_, ?_, first, n, le_rfl, by omega, hmodify, rfl⟩
  rw [addAt, check_of (by rwa [h.length_requests]), ok_bind,
    check_of (by rwa [h.length_latencies]), ok_bind]
  rfl

lemma addToBack_yields (h : Shows f g first n s) (hn : 0 < n) :
    Yields (s.addToBack elapsed)
      (Keeps (bump f s.lastSecond 1) (bump g s.lastSecond elapsed) first s.lastSecond) := by
  have hlast := h.last
  have hmodify := h.modify (Nat.sub_lt hn Nat.one_pos) elapsed
  rw [show first + (n - 1 : ℕ) = s.lastSecond by omega] at hmodify
  refine ⟨_, ?_, first, n, le_rfl, hn, hmodify, rfl⟩
  have hback : s.requests ≠ [] ∧ s.latencies ≠ [] := by
    rw [← List.length_pos_iff, ← List.length_pos_iff, h.length_requests, h.length_latencies]
    exact ⟨hn, hn⟩
  rw [addToBack, check_of hback, ok_bind, h.length_requests, h.length_latencies]
  rfl

/-- The next second is put in, and the response is one of that second. -/
lemma addToNext_yields (h : Shows f g first n s) :
    Yields (addToBack { s.pushBack with lastSecond := s.lastSecond + 1 } elapsed)
      (Keeps (bump f (s.lastSecond + 1) 1) (bump g (s.lastSecond + 1) elapsed) first
        (s.lastSecond + 1)) := by
  obtain ⟨first', n', hfirst, hn', hnext⟩ := h.next
  obtain ⟨t, ht, hkeeps⟩ := hnext.addToBack_yields hn'
  exact ⟨t, ht, hkeeps.of_le hfirst⟩

/-- The buffers are empty, and start with the second of the response. -/
lemma addToFirst_yields (s : SudokuStat) (hrequests : s.requests = [])
    (hlatencies : s.latencies = [])
    (hbeyond : ∀ place, second ≤ place → f place = 0 ∧ g place = 0) (hfirst : first ≤ second) :
    Yields ({ s with lastSecond := second }.pushBack.addToBack elapsed)
      (Keeps (bump f second 1) (bump g second elapsed) first second) := by
  -- The same buffers one second earlier.
  have hempty := @of_empty f g { s with lastSecond := second - 1 } hrequests hlatencies
    fun place hplace => hbeyond place (by simp only at hplace; omega)
  obtain ⟨t, ht, hkeeps⟩ := hempty.addToNext_yields
  simp only [Int.sub_add_cancel] at ht hkeeps
  exact ⟨t, ht, hkeeps.of_le hfirst⟩

lemma advance_yields (h : Shows f g first n s) (hn : 0 < n) (hsecond : s.lastSecond ≤ second) :
    Yields (s.advance second) fun t =>
      t.lastSecond = second ∧ ∃ first' n', first ≤ first' ∧ 0 < n' ∧ Shows f g first' n' t := by
  refine loop_yields ?_ (I := fun t => t.lastSecond ≤ second ∧ ∃ first' n', first ≤ first' ∧
    0 < n' ∧ Shows f g first' n' t) ?_ ⟨hsecond, first, n, le_rfl, hn, h⟩
  · intro u t ht
    rw [advanceRound] at ht
    split at ht
    · cases ht
      simp only
      omega
    · cases ht
  · rintro u ⟨hu, first', n', hfirst, hn', hshows⟩
    rw [advanceRound]
    split
    · obtain ⟨first'', n'', hfirst', hnext⟩ := hshows.next
      exact ⟨_, rfl, by simp only; omega, first'', n'', hfirst.trans hfirst', hnext⟩
    · exact ⟨_, rfl, by omega, first', n', hfirst, hn', hshows⟩

end Shows

/-- No response has been counted, or the window ends with the second of one. -/
def Started (n : ℕ) (s : SudokuStat) : Prop :=
  s.lastSecond = 0 ∧ n = 0 ∨ 1 ≤ s.lastSecond ∧ 0 < n

/-- The spec of the five branches. -/
lemma record_yields (h : Shows f g first n s) (hs : Started n s) (hsecond : 1 ≤ second) :
    Yields (s.record second elapsed)
      (Keeps (bump f second 1) (bump g second elapsed) first (max s.lastSecond second)) := by
  have hlast := h.last
  rw [record]
  split_ifs with hsame hnext hahead hwithin hbehind
  · obtain ⟨hzero, -⟩ | ⟨hpos, hn⟩ := hs
    · omega
    · subst hsame
      rw [max_self]
      exact h.addToBack_yields hn
  · rw [max_eq_right (by omega)]
    obtain ⟨hzero, rfl⟩ | ⟨hpos, hn⟩ := hs
    · exact Shows.addToFirst_yields s h.requests h.latencies
        (fun place hplace => h.beyond place (by omega)) (by omega)
    · obtain rfl : s.lastSecond + 1 = second := by omega
      exact h.addToNext_yields
  · obtain ⟨hzero, -⟩ | ⟨hpos, hn⟩ := hs
    · omega
    · obtain ⟨t, ht, rfl, first', n', hfirst, hn', hshows⟩ := h.advance_yields hn hahead.le
      obtain ⟨u, hu, hkeeps⟩ := hshows.addToBack_yields hn'
      rw [ht, ok_bind, max_eq_right hahead.le]
      exact ⟨u, hu, hkeeps.of_le hfirst⟩
  · rw [max_eq_right (by omega)]
    exact Shows.addToFirst_yields s.clear rfl rfl
      (fun place hplace => h.beyond place (by omega)) (by omega)
  · rw [h.firstSecond_eq] at hbehind ⊢
    dsimp only
    rw [check_of (by rw [h.length_requests]; omega), ok_bind, max_eq_left (by omega)]
    exact h.addAt_yields hbehind (by omega)
  · rw [h.firstSecond_eq] at hbehind ⊢
    rw [check_of (by omega), ok_bind, max_eq_left (by omega)]
    obtain ⟨hzero, -⟩ | ⟨hpos, hn⟩ := hs
    · omega
    · exact ⟨s, rfl, first, n, le_rfl, hn, h.discard (by omega), rfl⟩

/-! ### Counting -/

/-- A response that counts in `second`. -/
def CountsIn (second : ℤ) (r : Response) : Prop := 0 ≤ r.elapsed ∧ r.second = second

instance (second : ℤ) : DecidablePred (CountsIn second) :=
  fun _ => inferInstanceAs (Decidable (_ ∧ _))

/-- The number of responses in a second. -/
def count (rs : List Response) (second : ℤ) : ℤ := (rs.filter (CountsIn second)).length

/-- The sum of the latencies of a second. -/
def latency (rs : List Response) (second : ℤ) : ℤ :=
  ((rs.filter (CountsIn second)).map Response.elapsed).sum

/-- The newest second that counts, or 0 if there is none. -/
def newest (rs : List Response) : ℤ :=
  ((rs.filter (0 ≤ ·.elapsed)).map Response.second).foldl max 0

variable {rs : List Response} {r : Response}

lemma newest_concat (rs : List Response) (r : Response) :
    newest (rs ++ [r]) = if 0 ≤ r.elapsed then max (newest rs) r.second else newest rs := by
  split_ifs with hr <;> simp [newest, hr]

lemma filter_countsIn_of_neg (hr : r.elapsed < 0) (second : ℤ) :
    (rs ++ [r]).filter (CountsIn second) = rs.filter (CountsIn second) := by
  have hcounts : ¬ CountsIn second r := fun h => absurd h.1 (by omega)
  simp [hcounts]

lemma filter_countsIn_of_nonneg (hr : 0 ≤ r.elapsed) (second : ℤ) :
    (rs ++ [r]).filter (CountsIn second) =
      rs.filter (CountsIn second) ++ if second = r.second then [r] else [] := by
  split_ifs with hsecond
  · have hcounts : CountsIn second r := ⟨hr, hsecond.symm⟩
    simp [hcounts]
  · have hcounts : ¬ CountsIn second r := fun h => hsecond h.2.symm
    simp [hcounts]

lemma count_concat (hr : 0 ≤ r.elapsed) : count (rs ++ [r]) = bump (count rs) r.second 1 := by
  funext second
  rw [count, filter_countsIn_of_nonneg hr, bump, Function.update_apply]
  split_ifs with h
  · simp [count, h]
  · simp [count]

lemma latency_concat (hr : 0 ≤ r.elapsed) :
    latency (rs ++ [r]) = bump (latency rs) r.second r.elapsed := by
  funext second
  rw [latency, filter_countsIn_of_nonneg hr, bump, Function.update_apply]
  split_ifs with h
  · simp [latency, h]
  · simp [latency]

lemma latency_nonneg (rs : List Response) (second : ℤ) : 0 ≤ latency rs second := by
  refine List.sum_nonneg fun x hx => ?_
  obtain ⟨r, hr, rfl⟩ := List.mem_map.mp hx
  exact (of_decide_eq_true (List.mem_filter.mp hr).2).1

/-- The window shows what the responses `rs` add up to, and ends with the newest second. -/
def Tallies (rs : List Response) (first : ℤ) (s : SudokuStat) : Prop :=
  s.lastSecond = newest rs ∧
    ∃ first' n, first ≤ first' ∧ Shows (count rs) (latency rs) first' n s ∧ Started n s

lemma recordResponse_yields (h : Tallies rs first s) (hr : 1 ≤ r.second) :
    Yields (s.recordResponse r) (Tallies (rs ++ [r]) first) := by
  obtain ⟨hnewest, first', n, hfirst, hshows, hs⟩ := h
  rw [recordResponse, check_of (by rw [hshows.length_requests, hshows.length_latencies]), ok_bind]
  rcases lt_or_ge r.elapsed 0 with hneg | hnonneg
  · have hcount : count (rs ++ [r]) = count rs :=
      funext fun second => by rw [count, filter_countsIn_of_neg hneg, count]
    have hlatency : latency (rs ++ [r]) = latency rs :=
      funext fun second => by rw [latency, filter_countsIn_of_neg hneg, latency]
    have hsame : newest (rs ++ [r]) = newest rs := by rw [newest_concat, if_neg (by omega)]
    rw [if_pos hneg]
    refine ⟨_, rfl, ?_, first', n, hfirst, ?_, hs⟩
    · exact hnewest.trans hsame.symm
    · rw [hcount, hlatency]
      exact { hshows with }
  · -- What `record` starts from differs from `s` in the totals only.
    have hrecord := @record_yields _ _ _ _ r.elapsed _ { s with
      totalResponses := s.totalResponses + 1
      totalSolved := if r.solved then s.totalSolved + 1 else s.totalSolved
      totalLatency := int64 (s.totalLatency + r.elapsed) } { hshows with } hs hr
    obtain ⟨t, ht, first'', n', hfirst', hn', hkeeps, hlast⟩ := hrecord
    dsimp only at hlast
    rw [if_neg (by omega), ht, ok_bind,
      check_of (by rw [hkeeps.length_requests, hkeeps.length_latencies]), ok_bind]
    refine ⟨t, rfl, ?_, first'', n', hfirst.trans hfirst', ?_, .inr ⟨by omega, hn'⟩⟩
    · rw [newest_concat, if_pos hnonneg, hlast, hnewest]
    · rwa [count_concat hnonneg, latency_concat hnonneg]

lemma run_recordResponse_yields {rs' : List Response} (h : Tallies rs first s)
    (hrs : ∀ r ∈ rs', 1 ≤ r.second) :
    Yields (run recordResponse s rs') (Tallies (rs ++ rs') first) := by
  induction rs' generalizing rs s with
  | nil => exact ⟨s, rfl, by rwa [List.append_nil]⟩
  | cons r rs' ih =>
    obtain ⟨t, ht, htallies⟩ := recordResponse_yields h (hrs r (List.mem_cons_self ..))
    rw [run_cons, ht, ok_bind, List.append_cons]
    exact ih htallies fun r' hr' => hrs r' (List.mem_cons_of_mem r hr')

/-! ### The window -/

/-- The window ends with the newest second, and every second in it has its number of responses and
the sum of their latencies. -/
structure Exact (rs : List Response) (s : SudokuStat) : Prop where
  newest : s.lastSecond = newest rs
  back : 0 < s.lastSecond → s.requests ≠ []
  sizes : s.requests.length = s.latencies.length
  size_le : s.requests.length ≤ 60
  requests : ∀ second, s.firstSecond ≤ second → second ≤ s.lastSecond →
    s.requests[(second - s.firstSecond).toNat]? = some (count rs second)
  latencies : ∀ second, s.firstSecond ≤ second → second ≤ s.lastSecond →
    latency rs second < 2 ^ 63 →
    s.latencies[(second - s.firstSecond).toNat]? = some (latency rs second)

lemma Shows.exact (h : Shows (count rs) (latency rs) first n s) (hs : Started n s)
    (hnewest : s.lastSecond = SudokuStat.newest rs) : Exact rs s where
  newest := hnewest
  back := fun hpos => by
    rw [← List.length_pos_iff, h.length_requests]
    obtain ⟨hzero, -⟩ | ⟨-, hn⟩ := hs
    · omega
    · exact hn
  sizes := by rw [h.length_requests, h.length_latencies]
  size_le := by
    rw [h.length_requests]
    exact h.size_le
  requests := fun second hfirst hlast => by
    rw [h.firstSecond_eq] at hfirst ⊢
    have hwindow := h.last
    rw [h.requests, getElem?_window (by omega), Int.toNat_of_nonneg (by omega), add_sub_cancel]
  latencies := fun second hfirst hlast hsum => by
    rw [h.firstSecond_eq] at hfirst ⊢
    have hwindow := h.last
    have hnonneg := latency_nonneg rs second
    have hint64 : int64 (latency rs second) = latency rs second := int64_eq (by omega) (by omega)
    rw [h.latencies, getElem?_window (by omega), Int.toNat_of_nonneg (by omega), add_sub_cancel,
      Function.comp_apply, hint64]

/-- After the construction, or after a reset. -/
inductive Fresh : SudokuStat → Prop
  | new : Fresh new
  | reset (s : SudokuStat) : Fresh s.reset

lemma Fresh.empty (h : Fresh s) : s.lastSecond = 0 ∧ s.requests = [] ∧ s.latencies = [] := by
  cases h <;> exact ⟨rfl, rfl, rfl⟩

lemma Fresh.tallies (h : Fresh s) : Tallies [] s.firstSecond s := by
  obtain ⟨hlast, hrequests, hlatencies⟩ := h.empty
  have hshows : Shows (count []) (latency []) (s.lastSecond + 1) 0 s :=
    .of_empty hrequests hlatencies fun _ _ => ⟨rfl, rfl⟩
  exact ⟨hlast, _, 0, hshows.firstSecond_eq.le, hshows, .inl ⟨hlast, rfl⟩⟩

/-- The responses come in any order. -/
theorem window_exact {s₀ : SudokuStat} (h₀ : Fresh s₀) (rs rs' : List Response)
    (hrs : ∀ r ∈ rs ++ rs', 1 ≤ r.second) :
    Yields (run recordResponse s₀ rs) fun s =>
      Exact rs s ∧
      Yields (run recordResponse s rs') fun t =>
        Exact (rs ++ rs') t ∧ s.firstSecond ≤ t.firstSecond := by
  obtain ⟨s, hs, hnewest, first, n, -, hshows, hstarted⟩ :=
    run_recordResponse_yields h₀.tallies fun r hr => hrs r (List.mem_append_left rs' hr)
  have htallies : Tallies rs s.firstSecond s :=
    ⟨hnewest, first, n, hshows.firstSecond_eq.le, hshows, hstarted⟩
  obtain ⟨t, ht, hnewest', first', n', hfirst, hshows', hstarted'⟩ :=
    run_recordResponse_yields htallies fun r hr => hrs r (List.mem_append_right rs hr)
  refine ⟨s, hs, hshows.exact hstarted hnewest, t, ht, hshows'.exact hstarted' hnewest', ?_⟩
  rwa [hshows'.firstSecond_eq]

/-- Two responses in second 100, a jump ahead of 55 seconds, one back in second 100, one that is too
early, and a jump beyond the window. -/
theorem window_exact_jumps :
    let rs : List Response := [⟨100000000, 99999990, true⟩, ⟨100500000, 100499980, false⟩,
      ⟨155000000, 154999999, true⟩, ⟨100900000, 100899970, true⟩, ⟨99000000, 98999999, true⟩]
    let rs' : List Response := [⟨400000000, 399999995, true⟩]
    Yields (run recordResponse new rs) fun s =>
      (s.lastSecond = 155 ∧ s.requests = 3 :: List.replicate 54 0 ++ [1] ∧
        s.latencies = 60 :: List.replicate 54 0 ++ [1]) ∧ Exact rs s ∧
      Yields (run recordResponse s rs') fun t =>
        (t.lastSecond = 400 ∧ t.requests = [1] ∧ t.latencies = [5]) ∧
          Exact (rs ++ rs') t ∧ s.firstSecond ≤ t.firstSecond := by
  intro rs rs'
  obtain ⟨s, hs, hexact, t, ht, hexact', hfirst⟩ := window_exact .new rs rs' (by decide)
  have hrun : Yields (run recordResponse new rs) fun s =>
      (s.lastSecond = 155 ∧ s.requests = 3 :: List.replicate 54 0 ++ [1] ∧
        s.latencies = 60 :: List.replicate 54 0 ++ [1]) ∧
      Yields (run recordResponse s rs') fun t =>
        t.lastSecond = 400 ∧ t.requests = [1] ∧ t.latencies = [5] := by decide +kernel
  obtain ⟨u, hu, hcontents, v, hv, hcontents'⟩ := hrun
  cases hs.symm.trans hu
  cases ht.symm.trans hv
  exact ⟨s, hs, hcontents, hexact, t, ht, hcontents', hexact', hfirst⟩

end SudokuStat

end Muduo

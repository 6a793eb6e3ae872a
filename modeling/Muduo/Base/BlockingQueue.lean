import Muduo.Base.Code
import Muduo.Machine.Monitor

/-!
# Blocking queues

`BlockingQueue` and `BoundedBlockingQueue`: callers of `put` and `take` are threads that meet at the
mutex of the queue. The scheduler chooses the thread that locks the mutex next and the waiting
thread that `notify` signals, and it may wake up a thread with no signal.

`run_schedules_fifo` says what is true after every schedule, and `settles` that a schedule without
calls and without spurious wakeups comes to an end, and how many calls have returned then.
-/

namespace Muduo

open Machine

variable {α : Type}

namespace BlockingQueue

/-- A queue, its callers, and what has been put and taken. -/
structure System (α : Type) where
  /-- `none` for a `BlockingQueue`, `some maxSize` for a `BoundedBlockingQueue`. -/
  capacity : Option ℕ
  queue : List α
  /-- The calls of `put`, which wait on `notFull_`. -/
  puts : List (Call α α)
  /-- The calls of `take`, which wait on `notEmpty_`. -/
  takes : List (Call Unit α)
  enqueued : List α
  dequeued : List α
  deriving DecidableEq

def start (capacity : Option ℕ) : System α := ⟨capacity, [], [], [], [], []⟩

inductive Event (α : Type) where
  /-- A thread calls `put(x)`. -/
  | callPut (x : α)
  | callTake
  /-- A caller of `put` locks the mutex, at the beginning or to return from `wait`. -/
  | lockPut (i target : ℕ)
  | lockTake (i target : ℕ)
  /-- A caller of `put` wakes up with no signal. -/
  | wakePut (i : ℕ)
  | wakeTake (i : ℕ)
  deriving DecidableEq

/-- The events that a thread which can go on brings about by itself. -/
def Event.locks : Event α → Bool
  | .lockPut _ _ | .lockTake _ _ => true
  | _ => false

namespace System

/-- `queue_.full()`. -/
def full (s : System α) : Bool := s.capacity == some s.queue.length

/-- `put(x)` of the thread `i`, once it has the mutex. `notEmpty_.notify()` signals `target`. -/
def put (s : System α) (i : ℕ) (x : α) (target : ℕ) : Code (System α) :=
  if s.full then
    return { s with puts := s.puts.set i (.waiting x) }
  else do
    check .putFull (s.full = false)
    let takes ← Call.condition.notify s.takes target
    return { s with
      queue := s.queue ++ [x]
      puts := s.puts.set i (.returned x)
      takes := takes
      enqueued := s.enqueued ++ [x] }

/-- A `BlockingQueue` has no `notFull_`. -/
def notifyNotFull (s : System α) (target : ℕ) : Code (List (Call α α)) :=
  if s.capacity.isSome then Call.condition.notify s.puts target else return s.puts

/-- `take()` of the thread `i`, once it has the mutex. `notFull_.notify()` signals `target`. -/
def take (s : System α) (i target : ℕ) : Code (System α) :=
  match s.queue with
  | [] => return { s with takes := s.takes.set i (.waiting ()) }
  | front :: queue => do
    check .takeEmpty (s.queue.isEmpty = false)
    let puts ← s.notifyNotFull target
    return { s with
      queue := queue
      puts := puts
      takes := s.takes.set i (.returned front)
      dequeued := s.dequeued ++ [front] }

def step (s : System α) : Event α → Code (System α)
  | .callPut x => return { s with puts := s.puts ++ [.lock x] }
  | .callTake => return { s with takes := s.takes ++ [.lock ()] }
  | .lockPut i target =>
    match Call.locking s.puts i with
    | some x => s.put i x target
    | none => .error .disabled
  | .lockTake i target =>
    match Call.locking s.takes i with
    | some () => s.take i target
    | none => .error .disabled
  | .wakePut i => do
    let puts ← Call.wake s.puts i
    return { s with puts := puts }
  | .wakeTake i => do
    let takes ← Call.wake s.takes i
    return { s with takes := takes }

/-! ### What holds after every schedule -/

/-- A signal is outstanding for each element and for each free place that somebody waits for, and
the calls that have returned account for what went in and out. -/
structure Inv (cap : Option ℕ) (s : System α) : Prop where
  capacity : s.capacity = cap
  bound : ∀ n, cap = some n → s.queue.length ≤ n
  order : s.dequeued ++ s.queue = s.enqueued
  put : (Call.results s.puts).Perm s.enqueued
  taken : (Call.results s.takes).Perm s.dequeued
  notEmpty : Call.condition.Covered s.takes s.queue.length
  notFull : ∀ n, cap = some n → Call.condition.Covered s.puts (n - s.queue.length)
  unbounded : cap = none → ∀ c ∈ s.puts, Call.condition.waits c = false

variable {cap : Option ℕ} {s t : System α}

lemma inv_start (cap : Option ℕ) : (start cap : System α).Inv cap where
  capacity := rfl
  bound _ _ := Nat.zero_le _
  order := rfl
  put := .nil
  taken := .nil
  notEmpty _ := Nat.zero_le _
  notFull n _ := by rintro ⟨p, hp, -⟩; simp [start] at hp
  unbounded _ := by simp [start]

lemma Inv.full_eq_true (h : s.Inv cap) : s.full = true ↔ cap = some s.queue.length := by
  simp [full, h.capacity]

lemma Inv.lockPut (h : s.Inv cap) {i : ℕ} {x : α} (hi : Call.locking s.puts i = some x)
    (target : ℕ) : Safe (s.put i x target) (Inv cap) := by
  obtain ⟨c, hc, -, hres, -⟩ := Call.locking_eq_some hi
  unfold System.put
  split
  · rename_i hfull
    have hcap := h.full_eq_true.mp hfull
    refine { h with put := ?_, notFull := fun n hn => ?_, unbounded := ?_ }
    · exact (Call.results_set hc hres _).trans (by simpa [Call.result] using h.put)
    · -- No place is free, so this thread waits for nothing that is there.
      rw [hcap, Option.some.injEq] at hn
      exact (h.notFull _ hcap).set hc (.inl (by simp [hn]))
    · simp [hcap]
  · rename_i hfull
    rw [safe_bind, safe_check, safe_bind]
    refine ⟨Bool.eq_false_iff.mpr hfull, ?_⟩
    refine ((h.notEmpty.notify target).and_of_ok fun _ => Call.results_notify).mono ?_
    rintro takes ⟨⟨hcov, -⟩, htaken⟩
    have hroom : ∀ n, cap = some n → s.queue.length < n := by
      intro n hn
      refine lt_of_le_of_ne (h.bound n hn) ?_
      rintro rfl
      exact hfull (h.full_eq_true.mpr hn)
    exact {
      capacity := h.capacity
      bound := fun n hn => by simpa using hroom n hn
      order := by simp [← h.order]
      put := (Call.results_set hc hres _).trans (h.put.append_right [x])
      taken := htaken ▸ h.taken
      notEmpty := by simpa using hcov
      notFull := fun n hn => by
        have := hroom n hn
        refine (h.notFull n hn).set hc (.inr ⟨rfl, ?_⟩)
        simp only [List.length_append, List.length_singleton]
        split <;> omega
      unbounded := fun hn => Condition.set_not_waits (h.unbounded hn) rfl }

/-- With an element taken out of the queue one place more is free, and a thread is signalled for
it. -/
lemma Inv.notifyNotFull (h : s.Inv cap) {front : α} {queue : List α}
    (hq : s.queue = front :: queue) (target : ℕ) :
    Safe (s.notifyNotFull target) fun puts =>
      (Call.results puts).Perm s.enqueued ∧
      (∀ n, cap = some n → Call.condition.Covered puts (n - queue.length)) ∧
      (cap = none → ∀ c ∈ puts, Call.condition.waits c = false) := by
  rw [System.notifyNotFull, h.capacity]
  cases cap with
  | none => exact ⟨h.put, by simp, h.unbounded⟩
  | some n =>
    have hplace : n - (queue.length + 1) + 1 = n - queue.length := by
      have := h.bound n rfl
      rw [hq, List.length_cons] at this
      omega
    have hcov := h.notFull n rfl
    rw [hq, List.length_cons] at hcov
    rw [Option.isSome_some, if_pos rfl]
    refine ((hcov.notify target).and_of_ok fun _ => Call.results_notify).mono ?_
    rintro puts ⟨⟨hcov', -⟩, hput⟩
    refine ⟨hput ▸ h.put, ?_, by simp⟩
    rintro m hm
    cases hm
    rwa [hplace] at hcov'

lemma Inv.lockTake (h : s.Inv cap) {i : ℕ} (hi : Call.locking s.takes i = some ()) (target : ℕ) :
    Safe (s.take i target) (Inv cap) := by
  obtain ⟨c, hc, -, hres, -⟩ := Call.locking_eq_some hi
  unfold System.take
  split
  · rename_i hq
    refine { h with taken := ?_, notEmpty := ?_ }
    · exact (Call.results_set hc hres _).trans (by simpa [Call.result] using h.taken)
    · exact h.notEmpty.set hc (.inl (by simp [hq]))
  · rename_i front queue hq
    rw [safe_bind, safe_check, safe_bind]
    refine ⟨by simp [hq], (h.notifyNotFull hq target).mono ?_⟩
    rintro puts ⟨hput, hcov, hun⟩
    exact {
      capacity := h.capacity
      bound := fun n hn => by
        have := h.bound n hn
        rw [hq] at this
        exact (Nat.le_succ _).trans this
      order := by simp [← h.order, hq]
      put := hput
      taken := (Call.results_set hc hres _).trans (h.taken.append_right [front])
      notEmpty := by
        refine h.notEmpty.set hc (.inr ⟨rfl, ?_⟩)
        simp only [hq, List.length_cons]
        split <;> omega
      notFull := hcov
      unbounded := hun }

lemma Inv.callPut (h : s.Inv cap) (x : α) :
    Inv cap { s with puts := s.puts ++ [.lock x] } :=
  { h with
    put := by rw [Call.results_concat]; exact h.put
    notFull := fun n hn => (h.notFull n hn).concat rfl
    unbounded := fun hn c hc => by
      rcases List.mem_append.mp hc with hc | hc
      · exact h.unbounded hn c hc
      · rw [List.mem_singleton.mp hc]
        rfl }

lemma Inv.step (h : s.Inv cap) (e : Event α) : Safe (s.step e) (Inv cap) := by
  cases e with
  | callPut x => exact h.callPut x
  | callTake =>
    exact { h with
      taken := by rw [Call.results_concat]; exact h.taken
      notEmpty := h.notEmpty.concat rfl }
  | lockPut i target =>
    rw [System.step]
    split
    · exact h.lockPut ‹_› target
    · trivial
  | lockTake i target =>
    rw [System.step]
    split
    · exact h.lockTake ‹_› target
    · trivial
  | wakePut i =>
    rw [System.step, safe_bind]
    refine (Call.wake_spec s.puts i).mono ?_
    rintro puts ⟨x, hi, rfl⟩
    exact { h with
      put := (Call.results_set hi rfl _).trans (by simpa [Call.result] using h.put)
      notFull := fun n hn => (h.notFull n hn).set hi (.inr ⟨rfl, le_rfl⟩)
      unbounded := fun hn => Condition.set_not_waits (h.unbounded hn) rfl }
  | wakeTake i =>
    rw [System.step, safe_bind]
    refine (Call.wake_spec s.takes i).mono ?_
    rintro takes ⟨⟨⟩, hi, rfl⟩
    exact { h with
      taken := (Call.results_set hi rfl _).trans (by simpa [Call.result] using h.taken)
      notEmpty := h.notEmpty.set hi (.inr ⟨rfl, le_rfl⟩) }

/-- Whatever the scheduler does, neither assertion fails, a bounded queue keeps to its bound, what
has been taken is a first part of what has been put, in the same order, and every element that went
in or out did so by exactly one call. -/
theorem run_schedules_fifo (capacity : Option ℕ) (es : List (Event α)) :
    Safe (run System.step (start capacity) es) fun s =>
      (∀ n, capacity = some n → s.queue.length ≤ n) ∧
      s.dequeued ++ s.queue = s.enqueued ∧
      (Call.results s.puts).Perm s.enqueued ∧
      (Call.results s.takes).Perm s.dequeued :=
  (run_invariant (fun _ e h => Inv.step h e) (inv_start capacity) es).mono fun _ h =>
    ⟨h.bound, h.order, h.put, h.taken⟩

/-! ### Schedules come to an end -/

def weight (s : System α) : ℕ := Call.weights s.puts + Call.weights s.takes

lemma weight_put {i : ℕ} {x : α} (hi : Call.locking s.puts i = some x) {target : ℕ}
    (h : s.put i x target = .ok t) : t.weight < s.weight := by
  have hset := Call.weights_set hi
  unfold System.put at h
  split at h
  · cases h
    have := hset (.waiting x)
    simp only [weight, Call.weight] at this ⊢
    omega
  · simp only [bind_eq_ok] at h
    obtain ⟨-, -, takes, ht, h⟩ := h
    cases h
    have := hset (.returned x)
    have hle := Call.weights_notify ht
    simp only [weight, Call.weight] at this ⊢
    omega

lemma weight_take {i : ℕ} (hi : Call.locking s.takes i = some ()) {target : ℕ}
    (h : s.take i target = .ok t) : t.weight < s.weight := by
  have hset := Call.weights_set hi
  unfold System.take at h
  split at h
  · cases h
    have := hset (.waiting ())
    simp only [weight, Call.weight] at this ⊢
    omega
  · rename_i front queue hq
    simp only [bind_eq_ok] at h
    obtain ⟨-, -, puts, hp, h⟩ := h
    cases h
    have := hset (.returned front)
    have hle : Call.weights puts ≤ Call.weights s.puts + 1 := by
      unfold System.notifyNotFull at hp
      split at hp
      · exact Call.weights_notify hp
      · cases hp
        exact Nat.le_succ _
    simp only [weight, Call.weight] at this ⊢
    omega

lemma weight_step {e : Event α} (he : e.locks = true) (h : s.step e = .ok t) :
    t.weight < s.weight := by
  cases e with
  | lockPut i target =>
    rw [System.step] at h
    split at h
    · exact weight_put ‹_› h
    · cases h
  | lockTake i target =>
    rw [System.step] at h
    split at h
    · exact weight_take ‹_› h
    · cases h
  | _ => cases he

/-- No thread can go on by itself. -/
def Quiet (s : System α) : Prop :=
  (∀ c ∈ s.puts, c.ready = none) ∧ ∀ c ∈ s.takes, c.ready = none

lemma exists_put (s : System α) (i : ℕ) (x : α) : ∃ target t, s.put i x target = .ok t := by
  unfold System.put
  split
  · exact ⟨0, _, rfl⟩
  · rename_i hfull
    obtain ⟨target, takes, ht⟩ := Call.condition.exists_notify (A := Fault) s.takes
    simp only [check_of (Bool.eq_false_iff.mpr hfull), ok_bind]
    exact ⟨target, _, by rw [ht, ok_bind]; rfl⟩

lemma exists_take (s : System α) (i : ℕ) : ∃ target t, s.take i target = .ok t := by
  unfold System.take
  split
  · exact ⟨0, _, rfl⟩
  · rename_i front queue hq
    obtain ⟨target, puts, hp⟩ : ∃ target puts, s.notifyNotFull target = .ok puts := by
      unfold System.notifyNotFull
      split
      · exact Call.condition.exists_notify s.puts
      · exact ⟨0, _, rfl⟩
    have hne : s.queue.isEmpty = false := by simp [hq]
    simp only [check_of hne, ok_bind]
    exact ⟨target, _, by rw [hp, ok_bind]; rfl⟩

lemma exists_locks_of_not_quiet (h : ¬ s.Quiet) : ∃ e t, e.locks = true ∧ s.step e = .ok t := by
  rw [Quiet, not_and_or] at h
  push Not at h
  rcases h with ⟨c, hc, hr⟩ | ⟨c, hc, hr⟩
  · obtain ⟨x, hx⟩ := Option.ne_none_iff_exists'.mp hr
    obtain ⟨i, hi⟩ := Call.exists_locking hc hx
    obtain ⟨target, t, ht⟩ := s.exists_put i x
    exact ⟨.lockPut i target, t, rfl, by rw [System.step, hi]; exact ht⟩
  · obtain ⟨⟨⟩, hx⟩ := Option.ne_none_iff_exists'.mp hr
    obtain ⟨i, hi⟩ := Call.exists_locking hc hx
    obtain ⟨target, t, ht⟩ := s.exists_take i
    exact ⟨.lockTake i target, t, rfl, by rw [System.step, hi]; exact ht⟩

/-- Nobody who could go on has been signalled. -/
lemma Quiet.queue_eq_nil (hq : s.Quiet) (h : s.Inv cap) (hw : 0 < s.takes.countP Call.waits) :
    s.queue = [] := by
  obtain ⟨c, hc, hwc⟩ := List.countP_pos_iff.mp hw
  by_contra hne
  obtain ⟨u, hu, hs⟩ := h.notEmpty.exists_signalled (List.length_pos_iff.mpr hne) hc hwc
  simpa [hq.2 u hu] using Call.ready_of_signalled hs

lemma Quiet.full (hq : s.Quiet) (h : s.Inv cap) (hw : 0 < s.puts.countP Call.waits) :
    cap = some s.queue.length := by
  obtain ⟨c, hc, hwc⟩ := List.countP_pos_iff.mp hw
  cases hcap : cap with
  | none => exact absurd hwc (Bool.eq_false_iff.mp (h.unbounded hcap c hc))
  | some n =>
    have hle := h.bound n hcap
    by_contra hne
    have hlt : 0 < n - s.queue.length := by
      have : s.queue.length ≠ n := fun h => hne (by rw [h])
      omega
    obtain ⟨u, hu, hs⟩ := (h.notFull n hcap).exists_signalled hlt hc hwc
    simpa [hq.1 u hu] using Call.ready_of_signalled hs

/-- Calls of `put` and `take` that have been made, once no thread can go on. -/
lemma Quiet.settled (hq : s.Quiet) (h : s.Inv cap) (hcap : cap ≠ some 0) :
    (Call.results s.takes).length = min s.takes.length s.puts.length ∧
      (Call.results s.puts).length =
        cap.elim s.puts.length fun n => min s.puts.length (s.takes.length + n) := by
  have hp := Call.length_results_add hq.1
  have ht := Call.length_results_add hq.2
  have hput := h.put.length_eq
  have htaken := h.taken.length_eq
  have horder := congrArg List.length h.order
  rw [List.length_append] at horder
  have hempty : 0 < s.takes.countP Call.waits → s.queue.length = 0 := fun hw => by
    rw [hq.queue_eq_nil h hw, List.length_nil]
  have hfull := hq.full h
  cases cap with
  | none =>
    have : s.puts.countP Call.waits = 0 := by
      by_contra hne
      cases hfull (Nat.pos_of_ne_zero hne)
    simp only [Option.elim_none]
    omega
  | some n =>
    have hbound := h.bound n rfl
    simp only [Option.some.injEq] at hfull
    have : n ≠ 0 := fun h => hcap (by rw [h])
    simp only [Option.elim_some]
    omega

/-- From every state that a schedule reaches, threads that go on by themselves come to an end
within three steps for each call, and when none of them can go on, as many calls of `take` have
returned as there are elements put, and as many calls of `put` as there is room for. -/
theorem settles {capacity : Option ℕ} (hcap : capacity ≠ some 0) {es es' : List (Event α)}
    {s t : System α} (hs : run System.step (start capacity) es = .ok s)
    (hlocks : ∀ e ∈ es', e.locks = true) (ht : run System.step s es' = .ok t) :
    es'.length ≤ 3 * (s.puts.length + s.takes.length) ∧
      ((∃ e u, e.locks = true ∧ t.step e = .ok u) ∨
        (Call.results t.takes).length = min t.takes.length t.puts.length ∧
        (Call.results t.puts).length =
          capacity.elim t.puts.length fun n => min t.puts.length (t.takes.length + n)) := by
  have hinv : t.Inv capacity := by
    refine (run_invariant (fun _ e h => Inv.step h e) (inv_start capacity) (es ++ es')).of_ok ?_
    rw [run_append, hs, ok_bind, ht]
  constructor
  · obtain ⟨-, hlen⟩ := run_length_le (I := fun _ => True) (P := fun e => e.locks = true)
      (fun s e t _ he h => ⟨trivial, weight_step he h⟩) trivial hlocks ht
    have hp := Call.weights_le s.puts
    have ht := Call.weights_le s.takes
    rw [weight, weight] at hlen
    omega
  · by_cases hq : t.Quiet
    · exact .inr (hq.settled hinv hcap)
    · exact .inl (exists_locks_of_not_quiet hq)

/-- Two calls of `put` and one of `take` at a queue with room for one element: the second `put`
waits until `take` has made room. -/
theorem settles_two_puts :
    let s : System ℕ := ⟨some 1, [], [.lock 1, .lock 2], [.lock ()], [], []⟩
    let t : System ℕ := ⟨some 1, [2], [.returned 1, .returned 2], [.returned 1], [1, 2], [1]⟩
    (4 ≤ 3 * (s.puts.length + s.takes.length)) ∧
      ((∃ e u, e.locks = true ∧ t.step e = .ok u) ∨
        (Call.results t.takes).length = min t.takes.length t.puts.length ∧
        (Call.results t.puts).length = min t.puts.length (t.takes.length + 1)) :=
  @settles ℕ (some 1) (by decide) [.callPut 1, .callPut 2, .callTake]
    [.lockPut 0 0, .lockPut 1 0, .lockTake 0 1, .lockPut 1 0] _ _ rfl (by decide) rfl

end System
end BlockingQueue
end Muduo

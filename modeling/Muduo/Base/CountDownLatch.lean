import Muduo.Base.Code
import Muduo.Machine.Monitor
import Muduo.Machine.Size

/-!
# The count-down latch

Threads that call `wait` and `countDown` meet at the mutex of the latch. `countDown`, which never
waits, is one step. The count is an `int`, which comes round to `2 ^ 31 - 1` and closes the latch
again when `countDown` is called too often.
-/

namespace Muduo

open Machine

namespace CountDownLatch

/-- A latch and the threads that called `wait`. -/
structure System where
  count : ℤ
  waiters : List (Call Unit Unit)
  deriving DecidableEq

def start (count : ℤ) : System := ⟨count, []⟩

inductive Event where
  /-- A thread calls `wait`. -/
  | callWait
  /-- A caller of `wait` locks the mutex, at the beginning or to return from `wait`. -/
  | lockWait (w : ℕ)
  /-- A caller of `wait` wakes up with no signal. -/
  | wake (w : ℕ)
  | countDown
  deriving DecidableEq

namespace System

/-- `wait()` of the thread `w`, once it has the mutex. -/
def wait (s : System) (w : ℕ) : System :=
  if 0 < s.count then
    { s with waiters := s.waiters.set w (.waiting ()) }
  else
    { s with waiters := s.waiters.set w (.returned ()) }

def countDown (s : System) : System where
  count := addInt s.count (-1)
  waiters :=
    if addInt s.count (-1) = 0 then Call.condition.notifyAll s.waiters else s.waiters

def step (s : System) : Event → Code System
  | .callWait => return { s with waiters := s.waiters ++ [.lock ()] }
  | .lockWait w => do
    require ((Call.locking s.waiters w).isSome = true)
    return s.wait w
  | .wake w => do
    let waiters ← Call.wake s.waiters w
    return { s with waiters := waiters }
  | .countDown => return s.countDown

/-- After `k` calls of `countDown`: nobody waits once the count has come down, and nobody returns
before. -/
structure Inv (count : ℤ) (k : ℕ) (s : System) : Prop where
  count : s.count = count - k
  closed : 0 < s.count → .returned () ∉ s.waiters
  opened : s.count ≤ 0 → ∀ c ∈ s.waiters, c.waits = false

variable {n : ℤ} {k : ℕ} {s t : System}

lemma inv_start (count : ℤ) : (start count).Inv count 0 where
  count := by simp [start]
  closed _ := by simp [start]
  opened _ := by simp [start]

/-- A thread moves on. It returns only from an open latch, and waits only at a closed one. -/
lemma Inv.set (h : s.Inv n k) {w : ℕ} {c' : Call Unit Unit} (hr : c' = .returned () → s.count ≤ 0)
    (hw : c'.waits = true → 0 < s.count) :
    Inv n k { s with waiters := s.waiters.set w c' } where
  count := h.count
  closed hpos hmem := by
    rcases List.mem_or_eq_of_mem_set hmem with hmem | hmem
    · exact h.closed hpos hmem
    · exact absurd (hr hmem.symm) (not_le.mpr hpos)
  opened hle c hc := by
    rcases List.mem_or_eq_of_mem_set hc with hc | rfl
    · exact h.opened hle c hc
    · exact Bool.eq_false_iff.mpr fun hw' => absurd (hw hw') (not_lt.mpr hle)

lemma Inv.wait (h : s.Inv n k) (w : ℕ) : (s.wait w).Inv n k := by
  unfold System.wait
  split
  · exact h.set (by simp) fun _ => ‹_›
  · exact h.set (fun _ => not_lt.mp ‹_›) (by simp [Call.waits])

lemma Inv.countDown (h : s.Inv n k) (hn : n < 2 ^ 31) (hk : k + 1 ≤ n + 2 ^ 31) :
    s.countDown.Inv n (k + 1) := by
  have hcount := h.count
  have hadd : addInt s.count (-1) = s.count - 1 := addInt_eq (by omega) (by omega)
  refine ⟨?_, fun hpos => ?_, fun hle => ?_⟩
  · simp only [System.countDown, hadd]
    push_cast
    omega
  · simp only [System.countDown, hadd] at hpos ⊢
    rw [if_neg (by omega)]
    exact h.closed (by omega)
  · simp only [System.countDown, hadd] at hle ⊢
    split
    · exact fun _ => Condition.notifyAll_not_waits
    · exact h.opened (by omega)

lemma Inv.callWait (h : s.Inv n k) : Inv n k { s with waiters := s.waiters ++ [.lock ()] } where
  count := h.count
  closed hpos := by simpa using h.closed hpos
  opened hle w hw := by
    rcases List.mem_append.mp hw with hw | hw
    · exact h.opened hle w hw
    · rw [List.mem_singleton.mp hw]
      rfl

lemma Inv.lockWait (h : s.Inv n k) (w : ℕ) : Safe (s.step (.lockWait w)) (Inv n k) := by
  rw [System.step, safe_bind, safe_require]
  exact fun _ => h.wait w

lemma Inv.wake (h : s.Inv n k) (w : ℕ) : Safe (s.step (.wake w)) (Inv n k) := by
  rw [System.step, safe_bind]
  refine (Call.wake_spec s.waiters w).mono ?_
  rintro waiters ⟨⟨⟩, -, rfl⟩
  exact h.set (by simp) (by simp [Call.waits])

/-- What `k` counts is the calls of `countDown`, which do not make the count come round. -/
lemma Inv.step (h : s.Inv n k) (hn : n < 2 ^ 31) {e : Event}
    (hk : (k + [e].count .countDown : ℕ) ≤ n + 2 ^ 31) :
    Safe (s.step e) (Inv n (k + [e].count .countDown)) := by
  cases e with
  | countDown => exact h.countDown hn hk
  | callWait => exact h.callWait
  | lockWait w => exact h.lockWait w
  | wake w => exact h.wake w

lemma run_inv (hn : n < 2 ^ 31) {es : List Event} (hes : es.count .countDown ≤ n + 2 ^ 31)
    (hs : run System.step (start n) es = .ok s) : s.Inv n (es.count .countDown) := by
  have hrun : ∃ k, s.Inv n k ∧ k + 0 = es.count .countDown := by
    refine run_uses (I := fun s rest => ∃ k, s.Inv n k ∧
      k + rest.count .countDown = es.count .countDown) ?_ ⟨0, inv_start n, Nat.zero_add _⟩ hs
    rintro s e rest t ⟨k, hinv, hk⟩ ht
    rw [← List.singleton_append, List.count_append] at hk
    exact ⟨k + [e].count .countDown, (hinv.step hn (by omega)).of_ok ht, by omega⟩
  obtain ⟨k, hinv, rfl⟩ := hrun
  exact hinv

/-- The number of threads that can go on by themselves. -/
def weight (s : System) : ℕ := s.waiters.countP fun c => c.ready.isSome

lemma weight_step {w : ℕ} (h : s.step (.lockWait w) = .ok t) : t.weight < s.weight := by
  rw [System.step, require_bind_eq_ok] at h
  obtain ⟨hlock, h⟩ := h
  cases h
  obtain ⟨arg, harg⟩ := Option.isSome_iff_exists.mp hlock
  obtain ⟨c, hc, hr, -⟩ := Call.locking_eq_some harg
  have hset : ∀ c' : Call Unit Unit, c'.ready = none →
      (s.waiters.set w c').countP (fun c => c.ready.isSome) < s.weight := by
    intro c' hr'
    obtain ⟨l₁, l₂, hl, hset⟩ := Condition.exists_set hc c'
    rw [weight, hset, hl]
    simp [hr, hr']
  unfold System.wait
  split <;> exact hset _ rfl

/-- At an open latch a thread that has not returned can go on. -/
lemma Inv.exists_lockWait (h : s.Inv n k) (hopen : n ≤ k) {c : Call Unit Unit}
    (hc : c ∈ s.waiters) (hret : c ≠ .returned ()) : ∃ w u, s.step (.lockWait w) = .ok u := by
  have hwaits := h.opened (by rw [h.count]; omega) c hc
  have hr : c.ready = some () := by
    cases c with
    | lock | woken => rfl
    | waiting => cases hwaits
    | returned => exact absurd rfl hret
  obtain ⟨w, hw⟩ := Call.exists_locking hc hr
  exact ⟨w, s.wait w, by simp [System.step, hw, require]⟩

/-- Whatever the scheduler does, no call of `wait` returns before `count` calls of `countDown`.
After them nobody waits any more: the threads need the mutex once each, and until they have had it
one of them can go on. The count is an `int`, and `countDown` is not called so often that it comes
round. -/
theorem opens {count : ℤ} (hcount : count < 2 ^ 31) {es : List Event}
    (hes : es.count .countDown ≤ count + 2 ^ 31) {s : System}
    (hs : run System.step (start count) es = .ok s) :
    (.returned () ∈ s.waiters → count ≤ es.count .countDown) ∧
    (count ≤ es.count .countDown → ∀ (ws : List ℕ) (t : System),
      run System.step s (ws.map .lockWait) = .ok t →
        ws.length ≤ s.waiters.length ∧
          ((∃ w u, t.step (.lockWait w) = .ok u) ∨ ∀ c ∈ t.waiters, c = .returned ())) := by
  have hinv := run_inv hcount hes hs
  constructor
  · intro hret
    by_contra hlt
    exact hinv.closed (by rw [hinv.count]; omega) hret
  intro hopen ws t ht
  have hstep : ∀ (s : System) e t, s.Inv count (es.count .countDown) → (∃ w, e = .lockWait w) →
      s.step e = .ok t → t.Inv count (es.count .countDown) ∧ t.weight < s.weight := by
    rintro s _ t hinv ⟨w, rfl⟩ h
    exact ⟨(hinv.lockWait w).of_ok h, weight_step h⟩
  obtain ⟨hinv', hlen⟩ := run_length_le hstep hinv (by simp +contextual [eq_comm]) ht
  rw [List.length_map] at hlen
  have hle : s.weight ≤ s.waiters.length := List.countP_le_length
  refine ⟨by omega, ?_⟩
  by_cases hall : ∀ c ∈ t.waiters, c = .returned ()
  · exact .inr hall
  · push Not at hall
    obtain ⟨c, hc, hret⟩ := hall
    exact .inl (hinv'.exists_lockWait hopen hc hret)

/-- One thread waits for two others, and one comes when they are done. -/
theorem opens_two :
    Yields (run System.step (start 2) [.callWait, .lockWait 0, .countDown, .countDown, .callWait])
      fun s => s.waiters = [.woken () true, .lock ()] ∧
        ∀ (ws : List ℕ) (t : System), run System.step s (ws.map .lockWait) = .ok t →
          ws.length ≤ s.waiters.length ∧
            ((∃ w u, t.step (.lockWait w) = .ok u) ∨ ∀ c ∈ t.waiters, c = .returned ()) :=
  ⟨⟨0, [.woken () true, .lock ()]⟩, rfl, rfl,
    (@opens 2 (by decide) [.callWait, .lockWait 0, .countDown, .countDown, .callWait] (by decide) _
      rfl).2 (by decide)⟩

end System
end CountDownLatch
end Muduo

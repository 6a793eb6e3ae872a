import Muduo.Base.CountDownLatch

/-!
# Starting a thread

`Thread::start` hands the new thread two pointers into the `Thread` object, to `tid_` and to
`latch_`, and waits at the latch until the new thread has used both. The owner starts the thread
once and joins it at most once, and may destroy the object as soon as `start` has returned, whether
or not the thread has finished.
-/

namespace Muduo

open Machine

namespace Thread

/-- Where the owner of the object is. -/
inductive Owner where
  | constructed
  /-- In `latch_.wait()` of `start`. -/
  | starting
  | started
  | destroyed
  deriving DecidableEq

/-- Where the new thread is in `ThreadData::runInThread`. -/
inductive Runner where
  | notCreated
  /-- At `*tid_ = CurrentThread::tid()`. -/
  | storeTid
  /-- At `latch_->countDown()`. -/
  | countDown
  | function
  | finished
  deriving DecidableEq

structure System where
  owner : Owner
  runner : Runner
  started : Bool
  joined : Bool
  tid : ℕ
  latch : CountDownLatch.System
  deriving DecidableEq

def new : System where
  owner := .constructed
  runner := .notCreated
  started := false
  joined := false
  tid := 0
  latch := CountDownLatch.start 1

inductive Event where
  /-- The owner calls `start`, and `pthread_create` succeeds. -/
  | start
  /-- The owner locks the mutex of the latch. -/
  | lockWait
  /-- The owner wakes up at the latch with no signal. -/
  | wake
  | storeTid (tid : ℕ)
  | countDown
  /-- The function of the thread returns. -/
  | finish
  | join
  | destroy
  deriving DecidableEq

namespace System

/-- What the new thread reads and writes of the object is there. -/
def touch (s : System) : Code Unit := check .threadDestroyed (s.owner ≠ .destroyed)

def start (s : System) : Code System := do
  check .threadStarted (s.started = false)
  let latch ← s.latch.step .callWait
  return { s with owner := .starting, runner := .storeTid, started := true, latch := latch }

/-- The end of `start`, if `latch_.wait()` has returned. -/
def afterWait (s : System) (latch : CountDownLatch.System) : Code System :=
  if latch.waiters = [.returned ()] then do
    check .threadTid (0 < s.tid)
    return { s with owner := .started, latch := latch }
  else
    return { s with latch := latch }

def join (s : System) : Code System := do
  check .threadJoinStarted (s.started = true)
  check .threadJoined (s.joined = false)
  -- `pthread_join` waits for the thread.
  require (s.runner = .finished)
  return { s with joined := true }

def step (s : System) : Event → Code System
  | .start => do
    require (s.owner = .constructed)
    s.start
  | .lockWait => do
    require (s.owner = .starting)
    let latch ← s.latch.step (.lockWait 0)
    s.afterWait latch
  | .wake => do
    require (s.owner = .starting)
    let latch ← s.latch.step (.wake 0)
    return { s with latch := latch }
  | .storeTid tid => do
    require (s.runner = .storeTid ∧ 0 < tid)
    s.touch
    return { s with runner := .countDown, tid := tid }
  | .countDown => do
    require (s.runner = .countDown)
    s.touch
    let latch ← s.latch.step .countDown
    return { s with runner := .function, latch := latch }
  | .finish => do
    require (s.runner = .function)
    return { s with runner := .finished }
  | .join => do
    require (s.owner = .started ∧ s.joined = false)
    s.join
  | .destroy => do
    require (s.owner = .constructed ∨ s.owner = .started)
    return { s with owner := .destroyed }

/-- The new thread has done with the object. -/
def Released (s : System) : Prop := s.runner = .function ∨ s.runner = .finished

/-- The owner is at the latch until the new thread has counted it down. -/
def Phase (s : System) : Prop :=
  match s.owner with
  | .constructed => s.runner = .notCreated ∧ s.started = false ∧ s.latch.waiters = []
  | .starting => s.started = true ∧ ∃ c, s.latch.waiters = [c] ∧ c ≠ .returned ()
  | .started => s.started = true ∧ s.Released
  | .destroyed => s.runner = .notCreated ∨ s.Released

instance (s : System) : Decidable s.Released := inferInstanceAs (Decidable (_ ∨ _))

structure Inv (s : System) : Prop where
  latch : s.latch.Inv 1 (if s.Released then 1 else 0)
  tid : s.runner = .notCreated ∨ s.runner = .storeTid ∨ 0 < s.tid
  phase : s.Phase

variable {s : System}

lemma inv_new : new.Inv :=
  ⟨CountDownLatch.System.inv_start 1, .inl rfl, rfl, rfl, rfl⟩

lemma Inv.phase_of (h : s.Inv) {owner : Owner} (ho : s.owner = owner) :
    Phase { s with owner := owner } :=
  ho ▸ h.phase

lemma Inv.start (h : s.Inv) (ho : s.owner = .constructed) : Safe s.start Inv := by
  obtain ⟨hr, hs, hw⟩ := h.phase_of ho
  simp only [System.start, CountDownLatch.System.step, safe_bind, safe_check, safe_pure]
  have hlatch := h.latch.callWait
  rw [if_neg (by simp [Released, show s.runner = _ from hr])] at hlatch
  exact ⟨hs, hlatch, .inr (.inl rfl), rfl, .lock (), by simpa using hw⟩

/-- The owner gets past the latch only when the new thread has counted it down. -/
lemma Inv.released_of_open (h : s.Inv) (hopen : ¬ 0 < s.latch.count) : s.Released := by
  by_contra hrel
  rw [h.latch.count, if_neg hrel] at hopen
  exact hopen (by decide)

lemma Inv.tid_of_released (h : s.Inv) (hr : s.Released) : 0 < s.tid := by
  rcases h.tid with ht | ht | ht
  · simp [Released, ht] at hr
  · simp [Released, ht] at hr
  · exact ht

lemma Inv.afterWait (h : s.Inv) (ho : s.owner = .starting) :
    Safe (s.afterWait (s.latch.wait 0)) Inv := by
  obtain ⟨hstarted, c, hw, -⟩ := h.phase_of ho
  have hw : s.latch.waiters = [c] := hw
  have hlatch := h.latch.wait 0
  unfold System.afterWait
  by_cases hopen : 0 < s.latch.count
  · have hwaiters : (s.latch.wait 0).waiters = [.waiting ()] := by
      simp [CountDownLatch.System.wait, hopen, hw]
    rw [hwaiters, if_neg (by decide), safe_pure]
    refine ⟨hlatch, h.tid, ?_⟩
    rw [Phase, ho]
    exact ⟨hstarted, .waiting (), hwaiters, by decide⟩
  · have hwaiters : (s.latch.wait 0).waiters = [.returned ()] := by
      simp [CountDownLatch.System.wait, hopen, hw]
    have hrel := h.released_of_open hopen
    rw [hwaiters, if_pos rfl, safe_bind, safe_check, safe_pure]
    exact ⟨h.tid_of_released hrel, hlatch, h.tid, hstarted, hrel⟩

/-- The owner is still in `start` while the new thread has not done with the object. -/
lemma Inv.starting_of_runner (h : s.Inv) (hr : s.runner = .storeTid ∨ s.runner = .countDown) :
    s.owner = .starting := by
  have hphase := h.phase
  cases ho : s.owner with
  | starting => rfl
  | _ => rcases hr with hr | hr <;> simp [Phase, ho, Released, hr] at hphase

lemma Inv.storeTid (h : s.Inv) (hr : s.runner = .storeTid) {tid : ℕ} (ht : 0 < tid) :
    Inv { s with runner := .countDown, tid := tid } := by
  have ho := h.starting_of_runner (.inl hr)
  have hlatch := h.latch
  rw [if_neg (by simp [Released, hr])] at hlatch
  refine ⟨hlatch, .inr (.inr ht), ?_⟩
  rw [Phase, ho]
  exact h.phase_of ho

lemma Inv.countDown (h : s.Inv) (hr : s.runner = .countDown) :
    Inv { s with runner := .function, latch := s.latch.countDown } := by
  have ho := h.starting_of_runner (.inr hr)
  obtain ⟨hstarted, c, hw, hret⟩ := h.phase_of ho
  have hw : s.latch.waiters = [c] := hw
  have hlatch := h.latch
  rw [if_neg (by simp [Released, hr])] at hlatch
  refine ⟨hlatch.countDown (by decide) (by decide), .inr (.inr (by simpa [hr] using h.tid)), ?_⟩
  rw [Phase, ho]
  refine ⟨hstarted, ?_⟩
  simp only [CountDownLatch.System.countDown, hw]
  split
  · refine ⟨_, rfl, ?_⟩
    cases c with
    | returned => exact hret
    | _ => simp [Call.condition, Call.waits, Call.signal]
  · exact ⟨c, rfl, hret⟩

lemma Inv.finish (h : s.Inv) (hr : s.runner = .function) :
    Inv { s with runner := .finished } := by
  have hlatch := h.latch
  rw [if_pos (.inl hr)] at hlatch
  refine ⟨hlatch, .inr (.inr (h.tid_of_released (.inl hr))), ?_⟩
  have hphase := h.phase
  cases ho : s.owner with
  | constructed => simp [Phase, ho, hr] at hphase
  | starting => exact h.phase_of ho
  | started => exact ⟨(h.phase_of ho).1, .inr rfl⟩
  | destroyed => exact .inr (.inr rfl)

lemma Inv.wake (h : s.Inv) (ho : s.owner = .starting) :
    Safe (s.latch.step (.wake 0)) fun latch => Inv { s with latch := latch } := by
  obtain ⟨hstarted, c, hw, -⟩ := h.phase_of ho
  have hw : s.latch.waiters = [c] := hw
  rw [CountDownLatch.System.step, safe_bind]
  refine ((Call.wake_spec s.latch.waiters 0).and_of_ok
    (R := fun waiters => CountDownLatch.System.Inv 1 (if s.Released then 1 else 0)
      { s.latch with waiters }) ?_).mono ?_
  · intro waiters hwake
    refine (h.latch.wake 0).of_ok ?_
    rw [CountDownLatch.System.step, hwake, ok_bind]
    rfl
  · rintro _ ⟨⟨⟨⟩, -, rfl⟩, hlatch⟩
    refine ⟨hlatch, h.tid, ?_⟩
    rw [Phase, ho]
    exact ⟨hstarted, .woken () false, by simp [hw], by simp⟩

lemma Inv.step (h : s.Inv) (e : Event) : Safe (s.step e) Inv := by
  cases e with
  | start =>
    rw [System.step, safe_bind, safe_require]
    exact h.start
  | lockWait =>
    rw [System.step, safe_bind, safe_require]
    intro ho
    rw [safe_bind, CountDownLatch.System.step, safe_bind, safe_require]
    exact fun _ => h.afterWait ho
  | wake =>
    rw [System.step, safe_bind, safe_require]
    intro ho
    rw [safe_bind]
    exact h.wake ho
  | storeTid tid =>
    rw [System.step, safe_bind, safe_require]
    rintro ⟨hr, ht⟩
    rw [System.touch, safe_bind, safe_check]
    exact ⟨by simp [h.starting_of_runner (.inl hr)], h.storeTid hr ht⟩
  | countDown =>
    rw [System.step, safe_bind, safe_require]
    intro hr
    rw [System.touch, safe_bind, safe_check]
    exact ⟨by simp [h.starting_of_runner (.inr hr)], h.countDown hr⟩
  | finish =>
    rw [System.step, safe_bind, safe_require]
    exact h.finish
  | join =>
    rw [System.step, safe_bind, safe_require]
    rintro ⟨ho, hj⟩
    simp only [System.join, safe_bind, safe_check, safe_require, safe_pure]
    exact ⟨(h.phase_of ho).1, hj, fun _ => { h with }⟩
  | destroy =>
    rw [System.step, safe_bind, safe_require]
    rintro (ho | ho)
    · exact ⟨h.latch, h.tid, .inl (h.phase_of ho).1⟩
    · exact ⟨h.latch, h.tid, .inr (h.phase_of ho).2⟩

/-- Whatever the scheduler does, no assertion fails and the new thread uses the object only while it
is there, and when `start` has returned, `tid_` is the new thread's and the new thread has done with
the object. -/
theorem start_publishes (es : List Event) :
    Safe (run System.step new es) fun s => s.owner = .started → 0 < s.tid ∧ s.Released :=
  (run_invariant (fun _ e h => Inv.step h e) inv_new es).mono fun _ h ho =>
    ⟨h.tid_of_released (h.phase_of ho).2, (h.phase_of ho).2⟩

end System
end Thread
end Muduo

import Muduo.Base.Code
import Muduo.Machine.Condition

/-!
# The thread pool

Workers and callers of `run` are threads that meet at the mutex of the pool. What a thread does
between locking the mutex and unlocking it (or waiting, which unlocks it) is one step, and the
scheduler is a list of events: which thread locks the mutex next, which waiting thread `notify`
signals, which thread wakes up with no signal at all.

The result of the module is `run_schedules`: a bounded queue stays within its bound, the tasks of
the calls enter the queue, leave it in the same order and are executed, and nobody waits for what is
already there unless a signal is on its way.
-/

namespace Muduo

open Machine

variable {α : Type}

/-- A `std::function`, which can be empty. -/
abbrev Task (α : Type) := Option α

structure ThreadPool (α : Type) where
  maxQueueSize : ℕ
  running : Bool
  queue : List (Task α)
  deriving DecidableEq

namespace ThreadPool

def isFull (p : ThreadPool α) : Bool :=
  0 < p.maxQueueSize && p.maxQueueSize ≤ p.queue.length

/-- Where a worker is in `runInThread`. -/
inductive Worker (α : Type) where
  /-- At the condition of `while (running_)`. -/
  | testRunning
  /-- At the lock of `take`. -/
  | lockTake
  /-- In `notEmpty_.wait()`. -/
  | waiting
  /-- About to return from `notEmpty_.wait()`, with or without a signal. -/
  | woken (signalled : Bool)
  /-- `take` has returned. -/
  | executing (task : Task α)
  | exited
  deriving DecidableEq

/-- Where a thread that called `run` is in it. -/
inductive Caller (α : Type) where
  | lockRun (task : Task α)
  | waiting (task : Task α)
  | woken (task : Task α) (signalled : Bool)
  | returned (task : Task α) (enqueued : Bool)
  deriving DecidableEq

def Worker.waits : Worker α → Bool
  | .waiting => true
  | _ => false

def Worker.signalled : Worker α → Bool
  | .woken signalled => signalled
  | _ => false

/-- What a worker has taken and not yet executed. -/
def Worker.task : Worker α → Task α
  | .executing task => task
  | _ => none

def Caller.waits : Caller α → Bool
  | .waiting _ => true
  | _ => false

def Caller.signalled : Caller α → Bool
  | .woken _ signalled => signalled
  | _ => false

def Caller.signal : Caller α → Caller α
  | .waiting task => .woken task true
  | c => c

/-- The task of a call, and once it has returned whether the task was enqueued. -/
def Caller.call : Caller α → Task α × Option Bool
  | .lockRun task => (task, none)
  | .waiting task => (task, none)
  | .woken task _ => (task, none)
  | .returned task enqueued => (task, some enqueued)

/-- The task, if it was enqueued. -/
def Caller.enqueued (c : Caller α) : Option (Task α) :=
  if c.call.2 = some true then some c.call.1 else none

def notEmpty : Condition (Worker α) where
  waits := Worker.waits
  signalled := Worker.signalled
  signal _ := .woken true
  not_signalled w := by cases w <;> simp [Worker.waits, Worker.signalled]
  signal_not_waits w := by simp [Worker.waits]
  signal_signalled w := by simp [Worker.signalled]

def notFull : Condition (Caller α) where
  waits := Caller.waits
  signalled := Caller.signalled
  signal := Caller.signal
  not_signalled c := by cases c <;> simp [Caller.waits, Caller.signalled]
  signal_not_waits c := by cases c <;> simp [Caller.waits, Caller.signal]
  signal_signalled c := by cases c <;> simp [Caller.waits, Caller.signalled, Caller.signal]

/-- The pool, its threads and what has happened to the tasks. -/
structure System (α : Type) where
  pool : ThreadPool α
  workers : List (Worker α)
  callers : List (Caller α)
  enqueued : List (Task α)
  taken : List (Task α)
  executed : List α
  deriving DecidableEq

/-- `start(numThreads)`. -/
def start (maxQueueSize numThreads : ℕ) : System α where
  pool := { maxQueueSize := maxQueueSize, running := true, queue := [] }
  workers := List.replicate numThreads .testRunning
  callers := []
  enqueued := []
  taken := []
  executed := []

namespace System

/-- The signal of `take` for the place it has freed. An unbounded queue needs none. -/
def signalNotFull (s : System α) (target : ℕ) : Code (List (Caller α)) :=
  if 0 < s.pool.maxQueueSize then notFull.notify s.callers target else return s.callers

/-- `take` of the worker `w`, once it has the mutex. `notFull_.notify()` signals `target`. -/
def take (s : System α) (w target : ℕ) : Code (System α) :=
  match s.pool.queue with
  | [] =>
    if s.pool.running then
      return { s with workers := s.workers.set w .waiting }
    else
      return { s with workers := s.workers.set w (.executing none) }
  | task :: queue => do
    let callers ← s.signalNotFull target
    return { s with
      pool := { s.pool with queue := queue }
      workers := s.workers.set w (.executing task)
      callers := callers
      taken := s.taken ++ [task] }

/-- `run` of the caller `c`, once it has the mutex. `notEmpty_.notify()` signals `target`. -/
def run (s : System α) (c : ℕ) (task : Task α) (target : ℕ) : Code (System α) :=
  if s.pool.isFull && s.pool.running then
    return { s with callers := s.callers.set c (.waiting task) }
  else if !s.pool.running then
    return { s with callers := s.callers.set c (.returned task false) }
  else do
    check .threadPoolFull (s.pool.isFull = false)
    let workers ← notEmpty.notify s.workers target
    return { s with
      pool := { s.pool with queue := s.pool.queue ++ [task] }
      workers := workers
      callers := s.callers.set c (.returned task true)
      enqueued := s.enqueued ++ [task] }

/-- The locked part of `stop`. -/
def stop (s : System α) : System α :=
  { s with
    pool := { s.pool with running := false }
    workers := notEmpty.notifyAll s.workers
    callers := notFull.notifyAll s.callers }

end System

inductive Event (α : Type) where
  /-- The worker `w` evaluates `running_`. -/
  | testRunning (w : ℕ)
  /-- The worker `w` locks the mutex, at the beginning of `take` or to return from `wait`. -/
  | take (w target : ℕ)
  /-- The worker `w` wakes up with no signal. -/
  | wakeWorker (w : ℕ)
  /-- The worker `w` executes what `take` returned. -/
  | execute (w : ℕ)
  /-- A thread calls `run(task)`. -/
  | call (task : Task α)
  /-- The caller `c` locks the mutex, at the beginning of `run` or to return from `wait`. -/
  | run (c target : ℕ)
  /-- The caller `c` wakes up with no signal. -/
  | wakeCaller (c : ℕ)
  | stop
  deriving DecidableEq

/-- The task that an event calls `run` with. -/
def Event.called : Event α → List (Task α)
  | .call task => [task]
  | _ => []

namespace System

def step (s : System α) : Event α → Code (System α)
  | .testRunning w =>
    match s.workers[w]? with
    | some .testRunning =>
      return { s with workers := s.workers.set w (if s.pool.running then .lockTake else .exited) }
    | _ => .error .disabled
  | .take w target =>
    match s.workers[w]? with
    | some .lockTake => s.take w target
    | some (.woken _) => s.take w target
    | _ => .error .disabled
  | .wakeWorker w =>
    match s.workers[w]? with
    | some .waiting => return { s with workers := s.workers.set w (.woken false) }
    | _ => .error .disabled
  | .execute w =>
    match s.workers[w]? with
    | some (.executing task) =>
      -- An empty task is not called.
      return { s with
        workers := s.workers.set w .testRunning
        executed := s.executed ++ task.toList }
    | _ => .error .disabled
  | .call task =>
    -- A pool without threads executes the task in the caller.
    if s.workers = [] then
      return { s with executed := s.executed ++ task.toList }
    else
      return { s with callers := s.callers ++ [.lockRun task] }
  | .run c target =>
    match s.callers[c]? with
    | some (.lockRun task) => s.run c task target
    | some (.woken task _) => s.run c task target
    | _ => .error .disabled
  | .wakeCaller c =>
    match s.callers[c]? with
    | some (.waiting task) => return { s with callers := s.callers.set c (.woken task false) }
    | _ => .error .disabled
  | .stop => do
    require (s.pool.running = true)
    return s.stop

/-- Nobody waits on either condition. -/
structure NoneWaits (s : System α) : Prop where
  workers : ∀ w ∈ s.workers, notEmpty.waits w = false
  callers : ∀ c ∈ s.callers, notFull.waits c = false

/-- While the pool runs, a worker is signalled for each task in the queue and a caller for each
free place, as long as somebody waits for one. -/
structure Running (s : System α) : Prop where
  notEmpty : notEmpty.Covered s.workers s.pool.queue.length
  notFull : notFull.Covered s.callers (s.pool.maxQueueSize - s.pool.queue.length)
  unbounded : s.pool.maxQueueSize = 0 → ∀ c ∈ s.callers, ThreadPool.notFull.waits c = false

structure Inv (maxQueueSize : ℕ) (s : System α) : Prop where
  size : s.pool.maxQueueSize = maxQueueSize
  bound : 0 < maxQueueSize → s.pool.queue.length ≤ maxQueueSize
  order : s.taken ++ s.pool.queue = s.enqueued
  running : s.pool.running = true → s.Running
  stopped : s.pool.running = false → s.NoneWaits

variable {m : ℕ} {s : System α}

lemma inv_start (maxQueueSize numThreads : ℕ) :
    (start maxQueueSize numThreads : System α).Inv maxQueueSize where
  size := rfl
  bound _ := Nat.zero_le _
  order := rfl
  running _ :=
    { notEmpty := fun _ => Nat.zero_le _
      notFull := by rintro ⟨c, hc, -⟩; simp [start] at hc
      unbounded := by simp [start] }
  stopped h := by cases h

/-- A worker goes on without the mutex, and does not wait. -/
lemma Inv.setWorker (h : s.Inv m) {w : ℕ} {t t' : Worker α} (hw : s.workers[w]? = some t)
    (ht : notEmpty.signalled t = false) (ht' : notEmpty.waits t' = false)
    (executed : List α) :
    { s with workers := s.workers.set w t', executed := executed }.Inv m where
  size := h.size
  bound := h.bound
  order := h.order
  running hr :=
    { h.running hr with
      notEmpty := (h.running hr).notEmpty.set hw (.inr ⟨ht', by simp [ht]⟩) }
  stopped hr :=
    { h.stopped hr with
      workers := Condition.set_not_waits (h.stopped hr).workers ht' }

/-- With a task taken out of the queue one place more is free, and a caller is signalled for it. -/
lemma Inv.signalNotFull (h : s.Inv m) {task : Task α} {queue : List (Task α)}
    (hq : s.pool.queue = task :: queue) (target : ℕ) :
    Safe (s.signalNotFull target) fun callers =>
      (s.pool.running = true → notFull.Covered callers (m - queue.length) ∧
        (m = 0 → ∀ c ∈ callers, notFull.waits c = false)) ∧
      (s.pool.running = false → ∀ c ∈ callers, notFull.waits c = false) := by
  rw [System.signalNotFull, h.size]
  split
  · rename_i hm
    have hplace : m - (queue.length + 1) + 1 = m - queue.length := by
      have := h.bound hm
      rw [hq, List.length_cons] at this
      omega
    have hcov : notFull.Covered s.callers
        (if s.pool.running then m - (queue.length + 1) else 0) := by
      split
      · simpa [h.size, hq] using (h.running ‹_›).notFull
      · exact fun _ => Nat.zero_le _
    refine (hcov.notify target).mono fun callers hc => ⟨fun hr => ⟨?_, ?_⟩, fun hr => ?_⟩
    · simpa [hr, hplace] using hc.1
    · omega
    · exact hc.2 (h.stopped hr).callers
  · rename_i hm
    have hm : m = 0 := Nat.eq_zero_of_not_pos hm
    refine ⟨fun hr => ⟨fun _ => by simp [hm], fun _ => ?_⟩, fun hr => ?_⟩
    · exact (h.running hr).unbounded (h.size.trans hm)
    · exact (h.stopped hr).callers

lemma Inv.take (h : s.Inv m) {w : ℕ} {t : Worker α} (hw : s.workers[w]? = some t) (target : ℕ) :
    Safe (s.take w target) (Inv m) := by
  unfold System.take
  split
  · rename_i hq
    cases hr : s.pool.running with
    | true =>
      refine { h with running := fun _ => ?_, stopped := fun hr' => ?_ }
      · -- The queue is empty: this worker waits for nothing that is there.
        refine { h.running hr with notEmpty := (h.running hr).notEmpty.set hw (.inl ?_) }
        rw [hq, List.length_nil]
      · cases hr.symm.trans hr'
    | false =>
      refine { h with running := fun hr' => ?_, stopped := fun _ => ?_ }
      · cases hr.symm.trans hr'
      · exact { h.stopped hr with
          workers := Condition.set_not_waits (h.stopped hr).workers rfl }
  · rename_i task queue hq
    rw [safe_bind]
    refine (h.signalNotFull hq target).mono fun callers hc =>
      { size := h.size
        bound := fun hm => ?_
        order := by simp [← h.order, hq]
        running := fun hr => ⟨?_, ?_, ?_⟩
        stopped := fun hr => ?_ }
    · have := h.bound hm
      rw [hq] at this
      exact (Nat.le_succ _).trans this
    · refine (h.running hr).notEmpty.set hw (.inr ⟨rfl, ?_⟩)
      have hle : (if notEmpty.signalled t then 1 else 0) ≤ 1 := by split <;> simp
      rw [hq, List.length_cons]
      exact Nat.add_le_add_left hle queue.length
    · simpa [h.size] using (hc.1 hr).1
    · simpa [h.size] using (hc.1 hr).2
    · exact ⟨Condition.set_not_waits (h.stopped hr).workers rfl, hc.2 hr⟩

lemma Inv.run (h : s.Inv m) {c : ℕ} {t : Caller α} (hc : s.callers[c]? = some t) (task : Task α)
    (target : ℕ) : Safe (s.run c task target) (Inv m) := by
  unfold System.run
  split
  · rename_i hfull
    simp only [Bool.and_eq_true, isFull, decide_eq_true_eq] at hfull
    obtain ⟨⟨hm, hfull⟩, hr⟩ := hfull
    refine { h with running := fun _ => ?_, stopped := by simp [hr] }
    refine { h.running hr with notFull := ?_, unbounded := fun h0 => absurd h0 hm.ne' }
    exact (h.running hr).notFull.set hc (.inl (Nat.sub_eq_zero_of_le hfull))
  · rename_i hfull
    split
    · rename_i hr
      have hr : s.pool.running = false := by simpa using hr
      refine { h with running := by simp [hr], stopped := fun _ => ?_ }
      exact { h.stopped hr with
        callers := Condition.set_not_waits (h.stopped hr).callers rfl }
    · rename_i hr
      have hr : s.pool.running = true := by simpa using hr
      have hfull : s.pool.isFull = false := by simpa [hr] using hfull
      have hplace : m = 0 ∨ s.pool.queue.length < m := by
        simp only [isFull, h.size, Bool.and_eq_false_iff, decide_eq_false_iff_not] at hfull
        omega
      rw [safe_bind, safe_check, safe_bind]
      refine ⟨hfull, ((h.running hr).notEmpty.notify target).mono fun workers hw =>
          { size := h.size
            bound := fun hm => ?_
            order := by simp [← h.order]
            running := fun _ => ?_
            stopped := by simp [hr] }⟩
      · simp only [List.length_append, List.length_singleton]
        omega
      · refine { notEmpty := by simpa using hw.1, notFull := ?_, unbounded := fun h0 => ?_ }
        · refine (h.running hr).notFull.set hc ?_
          simp only [h.size, List.length_append, List.length_singleton]
          rcases hplace with rfl | hlt
          · exact .inl (Nat.zero_sub _)
          · refine .inr ⟨rfl, ?_⟩
            split <;> omega
        · exact Condition.set_not_waits ((h.running hr).unbounded h0) rfl

lemma Inv.stop (h : s.Inv m) : s.stop.Inv m where
  size := h.size
  bound := h.bound
  order := h.order
  running hr := by cases hr
  stopped _ := ⟨fun _ => Condition.notifyAll_not_waits, fun _ => Condition.notifyAll_not_waits⟩

lemma Inv.call (h : s.Inv m) (task : Task α) :
    { s with callers := s.callers ++ [Caller.lockRun task] }.Inv m := by
  have hconcat : (∀ c ∈ s.callers, notFull.waits c = false) →
      ∀ c ∈ s.callers ++ [Caller.lockRun task], notFull.waits c = false := by
    intro hc c hmem
    rcases List.mem_append.mp hmem with hmem | hmem
    · exact hc c hmem
    · rw [List.mem_singleton.mp hmem]
      rfl
  refine { h with running := fun hr => ?_, stopped := fun hr => ?_ }
  · exact { h.running hr with
      notFull := (h.running hr).notFull.concat rfl
      unbounded := fun h0 => hconcat ((h.running hr).unbounded h0) }
  · exact { h.stopped hr with callers := hconcat (h.stopped hr).callers }

/-- A caller wakes up with no signal. -/
lemma Inv.wakeCaller (h : s.Inv m) {c : ℕ} {task : Task α}
    (hc : s.callers[c]? = some (.waiting task)) :
    { s with callers := s.callers.set c (.woken task false) }.Inv m := by
  refine { h with running := fun hr => ?_, stopped := fun hr => ?_ }
  · exact { h.running hr with
      notFull := (h.running hr).notFull.set hc (.inr ⟨rfl, le_rfl⟩)
      unbounded := fun h0 => Condition.set_not_waits ((h.running hr).unbounded h0) rfl }
  · exact { h.stopped hr with
      callers := Condition.set_not_waits (h.stopped hr).callers rfl }

lemma Inv.step (h : s.Inv m) (e : Event α) : Safe (s.step e) (Inv m) := by
  cases e with
  | testRunning w =>
    rw [System.step]
    split
    · refine h.setWorker ‹_› rfl ?_ s.executed
      split <;> rfl
    · trivial
  | take w target =>
    rw [System.step]
    split
    · exact h.take ‹_› target
    · exact h.take ‹_› target
    · trivial
  | wakeWorker w =>
    rw [System.step]
    split
    · exact h.setWorker ‹_› rfl rfl s.executed
    · trivial
  | execute w =>
    rw [System.step]
    split
    · exact h.setWorker ‹_› rfl rfl _
    · trivial
  | call task =>
    rw [System.step]
    split
    · exact { h with
        running := fun hr => { h.running hr with }
        stopped := fun hr => { h.stopped hr with } }
    · exact h.call task
  | run c target =>
    rw [System.step]
    split
    · exact h.run ‹_› _ target
    · exact h.run ‹_› _ target
    · trivial
  | wakeCaller c =>
    rw [System.step]
    split
    · exact h.wakeCaller ‹_›
    · trivial
  | stop =>
    rw [System.step, safe_bind, safe_require]
    exact fun _ => h.stop

lemma Inv.worker_signalled (h : s.Inv m) (hr : s.pool.running = true) (hq : s.pool.queue ≠ [])
    (hw : .waiting ∈ s.workers) : .woken true ∈ s.workers := by
  obtain ⟨w, hmem, hs⟩ :=
    (h.running hr).notEmpty.exists_signalled (List.length_pos_iff.mpr hq) hw rfl
  cases w with
  | woken signalled =>
    cases signalled with
    | true => exact hmem
    | false => cases hs
  | _ => cases hs

lemma Inv.caller_signalled (h : s.Inv m) (hr : s.pool.running = true)
    (hq : m = 0 ∨ s.pool.queue.length < m) {task : Task α} (hc : .waiting task ∈ s.callers) :
    ∃ task', .woken task' true ∈ s.callers := by
  rcases hq with rfl | hq
  · have := (h.running hr).unbounded h.size _ hc
    cases this
  obtain ⟨c, hmem, hs⟩ := (h.running hr).notFull.exists_signalled
    (by rw [h.size]; omega) hc rfl
  cases c with
  | woken task' signalled =>
    cases signalled with
    | true => exact ⟨task', hmem⟩
    | false => cases hs
  | _ => cases hs

/-! ### What becomes of the calls -/

/-- The calls and the tasks after the events `es`. -/
structure Accounts (numThreads : ℕ) (s : System α) (es : List (Event α)) : Prop where
  threads : s.workers.length = numThreads
  running : s.pool.running = true ↔ .stop ∉ es
  called : s.callers.map (·.call.1) = es.flatMap Event.called
  enqueued : (s.callers.filterMap Caller.enqueued).Perm s.enqueued
  /-- While the pool runs, no call returns without having enqueued its task. -/
  returned : s.pool.running = true → ∀ c ∈ s.callers, c.call.2 ≠ some false
  executed : (s.taken.filterMap id).Perm (s.executed ++ s.workers.filterMap Worker.task)

variable {n : ℕ} {t : System α} {es : List (Event α)} {e : Event α}

lemma accounts_start (maxQueueSize numThreads : ℕ) :
    Accounts numThreads (start maxQueueSize numThreads : System α) [] where
  threads := List.length_replicate
  running := by simp [start]
  called := rfl
  enqueued := .nil
  returned _ := by simp [start]
  executed := by simp [start, Worker.task]

/-- What the accounts say of the callers depends on their calls only. -/
lemma enqueued_eq {callers callers' : List (Caller α)}
    (h : callers'.map Caller.call = callers.map Caller.call) :
    callers'.filterMap Caller.enqueued = callers.filterMap Caller.enqueued := by
  refine Condition.filterMap_eq_of_map_eq ?_
  have hmap := congrArg (List.map fun p => if p.2 = some true then some p.1 else none) h
  rwa [List.map_map, List.map_map] at hmap

/-- A step that changes no call. -/
lemma Accounts.of_eq (h : Accounts n s es) (he : e ≠ .stop) (hcalled : e.called = [])
    (hthreads : t.workers.length = s.workers.length) (hrunning : t.pool.running = s.pool.running)
    (hcalls : t.callers.map Caller.call = s.callers.map Caller.call)
    (henqueued : t.enqueued = s.enqueued)
    (hexecuted : (t.taken.filterMap id).Perm (t.executed ++ t.workers.filterMap Worker.task)) :
    Accounts n t (es ++ [e]) where
  threads := hthreads.trans h.threads
  running := by simp [hrunning, h.running, he.symm]
  called := by
    have hfst := congrArg (List.map Prod.fst) hcalls
    simp only [List.map_map, Function.comp_def] at hfst
    simpa [hcalled] using hfst.trans h.called
  enqueued := by
    rw [enqueued_eq hcalls, henqueued]
    exact h.enqueued
  returned hr c hc hfalse := by
    have hmem : c.call ∈ s.callers.map Caller.call := hcalls ▸ List.mem_map_of_mem hc
    obtain ⟨c', hc', heq⟩ := List.mem_map.mp hmem
    exact h.returned (hrunning ▸ hr) c' hc' (heq ▸ hfalse)
  executed := hexecuted

/-- A worker goes on. What it gives away has been executed, and what it gets has been taken. -/
lemma Accounts.perm_setWorker (h : Accounts n s es) {w : ℕ} {a : Worker α}
    (hw : s.workers[w]? = some a) (b : Worker α) (taken executed : List α)
    (hbalance : taken ++ a.task.toList = executed ++ b.task.toList) :
    (s.taken.filterMap id ++ taken).Perm
      (s.executed ++ executed ++ (s.workers.set w b).filterMap Worker.task) := by
  have hset := Condition.perm_filterMap_set Worker.task hw b
  have hold := h.executed
  simp only [← Multiset.coe_eq_coe, ← Multiset.coe_add] at hset hold ⊢
  have hbalance : (taken : Multiset α) + a.task.toList = executed + b.task.toList := by
    rw [Multiset.coe_add, Multiset.coe_add, hbalance]
  rw [← add_left_inj (a.task.toList : Multiset α)]
  calc _ = ((s.executed : Multiset α) + (s.workers.filterMap Worker.task : List α)) +
        (taken + a.task.toList) := by rw [hold]; abel
    _ = (s.executed : Multiset α) + executed +
        (b.task.toList + (s.workers.filterMap Worker.task : List α)) := by rw [hbalance]; abel
    _ = _ := by rw [← hset]; abel

/-- A worker gives away what it has executed. -/
lemma Accounts.setWorker (h : Accounts n s es) {w : ℕ} {a : Worker α} (hw : s.workers[w]? = some a)
    (b : Worker α) (executed : List α) (hbalance : a.task.toList = executed ++ b.task.toList)
    (he : e ≠ .stop) (hcalled : e.called = []) :
    Accounts n { s with workers := s.workers.set w b, executed := s.executed ++ executed }
      (es ++ [e]) :=
  h.of_eq he hcalled (by simp) rfl rfl rfl
    (by simpa using h.perm_setWorker hw b [] executed hbalance)

lemma call_signal (c : Caller α) : c.signal.call = c.call := by
  cases c <;> rfl

lemma Accounts.take (h : Accounts n s es) {w : ℕ} {a : Worker α} (hw : s.workers[w]? = some a)
    (ha : a.task = none) {target : ℕ} (ht : s.take w target = .ok t) :
    Accounts n t (es ++ [.take w target]) := by
  unfold System.take at ht
  split at ht
  · split at ht
    all_goals
      cases ht
      simpa using h.setWorker hw _ [] (by rw [ha]; rfl) (by simp) rfl
  · rename_i task queue hq
    obtain ⟨callers, hcallers, ht⟩ := bind_eq_ok.mp ht
    cases ht
    refine h.of_eq (by simp) rfl (by simp) rfl ?_ rfl ?_
    · unfold System.signalNotFull at hcallers
      split at hcallers
      · exact Condition.notify_map_eq (fun c _ => call_signal c) hcallers
      · cases hcallers
        rfl
    · have hperm := h.perm_setWorker hw (.executing task) task.toList []
        (by rw [ha]; exact List.append_nil _)
      cases task <;> simpa using hperm

lemma Accounts.run (h : Accounts n s es) {c : ℕ} {a : Caller α} {task : Task α}
    (hc : s.callers[c]? = some a) (ha : a.call = (task, none)) {target : ℕ}
    (ht : s.run c task target = .ok t) : Accounts n t (es ++ [.run c target]) := by
  have hnone : a.enqueued = none := by simp [Caller.enqueued, ha]
  -- the task of the call is the same, whether it has returned or not
  have hcalled : ∀ b, (s.callers.set c (.returned task b)).map (·.call.1) =
      es.flatMap Event.called := fun b =>
    (Condition.map_set_eq hc (by rw [ha]; rfl)).trans h.called
  have henqueued := fun b => Condition.perm_filterMap_set Caller.enqueued hc (.returned task b)
  unfold System.run at ht
  split at ht
  · cases ht
    exact h.of_eq (by simp) rfl rfl rfl (Condition.map_set_eq hc ha.symm) rfl h.executed
  · split at ht
    · rename_i hr
      cases ht
      refine ⟨h.threads, by simp [h.running], by simpa [Event.called] using hcalled false, ?_,
        fun hr' => ?_, h.executed⟩
      · have hperm := henqueued false
        rw [hnone] at hperm
        exact hperm.trans h.enqueued
      · exact absurd hr' (by simpa using hr)
    · rename_i hr
      obtain ⟨-, -, ht⟩ := bind_eq_ok.mp ht
      obtain ⟨workers, hworkers, ht⟩ := bind_eq_ok.mp ht
      cases ht
      have hmap := Condition.notify_map_eq (f := Worker.task)
        (fun b hb => by cases b <;> first | rfl | cases hb) hworkers
      refine ⟨?_, by simp [h.running], by simpa [Event.called] using hcalled true, ?_, ?_, ?_⟩
      · simpa using (congrArg List.length hmap).trans (by simpa using h.threads)
      · have hperm := henqueued true
        rw [hnone] at hperm
        exact (hperm.trans (h.enqueued.cons task)).trans (List.perm_append_singleton ..).symm
      · intro hr' c' hc'
        rcases List.mem_or_eq_of_mem_set hc' with hc' | rfl
        · exact h.returned hr' c' hc'
        · simp [Caller.call]
      · rw [Condition.filterMap_eq_of_map_eq hmap]
        exact h.executed

lemma Accounts.stop (h : Accounts n s es) : Accounts n s.stop (es ++ [.stop]) := by
  have hcalls : s.stop.callers.map Caller.call = s.callers.map Caller.call :=
    Condition.notifyAll_map_eq fun c _ => call_signal c
  have hworkers : s.stop.workers.map Worker.task = s.workers.map Worker.task :=
    Condition.notifyAll_map_eq fun b hb => by cases b <;> first | rfl | cases hb
  refine ⟨?_, by simp [System.stop], ?_, ?_, by simp [System.stop], ?_⟩
  · simpa using (congrArg List.length hworkers).trans (by simpa using h.threads)
  · have hfst := congrArg (List.map Prod.fst) hcalls
    simp only [List.map_map, Function.comp_def] at hfst
    simpa [Event.called] using hfst.trans h.called
  · rw [enqueued_eq hcalls]
    exact h.enqueued
  · rw [Condition.filterMap_eq_of_map_eq hworkers]
    exact h.executed

lemma Accounts.step (h : Accounts n s es) (hn : 0 < n) (ht : s.step e = .ok t) :
    Accounts n t (es ++ [e]) := by
  cases e with
  | testRunning w =>
    rw [System.step] at ht
    split at ht
    · rename_i hw
      cases ht
      have htask : (if s.pool.running then Worker.lockTake else .exited : Worker α).task = none := by
        split <;> rfl
      simpa using h.setWorker hw _ [] (by rw [htask]; rfl) (by simp) rfl
    · cases ht
  | take w target =>
    rw [System.step] at ht
    split at ht
    · exact h.take ‹_› rfl ht
    · exact h.take ‹_› rfl ht
    · cases ht
  | wakeWorker w =>
    rw [System.step] at ht
    split at ht
    · rename_i hw
      cases ht
      simpa using h.setWorker hw (.woken false) [] rfl (by simp) rfl
    · cases ht
  | execute w =>
    rw [System.step] at ht
    split at ht
    · rename_i task hw
      cases ht
      exact h.setWorker hw .testRunning task.toList (by simp [Worker.task]) (by simp) rfl
    · cases ht
  | call task =>
    have hne : s.workers ≠ [] := by
      rw [← List.length_pos_iff, h.threads]
      exact hn
    rw [System.step, if_neg hne] at ht
    cases ht
    refine ⟨h.threads, by simp [h.running], ?_, ?_, ?_, h.executed⟩
    · rw [List.map_append, h.called, List.flatMap_append]
      rfl
    · simpa [Caller.enqueued, Caller.call] using h.enqueued
    · intro hr c hc
      rcases List.mem_append.mp hc with hc | hc
      · exact h.returned hr c hc
      · rw [List.mem_singleton.mp hc]
        simp [Caller.call]
  | run c target =>
    rw [System.step] at ht
    split at ht
    · exact h.run ‹_› rfl ht
    · exact h.run ‹_› rfl ht
    · cases ht
  | wakeCaller c =>
    rw [System.step] at ht
    split at ht
    · rename_i hc
      cases ht
      exact h.of_eq (by simp) rfl rfl rfl (Condition.map_set_eq hc rfl) rfl h.executed
    · cases ht
  | stop =>
    obtain ⟨-, ht⟩ := require_bind_eq_ok.mp ht
    cases ht
    exact h.stop

/-- Whatever the scheduler does: the queue keeps to its bound; the tasks that were enqueued are
those of the calls that returned with their task enqueued, which before `stop` are all that
returned; they are taken in the order in which they were enqueued, and what is taken is executed
once. Before `stop` no worker waits while there is a task and no caller waits while there is room
unless one of them has been signalled, and after `stop` nobody waits. -/
theorem run_schedules (maxQueueSize : ℕ) {numThreads : ℕ} (hn : 0 < numThreads)
    (es : List (Event α)) :
    Safe (Machine.run System.step (start maxQueueSize numThreads) es) fun s =>
      (0 < maxQueueSize → s.pool.queue.length ≤ maxQueueSize) ∧
      s.callers.map (·.call.1) = es.flatMap Event.called ∧
      (s.callers.filterMap Caller.enqueued).Perm s.enqueued ∧
      s.taken ++ s.pool.queue = s.enqueued ∧
      (s.taken.filterMap id).Perm (s.executed ++ s.workers.filterMap Worker.task) ∧
      (s.pool.running = true ↔ .stop ∉ es) ∧
      (.stop ∉ es →
        (∀ c ∈ s.callers, c.call.2 ≠ some false) ∧
        (s.pool.queue ≠ [] → .waiting ∈ s.workers → .woken true ∈ s.workers) ∧
        (maxQueueSize = 0 ∨ s.pool.queue.length < maxQueueSize →
          ∀ task, .waiting task ∈ s.callers → ∃ task', .woken task' true ∈ s.callers)) ∧
      (.stop ∈ es → .waiting ∉ s.workers ∧ ∀ task, .waiting task ∉ s.callers) := by
  have hrun := run_history (P := fun _ _ => True)
    (R := fun s es => Inv maxQueueSize s ∧ Accounts numThreads s es)
    (fun s es e h _ => (h.1.step e).and_of_ok fun t ht => h.2.step hn ht)
    ⟨inv_start maxQueueSize numThreads, accounts_start (α := α) maxQueueSize numThreads⟩
    (along_true _ es)
  refine hrun.mono fun s ⟨h, ha⟩ => ⟨h.bound, ha.called, ha.enqueued, h.order, ha.executed,
    ha.running, fun hstop => ?_, fun hstop => ?_⟩
  · have hr := ha.running.mpr hstop
    exact ⟨ha.returned hr, h.worker_signalled hr, fun hq task => h.caller_signalled hr hq⟩
  · have hr : s.pool.running = false := by
      rw [Bool.eq_false_iff, ne_eq, ha.running]
      exact not_not.mpr hstop
    refine ⟨fun hw => ?_, fun task hc => ?_⟩
    · cases (h.stopped hr).workers _ hw
    · cases (h.stopped hr).callers _ hc

/-- Three workers wait, two of them are signalled for the two tasks that fill the queue, and a third
call waits. -/
def fillQueue : List (Event ℕ) :=
  [.testRunning 0, .testRunning 1, .testRunning 2, .take 0 0, .take 1 0, .take 2 0, .call (some 7),
    .run 0 0, .call (some 8), .run 1 1, .call (some 9), .run 2 0]

/-- The workers that were signalled execute the two tasks, and the third call returns. -/
def workOff : List (Event ℕ) :=
  [.take 0 0, .execute 0, .take 1 0, .execute 1, .run 2 0]

theorem run_schedules_stop :
    Yields (Machine.run System.step (start 2 3) fillQueue) (fun s =>
      .waiting ∈ s.workers ∧ .waiting (some 9) ∈ s.callers) ∧
    Yields (Machine.run System.step (start 2 3) (fillQueue ++ .stop :: workOff)) fun s =>
      s.taken = [some 7, some 8] ∧ s.executed = [7, 8] ∧ (s.callers.map (·.call) =
        [(some 7, some true), (some 8, some true), (some 9, some false)]) ∧
      .waiting ∉ s.workers ∧ ∀ task, .waiting task ∉ s.callers := by
  refine ⟨by decide +kernel, ?_⟩
  obtain ⟨s, hs, htaken, hexecuted, hcalls⟩ :
      Yields (Machine.run System.step (start 2 3) (fillQueue ++ .stop :: workOff)) fun s =>
        s.taken = [some 7, some 8] ∧ s.executed = [7, 8] ∧ s.callers.map (·.call) =
          [(some 7, some true), (some 8, some true), (some 9, some false)] := by
    decide +kernel
  obtain ⟨-, -, -, -, -, -, -, hstop⟩ := (run_schedules 2 (by decide) _).of_ok hs
  exact ⟨s, hs, htaken, hexecuted, hcalls, hstop (by simp)⟩

end System
end ThreadPool
end Muduo

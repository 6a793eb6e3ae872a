import Muduo.Machine.Run
import Muduo.Base.Code

/-!
# EventLoop

The loop of `muduo/net/EventLoop.cc` with the threads that queue functors in it, wake it and ask it
to quit. The loop thread goes through `loop()`: `quit_` is tested, `poll` blocks, the callbacks of
the active channels run, and `doPendingFunctors` takes the queue and runs it. The other threads
execute `queueInLoop` in two steps, the locked push and the write to the eventfd, and `quit` in two
steps, the store to `quit_` and the same write. Functors are values of an arbitrary type `F`.

`no_lost_wakeup` is about every interleaving of these steps: the functors run in the order in which
they were pushed, each at most once, and the loop does not sleep on a queue that is not empty.
-/

namespace Muduo

open Machine

/-- Where the loop thread is in `loop()`. -/
inductive LoopPc where
  /-- Before the first statement. -/
  | entry
  /-- At the test of the `while`. -/
  | test
  /-- Blocked in `poll`. -/
  | poll
  /-- Running the callbacks of the active channels. -/
  | handling
  /-- In `doPendingFunctors`, after the swap. -/
  | running
  | exited
  deriving DecidableEq, Repr

structure EventLoop (F : Type) where
  pc : LoopPc
  looping : Bool
  quit : Bool
  callingPendingFunctors : Bool
  /-- The wakeup channel is active and its callback has not run yet. -/
  wakeupActive : Bool
  /-- The loop thread has pushed a functor and is about to call `wakeup()`. -/
  selfWakeup : Bool
  pendingFunctors : List F
  /-- The local variable of `doPendingFunctors`. -/
  functors : List F
  /-- The counter of the eventfd. -/
  counter : ℕ
  /-- The other threads that are between their push and their write. -/
  waking : List ℕ
  /-- The other threads that are between their store to `quit_` and their write. -/
  quitting : List ℕ
  deriving DecidableEq, Repr

namespace EventLoop

variable {F : Type}

/-- The largest value of an eventfd counter. A write that would pass it fails with `EAGAIN`. -/
def eventfdMax : ℕ := 2 ^ 64 - 2

def wakeup (l : EventLoop F) : EventLoop F :=
  { l with counter := if l.counter < eventfdMax then l.counter + 1 else l.counter }

/-- The callback of the wakeup channel. -/
def handleRead (l : EventLoop F) : EventLoop F := { l with counter := 0, wakeupActive := false }

/-- The statements of `loop()` before the `while`. -/
def enterLoop (l : EventLoop F) : Code (EventLoop F) := do
  check .loopLooping (l.looping = false)
  return { l with pc := .test, looping := true, quit := false }

/-- The test of the `while`, and the statements after it when it fails. -/
def testQuit (l : EventLoop F) : EventLoop F :=
  if l.quit then { l with pc := .exited, looping := false } else { l with pc := .poll }

/-- The first half of `doPendingFunctors`, up to the end of the critical section. -/
def swapFunctors (l : EventLoop F) : EventLoop F :=
  { l with
    pc := .running, callingPendingFunctors := true
    functors := l.pendingFunctors, pendingFunctors := [] }

/-- The end of `doPendingFunctors`. -/
def endFunctors (l : EventLoop F) : EventLoop F :=
  { l with pc := .test, callingPendingFunctors := false }

/-- The locked push of `queueInLoop`. -/
def push (l : EventLoop F) (f : F) : EventLoop F :=
  { l with pendingFunctors := l.pendingFunctors ++ [f] }

inductive Event (F : Type) where
  | enterLoop
  | testQuit
  /-- `poll` returns, with the wakeup channel among the active ones or not. -/
  | pollReturn (wakeup : Bool)
  | handleRead
  | swapFunctors
  | runFunctor
  | endFunctors
  /-- `queueInLoop` in a callback or functor, up to the test of `callingPendingFunctors_`. -/
  | loopPush (f : F)
  | loopWakeup
  | loopQuit
  /-- The steps of another thread `t`. -/
  | push (t : ℕ) (f : F)
  | wakeup (t : ℕ)
  | quit (t : ℕ)
  | quitWakeup (t : ℕ)
  deriving DecidableEq, Repr

def step (l : EventLoop F) : Event F → Code (EventLoop F)
  | .enterLoop => do
    require (l.pc = .entry)
    l.enterLoop
  | .testQuit => do
    require (l.pc = .test)
    return l.testQuit
  | .pollReturn wakeup => do
    require (l.pc = .poll ∧ (wakeup = true → 0 < l.counter))
    return { l with pc := .handling, wakeupActive := wakeup }
  | .handleRead => do
    require (l.pc = .handling ∧ l.wakeupActive = true)
    return l.handleRead
  | .swapFunctors => do
    require (l.pc = .handling ∧ l.wakeupActive = false)
    return l.swapFunctors
  | .runFunctor =>
    match l.functors with
    | [] => .error .disabled
    | _ :: rest => do
      require (l.pc = .running ∧ l.selfWakeup = false)
      return { l with functors := rest }
  | .endFunctors => do
    require (l.pc = .running ∧ l.selfWakeup = false ∧ l.functors.isEmpty)
    return l.endFunctors
  | .loopPush f => do
    require ((l.pc = .handling ∨ l.pc = .running) ∧ l.selfWakeup = false)
    return { l.push f with selfWakeup := l.callingPendingFunctors }
  | .loopWakeup => do
    require (l.selfWakeup = true)
    return { l.wakeup with selfWakeup := false }
  | .loopQuit => do
    require ((l.pc = .handling ∨ l.pc = .running) ∧ l.selfWakeup = false)
    return { l with quit := true }
  | .push t f => do
    require (t ∉ l.waking ∧ t ∉ l.quitting)
    return { l.push f with waking := t :: l.waking }
  | .wakeup t => do
    require (t ∈ l.waking)
    return { l.wakeup with waking := l.waking.erase t }
  | .quit t => do
    require (t ∉ l.waking ∧ t ∉ l.quitting)
    return { l with quit := true, quitting := t :: l.quitting }
  | .quitWakeup t => do
    require (t ∈ l.quitting)
    return { l.wakeup with quitting := l.quitting.erase t }

/-- The loop thread is about to call `loop()` with nothing queued. What the eventfd counts and what
other threads are doing is arbitrary. -/
def atEntry (quit : Bool) (counter : ℕ) (waking quitting : List ℕ) : EventLoop F where
  pc := .entry
  looping := false
  quit := quit
  callingPendingFunctors := false
  wakeupActive := false
  selfWakeup := false
  pendingFunctors := []
  functors := []
  counter := counter
  waking := waking
  quitting := quitting

/-! ### The queue -/

/-- The functors that were pushed and those that were started, in order. -/
structure History (F : Type) where
  pushed : List F
  executed : List F
  deriving DecidableEq, Repr

def note (l : EventLoop F) (e : Event F) (g : History F) : History F :=
  match e with
  | .loopPush f | .push _ f => { g with pushed := g.pushed ++ [f] }
  | .runFunctor => { g with executed := g.executed ++ l.functors.head?.toList }
  | _ => g

/-- The functors still to be run, in the order in which they will run. -/
def backlog (l : EventLoop F) : List F := l.functors ++ l.pendingFunctors

/-- Between the swap and the next `poll`, a functor in the queue keeps the loop from sleeping: the
eventfd is readable, or some thread is about to write to it. -/
def Awake (l : EventLoop F) : Prop :=
  l.pendingFunctors ≠ [] → 0 < l.counter ∨ l.waking ≠ [] ∨ l.selfWakeup = true

structure Inv (l : EventLoop F) (g : History F) : Prop where
  fifo : g.executed ++ l.backlog = g.pushed
  looping : l.pc = .entry → l.looping = false
  /-- `functors` is empty outside `doPendingFunctors`. -/
  taken : l.pc ≠ .running → l.functors = []
  calling : l.callingPendingFunctors = true ↔ l.pc = .running
  selfWakeup : l.selfWakeup = true → l.pc = .running
  awake : l.pc ≠ .handling → l.Awake

lemma wakeup_counter_pos (l : EventLoop F) : 0 < l.wakeup.counter := by
  simp only [wakeup]
  split
  · exact Nat.succ_pos _
  · rename_i h
    exact Nat.lt_of_lt_of_le (by decide) (Nat.le_of_not_lt h)

section

variable {l : EventLoop F} {g : History F}

/-- A step that only moves the loop thread, to a place where the queue need not be looked at anew.
-/
lemma Inv.move (h : Inv l g) {l' : EventLoop F} (hbacklog : l'.backlog = l.backlog)
    (hlooping : l'.pc ≠ .entry) (htaken : l'.pc ≠ .running → l'.functors = [])
    (hcalling : l'.callingPendingFunctors = true ↔ l'.pc = .running)
    (hself : l'.selfWakeup = true → l'.pc = .running) (hawake : l'.pc ≠ .handling → l'.Awake) :
    Inv l' g :=
  ⟨by rw [hbacklog, h.fifo], fun hpc => absurd hpc hlooping, htaken, hcalling, hself, hawake⟩

/-- A push, by the loop thread or another one. -/
lemma Inv.push (h : Inv l g) (f : F) (b : Bool) (ts : List ℕ)
    (hself : b = true → l.pc = .running) (hawake : l.pc ≠ .handling → ts ≠ [] ∨ b = true) :
    Inv { l.push f with selfWakeup := b, waking := ts } { g with pushed := g.pushed ++ [f] } := by
  refine ⟨?_, h.looping, h.taken, h.calling, hself, fun hpc _ => Or.inr (hawake hpc)⟩
  rw [← h.fifo]
  simp [backlog, EventLoop.push]

/-- A write to the eventfd. -/
lemma Inv.wakeup (h : Inv l g) (b : Bool) (ts qs : List ℕ) (hself : b = true → l.pc = .running) :
    Inv { l.wakeup with selfWakeup := b, waking := ts, quitting := qs } g :=
  ⟨h.fifo, h.looping, h.taken, h.calling, hself, fun _ _ => Or.inl (wakeup_counter_pos l)⟩

lemma Inv.swapFunctors (h : Inv l g) (hpc : l.pc = .handling) : Inv l.swapFunctors g := by
  have hnil : l.functors = [] := h.taken (by simp [hpc])
  refine h.move ?_ (by simp [EventLoop.swapFunctors]) (by simp [EventLoop.swapFunctors])
    (by simp [EventLoop.swapFunctors]) (by simp [EventLoop.swapFunctors]) ?_
  · simp [backlog, EventLoop.swapFunctors, hnil]
  · exact fun _ hne => absurd rfl hne

lemma Inv.runFunctor (h : Inv l g) {f : F} {rest : List F} (hf : l.functors = f :: rest)
    (hpc : l.pc = .running) :
    Inv { l with functors := rest } { g with executed := g.executed ++ [f] } := by
  refine ⟨?_, h.looping, fun hne => absurd hpc hne, h.calling, h.selfWakeup, h.awake⟩
  rw [← h.fifo]
  simp [backlog, hf]

theorem step_inv (h : Inv l g) (e : Event F) :
    Safe (l.step e) fun l' => Inv l' (l.note e g) := by
  cases e with
  | enterLoop =>
    simp only [step, EventLoop.enterLoop, safe_bind, safe_require, safe_check]
    intro hpc
    refine ⟨h.looping hpc, ?_⟩
    have hpc' : l.pc ≠ .running := by simp [hpc]
    refine h.move rfl (by simp) (fun _ => h.taken hpc') ?_ ?_ (fun _ => h.awake (by simp [hpc]))
    · simp [Bool.eq_false_iff.mpr (mt h.calling.mp hpc')]
    · exact fun hs => absurd (h.selfWakeup hs) hpc'
  | testQuit =>
    simp only [step, safe_bind, safe_require]
    intro hpc
    have hpc' : l.pc ≠ .running := by simp [hpc]
    have hcalling : l.callingPendingFunctors = false := Bool.eq_false_iff.mpr (mt h.calling.mp hpc')
    have hself : l.selfWakeup = false := Bool.eq_false_iff.mpr (mt h.selfWakeup hpc')
    rw [safe_pure, EventLoop.testQuit]
    split
    · exact h.move rfl (by simp) (fun _ => h.taken hpc') (by simp [hcalling]) (by simp [hself])
        (fun _ => h.awake (by simp [hpc]))
    · exact h.move rfl (by simp) (fun _ => h.taken hpc') (by simp [hcalling]) (by simp [hself])
        (fun _ => h.awake (by simp [hpc]))
  | pollReturn wakeup =>
    simp only [step, safe_bind, safe_require]
    rintro ⟨hpc, -⟩
    have hpc' : l.pc ≠ .running := by simp [hpc]
    have hcalling : l.callingPendingFunctors = false := Bool.eq_false_iff.mpr (mt h.calling.mp hpc')
    have hself : l.selfWakeup = false := Bool.eq_false_iff.mpr (mt h.selfWakeup hpc')
    exact h.move rfl (by simp) (fun _ => h.taken hpc') (by simp [hcalling]) (by simp [hself])
      (fun hne => absurd rfl hne)
  | handleRead =>
    simp only [step, safe_bind, safe_require]
    rintro ⟨hpc, -⟩
    exact ⟨h.fifo, h.looping, h.taken, h.calling, h.selfWakeup, fun hne => absurd hpc hne⟩
  | swapFunctors =>
    simp only [step, safe_bind, safe_require]
    rintro ⟨hpc, -⟩
    exact h.swapFunctors hpc
  | runFunctor =>
    cases hf : l.functors with
    | nil => simp [step, hf]
    | cons f rest =>
      simp only [step, hf, note, safe_bind, safe_require]
      rintro ⟨hpc, -⟩
      exact h.runFunctor hf hpc
  | endFunctors =>
    simp only [step, safe_bind, safe_require]
    rintro ⟨hpc, hself, hnil⟩
    refine h.move rfl (by simp [EventLoop.endFunctors]) ?_ (by simp [EventLoop.endFunctors]) ?_
      (fun _ => h.awake (by simp [hpc]))
    · exact fun _ => List.isEmpty_iff.mp hnil
    · simp [EventLoop.endFunctors, hself]
  | loopPush f =>
    simp only [step, safe_bind, safe_require]
    rintro ⟨hpc, -⟩
    refine h.push f _ l.waking h.calling.mp fun hne => Or.inr ?_
    exact h.calling.mpr (hpc.resolve_left hne)
  | loopWakeup =>
    simp only [step, safe_bind, safe_require]
    intro _
    exact h.wakeup false l.waking l.quitting (by simp)
  | loopQuit =>
    simp only [step, safe_bind, safe_require]
    intro _
    exact ⟨h.fifo, h.looping, h.taken, h.calling, h.selfWakeup, h.awake⟩
  | push t f =>
    simp only [step, safe_bind, safe_require]
    intro _
    exact h.push f l.selfWakeup (t :: l.waking) h.selfWakeup fun _ => Or.inl (by simp)
  | wakeup t =>
    simp only [step, safe_bind, safe_require]
    intro _
    exact h.wakeup l.selfWakeup (l.waking.erase t) l.quitting h.selfWakeup
  | quit t =>
    simp only [step, safe_bind, safe_require]
    intro _
    exact ⟨h.fifo, h.looping, h.taken, h.calling, h.selfWakeup, h.awake⟩
  | quitWakeup t =>
    simp only [step, safe_bind, safe_require]
    intro _
    exact h.wakeup l.selfWakeup l.waking (l.quitting.erase t) h.selfWakeup

end

/-- A quit request that thread `t` has made takes effect: the loop has been entered, `quit_` is set,
and if the loop thread is in `poll`, the eventfd is readable or `t` is about to write to it. -/
structure QuitPending (t : ℕ) (l : EventLoop F) : Prop where
  quit : l.quit = true
  entered : l.pc ≠ .entry
  poll : l.pc = .poll → 0 < l.counter ∨ t ∈ l.quitting

lemma QuitPending.wakeup {t : ℕ} {l : EventLoop F} (h : QuitPending t l) (b : Bool)
    (ts qs : List ℕ) :
    QuitPending t { l.wakeup with selfWakeup := b, waking := ts, quitting := qs } :=
  ⟨h.quit, h.entered, fun _ => Or.inl (wakeup_counter_pos l)⟩

/-- The request survives every step: once `quit_` is set, the loop does not go back to `poll`. -/
theorem step_quitPending {t : ℕ} {l : EventLoop F} (h : QuitPending t l) (e : Event F) :
    Safe (l.step e) (QuitPending t) := by
  cases e with
  | enterLoop =>
    simp only [step, safe_bind, safe_require]
    exact fun hpc => absurd hpc h.entered
  | testQuit =>
    simp only [step, EventLoop.testQuit, h.quit, if_true, safe_bind, safe_require]
    exact fun _ => ⟨rfl, by simp, by simp⟩
  | pollReturn wakeup =>
    simp only [step, safe_bind, safe_require]
    exact fun _ => ⟨h.quit, by simp, by simp⟩
  | handleRead =>
    simp only [step, safe_bind, safe_require]
    rintro ⟨hpc, -⟩
    exact ⟨h.quit, h.entered, fun hpoll => by simp [EventLoop.handleRead, hpc] at hpoll⟩
  | swapFunctors =>
    simp only [step, safe_bind, safe_require]
    exact fun _ => ⟨h.quit, by simp [EventLoop.swapFunctors], by simp [EventLoop.swapFunctors]⟩
  | runFunctor =>
    cases hf : l.functors with
    | nil => simp [step, hf]
    | cons f rest =>
      simp only [step, hf, safe_bind, safe_require]
      exact fun _ => ⟨h.quit, h.entered, h.poll⟩
  | endFunctors =>
    simp only [step, safe_bind, safe_require]
    exact fun _ => ⟨h.quit, by simp [EventLoop.endFunctors], by simp [EventLoop.endFunctors]⟩
  | loopPush f =>
    simp only [step, safe_bind, safe_require]
    exact fun _ => ⟨h.quit, h.entered, h.poll⟩
  | loopWakeup =>
    simp only [step, safe_bind, safe_require]
    exact fun _ => h.wakeup false l.waking l.quitting
  | loopQuit =>
    simp only [step, safe_bind, safe_require]
    exact fun _ => ⟨rfl, h.entered, h.poll⟩
  | push t' f =>
    simp only [step, safe_bind, safe_require]
    exact fun _ => ⟨h.quit, h.entered, h.poll⟩
  | wakeup t' =>
    simp only [step, safe_bind, safe_require]
    exact fun _ => h.wakeup l.selfWakeup (l.waking.erase t') l.quitting
  | quit t' =>
    simp only [step, safe_bind, safe_require]
    intro _
    refine ⟨rfl, h.entered, fun hpc => ?_⟩
    exact (h.poll hpc).imp id (List.mem_cons_of_mem t')
  | quitWakeup t' =>
    simp only [step, safe_bind, safe_require]
    exact fun _ => h.wakeup l.selfWakeup l.waking (l.quitting.erase t')

/-- The flag that the assertion of `loop()` tests changes in `loop()` only. -/
lemma step_entry {l : EventLoop F} (h : l.pc = .entry → l.looping = false) (e : Event F) :
    Safe (l.step e) fun l' => l'.pc = .entry → l'.looping = false := by
  cases e with
  | enterLoop =>
    simp only [step, EventLoop.enterLoop, safe_bind, safe_require, safe_check]
    exact fun hpc => ⟨h hpc, by simp⟩
  | testQuit =>
    simp only [step, EventLoop.testQuit, safe_bind, safe_require, safe_pure]
    intro _
    split <;> simp
  | runFunctor =>
    cases hf : l.functors with
    | nil => simp [step, hf]
    | cons f rest => simpa [step, hf] using fun _ _ => h
  | _ =>
    simp only [step, safe_bind, safe_require]
    intro _
    first | exact h | simp [EventLoop.swapFunctors, EventLoop.endFunctors]

end EventLoop
end Muduo

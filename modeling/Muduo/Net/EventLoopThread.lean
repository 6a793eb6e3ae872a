import Muduo.Net.EventLoop

/-!
# EventLoopThread

The owner of an `EventLoopThread` calls `startLoop()` and later the destructor, while the new thread
executes `threadFunc`: it constructs the loop, runs the init callback, publishes the loop in `loop_`
and calls `loop()`. `startLoop()` returns as soon as the loop is published, so the destructor's
`quit()` may come before `loop()` sets `quit_` to false, and is then lost. If it comes after, it is
not.
-/

namespace Muduo

open Machine

namespace EventLoopThread

/-- Where the owner is. -/
inductive OwnerPc where
  | created
  /-- In `startLoop()`, waiting for `loop_`. -/
  | waiting
  /-- `startLoop()` has returned. -/
  | started
  /-- In the destructor, having read a `loop_` that is not null: before `quit_ = true`. -/
  | quitting
  /-- In `quit()`, before `wakeup()`. -/
  | waking
  /-- In `join()`. -/
  | joining
  /-- The destructor has returned, after `join()` or because `loop_` was null. -/
  | joined
  | left
  deriving DecidableEq, Repr

/-- Where the new thread is in `threadFunc`. -/
inductive ThreadPc where
  | notStarted
  | constructing
  | callback
  | publishing
  /-- In `loop()`, from before its first statement. -/
  | looping
  | finished
  deriving DecidableEq, Repr

end EventLoopThread

open EventLoopThread in
structure EventLoopThread (F : Type) where
  owner : OwnerPc
  thread : ThreadPc
  /-- `loop_` is not null. -/
  published : Bool
  loop : EventLoop F
  deriving DecidableEq, Repr

namespace EventLoopThread

variable {F : Type}

/-- The owner's number among the threads that use the loop. -/
def ownerThread : ℕ := 0

def new : EventLoopThread F where
  owner := .created
  thread := .notStarted
  published := false
  loop := EventLoop.atEntry false 0 [] []

inductive Event (F : Type) where
  -- `startLoop()`
  | startThread
  | startLoopReturns
  -- the destructor
  | readLoop
  | quit
  | wakeup
  | join
  -- `threadFunc`
  | construct
  | callback
  | publish
  | loop (e : EventLoop.Event F)
  | unpublish
  deriving DecidableEq, Repr

/-- The steps of `loop()` belong to the new thread. Threads other than the owner may use the loop
while it exists. -/
def mayStep (s : EventLoopThread F) : EventLoop.Event F → Bool
  | .push t _ | .wakeup t | .quit t | .quitWakeup t => t ≠ ownerThread && s.thread = .looping
  | _ => s.thread = .looping

/-- `quit()` on a loop that `threadFunc` has already destructed is outside this model. -/
def step (s : EventLoopThread F) : Event F → Code (EventLoopThread F)
  | .startThread => do
    require (s.owner = .created)
    check .startLoopStarted (s.thread = .notStarted)
    return { s with owner := .waiting, thread := .constructing }
  | .startLoopReturns => do
    require (s.owner = .waiting ∧ s.published = true)
    return { s with owner := .started }
  | .readLoop => do
    require (s.owner = .started)
    return { s with owner := if s.published then .quitting else .left }
  | .quit => do
    require (s.owner = .quitting ∧ s.thread = .looping)
    let loop ← s.loop.step (.quit ownerThread)
    return { s with owner := .waking, loop }
  | .wakeup => do
    require (s.owner = .waking ∧ s.thread = .looping)
    let loop ← s.loop.step (.quitWakeup ownerThread)
    return { s with owner := .joining, loop }
  | .join => do
    require (s.owner = .joining ∧ s.thread = .finished)
    return { s with owner := .joined }
  | .construct => do
    require (s.thread = .constructing)
    return { s with thread := .callback, loop := EventLoop.atEntry false 0 [] [] }
  | .callback => do
    require (s.thread = .callback)
    return { s with thread := .publishing }
  | .publish => do
    require (s.thread = .publishing)
    return { s with thread := .looping, published := true }
  | .loop e => do
    require (s.mayStep e = true)
    let loop ← s.loop.step e
    return { s with loop }
  | .unpublish => do
    require (s.thread = .looping ∧ s.loop.pc = .exited)
    return { s with thread := .finished, published := false }

/-- The destructor has called `quit()` on the loop. -/
def quitCalled (s : EventLoopThread F) : Bool :=
  s.owner = .waking || s.owner = .joining || s.owner = .joined

/-- The destructor's `quit()` does not come before the statements of `loop()` that precede the
`while`. -/
def AfterEntry (s : EventLoopThread F) : Event F → Prop
  | .quit => s.loop.pc ≠ .entry
  | _ => True

instance (s : EventLoopThread F) : DecidablePred s.AfterEntry
  | .quit => inferInstanceAs (Decidable (_ ≠ _))
  | .startThread | .startLoopReturns | .readLoop | .wakeup | .join | .construct | .callback
  | .publish | .loop _ | .unpublish => inferInstanceAs (Decidable True)

structure Inv (s : EventLoopThread F) : Prop where
  created : s.owner = .created → s.thread = .notStarted
  published : s.published = true → s.thread = .looping
  /-- `startLoop()` returns after the loop is published. -/
  started : s.owner ≠ .created → s.owner ≠ .waiting → s.thread = .looping ∨ s.thread = .finished
  entry : s.loop.pc = .entry → s.loop.looping = false
  pending : s.quitCalled = true → s.loop.QuitPending ownerThread

lemma new_inv : Inv (new : EventLoopThread F) :=
  ⟨fun _ => rfl, by simp [new], by simp [new], fun _ => rfl, by simp [new, quitCalled]⟩

lemma Inv.loop {s : EventLoopThread F} (h : Inv s) (e : EventLoop.Event F) :
    Safe (s.loop.step e) fun l => Inv { s with loop := l } := by
  have hentry := EventLoop.step_entry h.entry e
  by_cases hq : s.quitCalled = true
  · apply (hentry.and (EventLoop.step_quitPending (h.pending hq) e)).mono
    intro l hl
    exact ⟨h.created, h.published, h.started, hl.1, fun _ => hl.2⟩
  · apply hentry.mono
    intro l hl
    exact ⟨h.created, h.published, h.started, hl, fun hq' => absurd hq' hq⟩

/-- The store of the destructor's `quit()`. -/
lemma Inv.quit {s : EventLoopThread F} (h : Inv s) (hpc : s.loop.pc ≠ .entry)
    (hthread : s.thread = .looping) :
    Safe (s.loop.step (.quit ownerThread)) fun l => Inv { s with owner := .waking, loop := l } := by
  have hentry := EventLoop.step_entry h.entry (.quit ownerThread)
  simp only [EventLoop.step, safe_bind, safe_require, safe_pure] at hentry ⊢
  intro hnot
  refine ⟨by simp, h.published, fun _ _ => Or.inl hthread, hentry hnot, fun _ => ?_⟩
  exact ⟨rfl, hpc, fun _ => Or.inr (List.mem_cons_self ..)⟩

/-- Until the loop is published the owner is in `startLoop()`. -/
lemma Inv.waiting {s : EventLoopThread F} (h : Inv s) (h₀ : s.thread ≠ .notStarted)
    (h₁ : s.thread ≠ .looping) (h₂ : s.thread ≠ .finished) :
    s.owner = .waiting ∧ s.published ≠ true := by
  refine ⟨?_, fun hp => h₁ (h.published hp)⟩
  by_contra hw
  rcases h.started (fun hc => h₀ (h.created hc)) hw with ht | ht
  · exact h₁ ht
  · exact h₂ ht

lemma step_inv {s : EventLoopThread F} {e : Event F} (h : Inv s) (hc : s.AfterEntry e) :
    Safe (s.step e) Inv := by
  cases e with
  | startThread =>
    simp only [step, safe_bind, safe_require, safe_check]
    intro ho
    have hpub : s.published ≠ true := fun hp => by simpa [h.created ho] using h.published hp
    exact ⟨h.created ho, by simp, fun hp => absurd hp hpub, by simp, h.entry, by simp [quitCalled]⟩
  | startLoopReturns =>
    simp only [step, safe_bind, safe_require]
    rintro ⟨-, hpub⟩
    exact ⟨by simp, h.published, fun _ _ => Or.inl (h.published hpub), h.entry,
      by simp [quitCalled]⟩
  | readLoop =>
    simp only [step, safe_bind, safe_require, safe_pure]
    intro ho
    have hthread := h.started (by simp [ho]) (by simp [ho])
    split
    · exact ⟨by simp, h.published, fun _ _ => hthread, h.entry, by simp [quitCalled]⟩
    · exact ⟨by simp, h.published, fun _ _ => hthread, h.entry, by simp [quitCalled]⟩
  | quit =>
    simp only [step, safe_bind, safe_require]
    rintro ⟨-, hthread⟩
    exact h.quit hc hthread
  | wakeup =>
    simp only [step, safe_bind, safe_require]
    rintro ⟨ho, hthread⟩
    apply (h.loop (.quitWakeup ownerThread)).mono
    intro l hl
    exact ⟨by simp, hl.published, fun _ _ => Or.inl hthread, hl.entry,
      fun _ => hl.pending (by simp [quitCalled, ho])⟩
  | join =>
    simp only [step, safe_bind, safe_require]
    rintro ⟨ho, hthread⟩
    exact ⟨by simp, h.published, fun _ _ => Or.inr hthread, h.entry,
      fun _ => h.pending (by simp [quitCalled, ho])⟩
  | construct =>
    simp only [step, safe_bind, safe_require]
    intro hthread
    obtain ⟨ho, hpub⟩ := h.waiting (by simp [hthread]) (by simp [hthread]) (by simp [hthread])
    exact ⟨by simp [ho], fun hp => absurd hp hpub, by simp [ho], fun _ => rfl,
      by simp [quitCalled, ho]⟩
  | callback =>
    simp only [step, safe_bind, safe_require]
    intro hthread
    obtain ⟨ho, hpub⟩ := h.waiting (by simp [hthread]) (by simp [hthread]) (by simp [hthread])
    exact ⟨by simp [ho], fun hp => absurd hp hpub, by simp [ho], h.entry, by simp [quitCalled, ho]⟩
  | publish =>
    simp only [step, safe_bind, safe_require]
    intro hthread
    obtain ⟨ho, -⟩ := h.waiting (by simp [hthread]) (by simp [hthread]) (by simp [hthread])
    exact ⟨by simp [ho], fun _ => rfl, by simp [ho], h.entry, by simp [quitCalled, ho]⟩
  | loop e =>
    simp only [step, safe_bind, safe_require]
    exact fun _ => h.loop e
  | unpublish =>
    simp only [step, safe_bind, safe_require]
    rintro ⟨hthread, -⟩
    refine ⟨fun ho => ?_, by simp, fun _ _ => Or.inr rfl, h.entry, h.pending⟩
    simpa [hthread] using h.created ho

/-- If the destructor's `quit()` comes after the first statements of `loop()`, no assertion fails
and the request is not lost: once `quit()` has been called, the loop thread is not waiting in `poll`
with `quit_` false, and it waits there with the eventfd's counter at zero only as long as the owner
has not yet written to the eventfd. -/
theorem quit_not_lost {es : List (Event F)} (h : Along step AfterEntry new es) :
    Safe (run step (new : EventLoopThread F) es) fun s =>
      ¬(s.quitCalled = true ∧ s.loop.pc = .poll ∧ s.loop.quit = false ∧ s.loop.counter = 0) ∧
        (s.quitCalled = true → s.loop.pc = .poll → s.loop.counter = 0 →
          ownerThread ∈ s.loop.quitting) := by
  have hinv := run_safe (fun s e => step_inv) new_inv h
  apply hinv.mono
  intro s hs
  constructor
  · rintro ⟨hq, -, hquit, -⟩
    simp [(hs.pending hq).quit] at hquit
  · intro hq hpc hzero
    apply ((hs.pending hq).poll hpc).resolve_left
    simp [hzero]

/-- The owner starts the loop and destroys it while the loop thread is in `poll`. -/
@[irreducible] def quitsInPoll : List (Event ℕ) :=
  [.startThread, .construct, .callback, .publish, .startLoopReturns, .loop .enterLoop,
    .loop .testQuit, .readLoop, .quit, .wakeup]

theorem quit_not_lost_in_poll :
    Yields (run step new quitsInPoll) fun s =>
      (s.quitCalled = true ∧ s.loop.pc = .poll) ∧
        ¬(s.quitCalled = true ∧ s.loop.pc = .poll ∧ s.loop.quit = false ∧ s.loop.counter = 0) := by
  have h : Along step AfterEntry new quitsInPoll := by decide +kernel
  have hrun : Yields (run step new quitsInPoll) fun s =>
      s.quitCalled = true ∧ s.loop.pc = .poll := by decide +kernel
  obtain ⟨s, hs, hpoll⟩ := hrun
  exact ⟨s, hs, hpoll, ((quit_not_lost h).of_ok hs).1⟩

/-- The destructor's `quit()` comes between the publication of the loop and `quit_ = false`: after
one iteration the loop thread waits in `poll` for a request that will not come again. -/
theorem quit_lost_before_entry :
    Yields (run step (new : EventLoopThread ℕ)
      [.startThread, .construct, .callback, .publish, .startLoopReturns, .readLoop, .quit,
        .loop .enterLoop, .wakeup, .loop .testQuit, .loop (.pollReturn true), .loop .handleRead,
        .loop .swapFunctors, .loop .endFunctors, .loop .testQuit]) fun s =>
      s.quitCalled = true ∧ s.loop.pc = .poll ∧ s.loop.quit = false ∧ s.loop.counter = 0 := by
  decide +kernel

end EventLoopThread
end Muduo

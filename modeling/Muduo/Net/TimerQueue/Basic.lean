import Mathlib.Data.Prod.Lex
import Muduo.Base.Code
import Muduo.Machine.Run
import Muduo.Machine.Size
import Muduo.Machine.SortedSet

/-!
# TimerQueue

`Timer`, `TimerId` and `TimerQueue` of `muduo/net`, with the heap in which timers live, the clock
and the timerfd. Times are microseconds since the Epoch, and their sums and differences are those of
`int64_t`.

A pointer to a timer is its address together with the object it was made for, so that a use of a
pointer after the deletion of its object is a fault even when a new timer has been allocated at the
same address. The code compares addresses only. A timer object is named by its sequence number,
which the counter `s_numCreated_` makes unique.

The callbacks that `handleRead` runs may add and cancel timers, so `handleRead` is split into
`beginHandleRead`, the runs of the callbacks one by one, and `reset`. A `System` is a queue with the
batch that is being processed and the threads that add and cancel timers through the loop's queue.
-/

namespace Muduo

open Machine

structure TimerPtr where
  address : ℕ
  object : ℕ
  deriving DecidableEq, Repr

structure Timer where
  address : ℕ
  expiration : ℤ
  /-- `interval_` in microseconds, as `addTime` rounds it. -/
  interval : ℕ
  repeats : Bool
  sequence : ℕ
  deriving DecidableEq, Repr

/-- What `addTimer` returns. -/
structure TimerId where
  address : ℕ
  sequence : ℕ
  deriving DecidableEq, Repr

/-- `TimerId(timer, timer->sequence())`. -/
def TimerPtr.id (p : TimerPtr) : TimerId := ⟨p.address, p.object⟩

/-- An element of `timers_`. -/
structure Entry where
  when : ℤ
  timer : TimerPtr
  deriving DecidableEq, Repr

/-- An element of `activeTimers_`. -/
structure ActiveTimer where
  timer : TimerPtr
  sequence : ℕ
  deriving DecidableEq, Repr

/-- `std::pair<Timestamp, Timer*>` is ordered by the time, then by the address. -/
def Entry.key (e : Entry) : ℤ ×ₗ ℕ := toLex (e.when, e.timer.address)

def ActiveTimer.key (a : ActiveTimer) : ℕ ×ₗ ℕ := toLex (a.timer.address, a.sequence)

def TimerId.key (id : TimerId) : ℕ ×ₗ ℕ := toLex (id.address, id.sequence)

/-- `UINTPTR_MAX`. No object has this address. -/
def uintptrMax : ℕ := 2 ^ 64 - 1

/-- What `Timestamp::now()` returns: a time after the Epoch. -/
abbrev Now := { now : ℤ // 0 < now ∧ now < 2 ^ 63 }

/-- `addTime`, for an interval in microseconds. -/
def addTime (timestamp : ℤ) (delta : ℕ) : ℤ := int64 (timestamp + delta)

/-- A one-shot alarm of the timerfd. -/
structure Alarm where
  armedAt : ℤ
  deadline : ℤ
  deriving DecidableEq, Repr

structure TimerQueue where
  timers : SortedSet Entry.key
  activeTimers : SortedSet ActiveTimer.key
  callingExpiredTimers : Bool
  cancelingTimers : Finset TimerId
  /-- The alarm that is set and has not been read. -/
  timerfd : Option Alarm
  clock : Now
  /-- The timers that have been allocated and not deleted. -/
  heap : ℕ → Option Timer
  /-- `Timer::s_numCreated_`. -/
  numCreated : ℕ

namespace Timer

/-- `restart`. The other branch, for a timer that does not repeat, is not called. -/
def restart (t : Timer) (now : ℤ) : Timer :=
  if t.repeats then { t with expiration := addTime now t.interval } else { t with expiration := 0 }

end Timer

namespace TimerQueue

/-- The constructor. -/
def new (clock : Now) : TimerQueue where
  timers := SortedSet.empty
  activeTimers := SortedSet.empty
  callingExpiredTimers := false
  cancelingTimers := ∅
  timerfd := none
  clock := clock
  heap := fun _ => none
  numCreated := 0

/-! ### Timer objects -/

/-- `new Timer(cb, when, interval)` at an address where no timer lives. -/
def allocate (q : TimerQueue) (address : ℕ) (when : Int64) (interval : ℕ) (repeats : Bool) :
    Code (TimerQueue × TimerPtr) := do
  require (address < uintptrMax ∧
    ∀ o < q.numCreated + 1, ∀ t ∈ q.heap o, t.address ≠ address)
  let sequence := q.numCreated + 1
  let timer : Timer := { address, expiration := when.toInt, interval, repeats, sequence }
  return ({ q with heap := Function.update q.heap sequence (some timer), numCreated := sequence },
    { address, object := sequence })

/-- A read of a timer. -/
def load (q : TimerQueue) (p : TimerPtr) : Code Timer :=
  match q.heap p.object with
  | some t => return t
  | none => .error (.failed .timerUsedAfterDelete)

/-- `delete`. -/
def delete (q : TimerQueue) (p : TimerPtr) : Code TimerQueue := do
  check .timerDeletedTwice ((q.heap p.object).isSome)
  return { q with heap := Function.update q.heap p.object none }

/-- A timer is overwritten. -/
def store (q : TimerQueue) (p : TimerPtr) (t : Timer) : TimerQueue :=
  { q with heap := Function.update q.heap p.object (some t) }

/-! ### The timerfd -/

def howMuchTimeFromNow (q : TimerQueue) (when : ℤ) : ℤ :=
  let microseconds := int64 (when - q.clock)
  if microseconds < 100 then 100 else microseconds

/-- `timerfd_settime`, relative to the clock. -/
def resetTimerfd (q : TimerQueue) (expiration : ℤ) : TimerQueue :=
  { q with timerfd := some ⟨q.clock, q.clock + q.howMuchTimeFromNow expiration⟩ }

/-- `::read` takes an alarm that has gone off. Before that it fails with `EAGAIN`. -/
def readTimerfd (q : TimerQueue) : TimerQueue :=
  match q.timerfd with
  | some a => if a.deadline ≤ q.clock then { q with timerfd := none } else q
  | none => q

/-! ### The member functions -/

/-- `assert(timers_.size() == activeTimers_.size())`. -/
def checkSizes (q : TimerQueue) : Code Unit :=
  check .timerSizes (q.timers.size = q.activeTimers.size)

def insert (q : TimerQueue) (p : TimerPtr) : Code (TimerQueue × Bool) := do
  q.checkSizes
  let timer ← q.load p
  let earliestChanged :=
    match q.timers.begin? with
    | none => true
    | some it => timer.expiration < it.when
  let (timers, inserted) := q.timers.insert ⟨timer.expiration, p⟩
  check .insertTimers inserted
  let (activeTimers, inserted) := q.activeTimers.insert ⟨p, timer.sequence⟩
  check .insertActive inserted
  let q := { q with timers, activeTimers }
  q.checkSizes
  return (q, earliestChanged)

def addTimerInLoop (q : TimerQueue) (p : TimerPtr) : Code TimerQueue := do
  let (q, earliestChanged) ← q.insert p
  if earliestChanged then
    let timer ← q.load p
    return q.resetTimerfd timer.expiration
  else
    return q

/-- The branch of `cancelInLoop` for a timer that is in `activeTimers_`. -/
def cancelActive (q : TimerQueue) (it : ActiveTimer) : Code TimerQueue := do
  let timer ← q.load it.timer
  let (timers, n) := q.timers.erase (Entry.key ⟨timer.expiration, it.timer⟩)
  check .cancelErase (n = 1)
  let q ← { q with timers }.delete it.timer
  return { q with activeTimers := (q.activeTimers.erase it.key).1 }

def cancelInLoop (q : TimerQueue) (id : TimerId) : Code TimerQueue := do
  q.checkSizes
  let q ← match q.activeTimers.find? id.key with
    | some it => q.cancelActive it
    | none =>
      if q.callingExpiredTimers then
        pure { q with cancelingTimers := Insert.insert id q.cancelingTimers }
      else
        pure q
  q.checkSizes
  return q

/-- The body of the loop in `getExpired`. -/
def eraseActive (q : TimerQueue) (it : Entry) : Code TimerQueue := do
  let timer ← q.load it.timer
  let (activeTimers, n) := q.activeTimers.erase (ActiveTimer.key ⟨it.timer, timer.sequence⟩)
  check .expiredErase (n = 1)
  return { q with activeTimers }

def getExpired (q : TimerQueue) (now : ℤ) : Code (TimerQueue × List Entry) := do
  q.checkSizes
  let sentry : ℤ ×ₗ ℕ := toLex (now, uintptrMax)
  let expired := q.timers.before sentry
  let rest := q.timers.eraseBefore sentry
  check .expiredBound (∀ it ∈ rest.begin?, now < it.when)
  let q ← expired.foldlM eraseActive { q with timers := rest }
  q.checkSizes
  return (q, expired)

/-- The body of the loop in `reset`. -/
def resetEntry (now : ℤ) (q : TimerQueue) (it : Entry) : Code TimerQueue := do
  let timer ← q.load it.timer
  if timer.repeats ∧ ⟨it.timer.address, timer.sequence⟩ ∉ q.cancelingTimers then
    let (q, _) ← (q.store it.timer (timer.restart now)).insert it.timer
    return q
  else
    q.delete it.timer

/-- The end of `reset`. A default `Timestamp` is not valid. -/
def rearm (q : TimerQueue) : Code TimerQueue :=
  match q.timers.begin? with
  | none => return q
  | some it => do
    let timer ← q.load it.timer
    return if 0 < timer.expiration then q.resetTimerfd timer.expiration else q

def reset (q : TimerQueue) (expired : List Entry) (now : ℤ) : Code TimerQueue := do
  let q ← expired.foldlM (resetEntry now) q
  q.rearm

/-- `handleRead` up to the loop that runs the callbacks. It returns `expired` and `now`. The time
has become `readAt` when the timerfd is read. -/
def beginHandleRead (q : TimerQueue) (readAt : Now) : Code (TimerQueue × List Entry × ℤ) := do
  let now := q.clock
  let (q, expired) ← (readTimerfd { q with clock := readAt }).getExpired now
  return ({ q with callingExpiredTimers := true, cancelingTimers := ∅ }, expired, now)

/-- `handleRead` after that loop. -/
def endHandleRead (q : TimerQueue) (expired : List Entry) (now : ℤ) : Code TimerQueue :=
  reset { q with callingExpiredTimers := false } expired now

/-! ### The system -/

/-- The expired timers whose callbacks `handleRead` is running. -/
structure Batch where
  now : ℤ
  expired : List Entry
  /-- The entries whose callback has not been started. -/
  todo : List Entry
  deriving DecidableEq, Repr

inductive Functor where
  | addTimerInLoop (p : TimerPtr)
  | cancelInLoop (id : TimerId)
  deriving DecidableEq, Repr

structure System where
  queue : TimerQueue
  batch : Option Batch
  /-- The timers that other threads have allocated in `addTimer` and not yet queued. -/
  inFlight : List TimerPtr
  /-- The queue of the loop. -/
  functors : List Functor

inductive Event where
  | setClock (now : Now)
  /-- `addTimer` in the loop thread. -/
  | addTimer (address : ℕ) (when : Int64) (interval : ℕ) (repeats : Bool)
  /-- `addTimer` in another thread: the allocation, and later the insertion into the loop's queue.
  -/
  | newTimer (address : ℕ) (when : Int64) (interval : ℕ) (repeats : Bool)
  | queueTimer (i : ℕ)
  /-- `cancel` in the loop thread and in another one. -/
  | cancel (id : TimerId)
  | queueCancel (id : TimerId)
  | doPendingFunctor
  /-- The timerfd's channel calls `handleRead`, whether or not the alarm has gone off. -/
  | handleRead (readAt : Now)
  /-- `handleRead` runs the next callback. -/
  | runTimer
  | endHandleRead
  deriving DecidableEq, Repr

namespace System

def init (clock : Now) : System where
  queue := TimerQueue.new clock
  batch := none
  inFlight := []
  functors := []

def runFunctor (q : TimerQueue) : Functor → Code TimerQueue
  | .addTimerInLoop p => q.addTimerInLoop p
  | .cancelInLoop id => q.cancelInLoop id

/-- Functors run between two calls of `handleRead`. The user's calls in the loop thread may come at
any time, from a timer's callback or another one. -/
def step (s : System) : Event → Code System
  | .setClock now => return { s with queue := { s.queue with clock := now } }
  | .addTimer address when interval repeats => do
    let (queue, p) ← s.queue.allocate address when interval repeats
    let queue ← queue.addTimerInLoop p
    return { s with queue }
  | .newTimer address when interval repeats => do
    let (queue, p) ← s.queue.allocate address when interval repeats
    return { s with queue, inFlight := s.inFlight ++ [p] }
  | .queueTimer i =>
    match s.inFlight[i]? with
    | some p =>
      return { s with
        inFlight := s.inFlight.eraseIdx i, functors := s.functors ++ [.addTimerInLoop p] }
    | none => .error .disabled
  | .cancel id => do
    let queue ← s.queue.cancelInLoop id
    return { s with queue }
  | .queueCancel id => return { s with functors := s.functors ++ [.cancelInLoop id] }
  | .doPendingFunctor =>
    match s.batch, s.functors with
    | none, f :: functors => do
      let queue ← runFunctor s.queue f
      return { s with queue, functors }
    | _, _ => .error .disabled
  | .handleRead readAt =>
    match s.batch with
    | none => do
      let (queue, expired, now) ← s.queue.beginHandleRead readAt
      return { s with queue, batch := some ⟨now, expired, expired⟩ }
    | some _ => .error .disabled
  | .runTimer =>
    match s.batch with
    | some ⟨now, expired, it :: todo⟩ => do
      let _ ← s.queue.load it.timer
      return { s with batch := some ⟨now, expired, todo⟩ }
    | _ => .error .disabled
  | .endHandleRead =>
    match s.batch with
    | some ⟨now, expired, []⟩ => do
      let queue ← s.queue.endHandleRead expired now
      return { s with queue, batch := none }
    | _ => .error .disabled

end System
end TimerQueue
end Muduo

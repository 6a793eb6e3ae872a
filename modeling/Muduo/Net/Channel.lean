import Muduo.Base.Code

/-!
# Channel

`Channel` of `muduo/net/Channel.{h,cc}` together with what the default poller, `EPollPoller`, keeps
for it: the three-valued index and the entry of its descriptor in the kernel's interest set. The two
sides change only in `update` and `remove`, and the field `kernel_eq` states that they agree.
-/

namespace Muduo

open Machine

/-- A set of `POLL*` bits. -/
structure PollEvents where
  pollin : Bool := false
  pollpri : Bool := false
  pollout : Bool := false
  pollerr : Bool := false
  pollhup : Bool := false
  pollnval : Bool := false
  pollrdhup : Bool := false
  deriving DecidableEq, Repr

namespace PollEvents

instance : OrOp PollEvents where
  or a b :=
    ⟨a.pollin || b.pollin, a.pollpri || b.pollpri, a.pollout || b.pollout, a.pollerr || b.pollerr,
      a.pollhup || b.pollhup, a.pollnval || b.pollnval, a.pollrdhup || b.pollrdhup⟩

instance : AndOp PollEvents where
  and a b :=
    ⟨a.pollin && b.pollin, a.pollpri && b.pollpri, a.pollout && b.pollout, a.pollerr && b.pollerr,
      a.pollhup && b.pollhup, a.pollnval && b.pollnval, a.pollrdhup && b.pollrdhup⟩

instance : Complement PollEvents where
  complement a :=
    ⟨!a.pollin, !a.pollpri, !a.pollout, !a.pollerr, !a.pollhup, !a.pollnval, !a.pollrdhup⟩

end PollEvents

def kNoneEvent : PollEvents := {}

def kReadEvent : PollEvents := { pollin := true, pollpri := true }

def kWriteEvent : PollEvents := { pollout := true }

/-- The bits that the kernel reports whether or not they are asked for. -/
def alwaysReported : PollEvents := { pollerr := true, pollhup := true, pollnval := true }

/-- `kNew`, `kAdded` and `kDeleted` of `EPollPoller.cc`. -/
inductive PollerIndex where
  | kNew
  | kAdded
  | kDeleted
  deriving DecidableEq, Repr

structure Channel where
  fd : ℕ
  events : PollEvents
  revents : PollEvents
  index : PollerIndex
  addedToLoop : Bool
  /-- The interest set's entry for `fd`. -/
  kernel : Option PollEvents
  kernel_eq : kernel = if index = .kAdded then some events else none

/-- What `EventLoop::removeChannel` asks of the loop: `eventHandling_`, and whether the channel is
`currentActiveChannel_` and whether it is in `activeChannels_`. -/
structure Dispatch where
  eventHandling : Bool
  current : Bool
  active : Bool
  deriving DecidableEq, Repr

namespace Dispatch

/-- The loop runs its functors. `activeChannels_` is what the last poll has left. -/
def functors : Dispatch := ⟨false, false, true⟩

/-- The channel runs one of its callbacks. -/
def callback : Dispatch := ⟨true, true, true⟩

/-- The assertion of `EventLoop::removeChannel`. -/
def mayRemove (d : Dispatch) : Bool := !d.eventHandling || d.current || !d.active

lemma mayRemove_iff {d : Dispatch} : d.mayRemove = true ↔
    (d.eventHandling = true → d.active = true → d.current = true) := by
  cases d with
  | mk eventHandling current active => revert eventHandling current active; decide

end Dispatch

/-- The callbacks that a `Channel` may hold. -/
inductive EventCallback where
  | close
  | error
  | read
  | write
  deriving DecidableEq, Repr

namespace Channel

def new (fd : ℕ) : Channel where
  fd := fd
  events := kNoneEvent
  revents := kNoneEvent
  index := .kNew
  addedToLoop := false
  kernel := none
  kernel_eq := rfl

def isNoneEvent (c : Channel) : Bool := c.events = kNoneEvent

def isWriting (c : Channel) : Bool := (c.events &&& kWriteEvent) ≠ kNoneEvent

def isReading (c : Channel) : Bool := (c.events &&& kReadEvent) ≠ kNoneEvent

/-- `events_ = ev` followed by `update()`, that is `EPollPoller::updateChannel`: a channel that the
kernel does not watch is added, even with no interest; a watched one is deleted or modified. -/
def update (c : Channel) (ev : PollEvents) : Channel :=
  match c.index with
  | .kNew | .kDeleted =>
    { c with
      events := ev, index := .kAdded, kernel := some ev, addedToLoop := true
      kernel_eq := rfl }
  | .kAdded =>
    if ev = kNoneEvent then
      { c with
        events := ev, index := .kDeleted, kernel := none, addedToLoop := true
        kernel_eq := rfl }
    else
      { c with
        events := ev, index := .kAdded, kernel := some ev, addedToLoop := true
        kernel_eq := rfl }

def enableReading (c : Channel) : Channel := c.update (c.events ||| kReadEvent)

def disableReading (c : Channel) : Channel := c.update (c.events &&& ~~~kReadEvent)

def enableWriting (c : Channel) : Channel := c.update (c.events ||| kWriteEvent)

def disableWriting (c : Channel) : Channel := c.update (c.events &&& ~~~kWriteEvent)

def disableAll (c : Channel) : Channel := c.update kNoneEvent

/-- `Channel::remove`, `EventLoop::removeChannel` and `EPollPoller::removeChannel`. -/
def remove (c : Channel) (d : Dispatch) : Code Channel := do
  check .channelRemove c.isNoneEvent
  check .removeChannel d.mayRemove
  check .epollRemoveUnknown (c.index ≠ .kNew)
  check .epollRemoveEvents c.isNoneEvent
  return { c with index := .kNew, kernel := none, addedToLoop := false, kernel_eq := rfl }

/-- `set_revents`, called by the poller. -/
def setRevents (c : Channel) (revt : PollEvents) : Channel :=
  { c with revents := revt, kernel_eq := c.kernel_eq }

/-- `poll` may report `revt` for this channel: it is watched, and every bit was asked for or is
always reported. -/
def mayReport (c : Channel) (revt : PollEvents) : Bool :=
  match c.kernel with
  | none => false
  | some mask => (revt &&& ~~~(mask ||| alwaysReported)) = kNoneEvent

/-- `handleEventWithGuard`: the callbacks run for `revents_`, in the order in which they run. -/
def handleEventWithGuard (c : Channel) : List EventCallback :=
  let r := c.revents
  (if r.pollhup && !r.pollin then [.close] else []) ++
  (if r.pollerr || r.pollnval then [.error] else []) ++
  (if r.pollin || r.pollpri || r.pollrdhup then [.read] else []) ++
  (if r.pollout then [.write] else [])

/-! ### What the operations do to the event mask -/

@[simp] lemma update_events (c : Channel) (ev : PollEvents) : (c.update ev).events = ev := by
  unfold update
  split
  · rfl
  · rfl
  · split <;> rfl

@[simp] lemma update_revents (c : Channel) (ev : PollEvents) :
    (c.update ev).revents = c.revents := by
  unfold update
  split
  · rfl
  · rfl
  · split <;> rfl

@[simp] lemma update_fd (c : Channel) (ev : PollEvents) : (c.update ev).fd = c.fd := by
  unfold update
  split
  · rfl
  · rfl
  · split <;> rfl

lemma update_index_ne_new (c : Channel) (ev : PollEvents) : (c.update ev).index ≠ .kNew := by
  unfold update
  split
  · simp
  · simp
  · split <;> simp

@[simp] lemma new_isWriting (fd : ℕ) : (new fd).isWriting = false := rfl

@[simp] lemma isWriting_enableReading (c : Channel) :
    c.enableReading.isWriting = c.isWriting := by
  simp [isWriting, enableReading, kReadEvent, kWriteEvent, kNoneEvent, HOr.hOr, OrOp.or,
    HAnd.hAnd, AndOp.and]

@[simp] lemma isWriting_disableReading (c : Channel) :
    c.disableReading.isWriting = c.isWriting := by
  simp [isWriting, disableReading, kReadEvent, kWriteEvent, kNoneEvent, HAnd.hAnd, AndOp.and,
    Complement.complement]

@[simp] lemma isWriting_enableWriting (c : Channel) : c.enableWriting.isWriting = true := by
  simp [isWriting, enableWriting, kWriteEvent, kNoneEvent, HOr.hOr, OrOp.or, HAnd.hAnd, AndOp.and]

@[simp] lemma isWriting_disableWriting (c : Channel) : c.disableWriting.isWriting = false := by
  simp [isWriting, disableWriting, kWriteEvent, kNoneEvent, HAnd.hAnd, AndOp.and,
    Complement.complement]

lemma isWriting_of_isNoneEvent {c : Channel} (h : c.isNoneEvent = true) : c.isWriting = false := by
  simp only [isNoneEvent, decide_eq_true_eq] at h
  simp [isWriting, h, kWriteEvent, kNoneEvent, HAnd.hAnd, AndOp.and]

@[simp] lemma isNoneEvent_disableAll (c : Channel) : c.disableAll.isNoneEvent = true := by
  simp [isNoneEvent, disableAll]

lemma isNoneEvent_disableReading {c : Channel} (h : c.isNoneEvent = true) :
    c.disableReading.isNoneEvent = true := by
  simp only [isNoneEvent, decide_eq_true_eq] at h
  simp [isNoneEvent, disableReading, h, kReadEvent, kNoneEvent, HAnd.hAnd, AndOp.and,
    Complement.complement]

/-- A channel is removed if it has no interest and the poller knows it. -/
lemma remove_eq_ok {c c' : Channel} {d : Dispatch} :
    c.remove d = .ok c' ↔ c.isNoneEvent = true ∧ d.mayRemove = true ∧ c.index ≠ .kNew ∧
      c' = { c with index := .kNew, kernel := none, addedToLoop := false, kernel_eq := rfl } := by
  by_cases hnone : c.isNoneEvent = true
  · by_cases hd : d.mayRemove = true
    · by_cases hindex : c.index = .kNew
      · simp [remove, check, hnone, hd, hindex, bind, Except.bind]
      · simp [remove, check, hnone, hd, hindex, bind, Except.bind, pure, Except.pure, eq_comm]
    · simp [remove, check, hnone, hd, bind, Except.bind]
  · simp [remove, check, hnone, bind, Except.bind]

/-- Nothing but the always-reported bits is reported for a channel with no interest. -/
lemma mayReport_of_isNoneEvent {c : Channel} {revt : PollEvents} (h : c.isNoneEvent = true)
    (hr : c.mayReport revt = true) :
    revt.pollin = false ∧ revt.pollpri = false ∧ revt.pollout = false ∧ revt.pollrdhup = false := by
  have hk := c.kernel_eq
  simp only [isNoneEvent, decide_eq_true_eq] at h
  rw [h] at hk
  unfold mayReport at hr
  split at hr
  · simp at hr
  · rename_i mask hmask
    rw [hmask] at hk
    split at hk
    · cases hk
      simpa [kNoneEvent, alwaysReported, HAnd.hAnd, AndOp.and, HOr.hOr, OrOp.or,
        Complement.complement] using hr
    · simp at hk

/-! ### The callbacks of one poll result -/

/-- The order in which the callbacks run. -/
def callbackOrder : EventCallback → ℕ
  | .close => 0
  | .error => 1
  | .read => 2
  | .write => 3

lemma handleEventWithGuard_pairwise (c : Channel) :
    c.handleEventWithGuard.Pairwise fun a b => callbackOrder a < callbackOrder b := by
  simp only [handleEventWithGuard]
  split_ifs <;> simp [callbackOrder]

lemma close_mem_handleEventWithGuard {c : Channel} :
    .close ∈ c.handleEventWithGuard ↔ c.revents.pollhup = true ∧ c.revents.pollin = false := by
  simp only [handleEventWithGuard, List.mem_append]
  split_ifs <;> simp_all

lemma read_mem_handleEventWithGuard {c : Channel} :
    .read ∈ c.handleEventWithGuard ↔
      (c.revents.pollin || c.revents.pollpri || c.revents.pollrdhup) = true := by
  simp only [handleEventWithGuard, List.mem_append]
  split_ifs <;> simp_all

end Channel
end Muduo

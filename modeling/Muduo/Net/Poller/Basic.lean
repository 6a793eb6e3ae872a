import Muduo.Machine.Agree
import Muduo.Net.Channel

/-!
# The two pollers

`EPollPoller` and `PollPoller` of `muduo/net/poller`, with all the data they share with the loop's
channels: the `ChannelMap` of the base class, the channel's `index`, the interest set of the kernel
on the one side and the array of `pollfd`s on the other. A channel calls its poller through the two
virtual functions of `Poller`, which are here the fields of an `Impl`.

`ι` names the channel objects of one loop, as a `Channel*` does.
-/

namespace Muduo.Poller

open Machine

/-- The members of `Channel` that the pollers read or write. -/
structure Channel where
  fd : ℕ
  events : PollEvents
  index : ℤ
  addedToLoop : Bool
  deriving DecidableEq, Repr

def Channel.new (fd : ℕ) : Channel := ⟨fd, kNoneEvent, -1, false⟩

def Channel.isNoneEvent (c : Channel) : Bool := c.events = kNoneEvent

/-- The channels of a loop and its poller. -/
structure Loop (ι P : Type) where
  channel : ι → Channel
  poller : P

/-- `Poller::ChannelMap`, a `std::map<int, Channel*>`. -/
abbrev ChannelMap (ι : Type) := ℤ → Option ι

/-- The virtual functions of `Poller`. -/
structure Impl (ι P : Type) where
  updateChannel : Loop ι P → ι → Code (Loop ι P)
  removeChannel : Loop ι P → ι → Code (Loop ι P)

variable {ι P : Type} [DecidableEq ι]

def Loop.setChannel (s : Loop ι P) (i : ι) (c : Channel) : Loop ι P :=
  { s with channel := Function.update s.channel i c }

def Loop.setIndex (s : Loop ι P) (i : ι) (index : ℤ) : Loop ι P :=
  s.setChannel i { s.channel i with index := index }

/-! ### The operations of a channel -/

section

variable (impl : Impl ι P) (s : Loop ι P) (i : ι)

/-- `events_ = ev` followed by `Channel::update`. -/
def update (ev : PollEvents) : Code (Loop ι P) :=
  impl.updateChannel (s.setChannel i { s.channel i with events := ev, addedToLoop := true }) i

def enableReading : Code (Loop ι P) := update impl s i ((s.channel i).events ||| kReadEvent)

def disableReading : Code (Loop ι P) := update impl s i ((s.channel i).events &&& ~~~kReadEvent)

def enableWriting : Code (Loop ι P) := update impl s i ((s.channel i).events ||| kWriteEvent)

def disableWriting : Code (Loop ι P) := update impl s i ((s.channel i).events &&& ~~~kWriteEvent)

def disableAll : Code (Loop ι P) := update impl s i kNoneEvent

/-- `Channel::remove`. -/
def remove : Code (Loop ι P) := do
  check .channelRemove (s.channel i).isNoneEvent
  impl.removeChannel (s.setChannel i { s.channel i with addedToLoop := false }) i

end

inductive Op where
  | enableReading
  | disableReading
  | enableWriting
  | disableWriting
  | disableAll
  | remove
  deriving DecidableEq, Repr

/-- One operation of one channel. -/
def step (impl : Impl ι P) (s : Loop ι P) (e : ι × Op) : Code (Loop ι P) :=
  match e.2 with
  | .enableReading => enableReading impl s e.1
  | .disableReading => disableReading impl s e.1
  | .enableWriting => enableWriting impl s e.1
  | .disableWriting => disableWriting impl s e.1
  | .disableAll => disableAll impl s e.1
  | .remove => remove impl s e.1

/-! ### epoll -/

def kNew : ℤ := -1

def kAdded : ℤ := 1

def kDeleted : ℤ := 2

structure EPollPoller (ι : Type) where
  channels : ChannelMap ι
  /-- The interest set of `epollfd_`: for each descriptor the mask and `data.ptr`. -/
  interest : ℤ → Option (PollEvents × ι)

inductive CtlOp where
  | add
  | mod
  | del
  deriving DecidableEq, Repr

/-- `epoll_ctl`, or `none` where it fails with `EEXIST` or `ENOENT`. -/
def epollCtl (op : CtlOp) (fd : ℤ) (event : PollEvents × ι)
    (interest : ℤ → Option (PollEvents × ι)) : Option (ℤ → Option (PollEvents × ι)) :=
  match op, interest fd with
  | .add, none => some (Function.update interest fd (some event))
  | .add, some _ => none
  | .mod, some _ => some (Function.update interest fd (some event))
  | .mod, none => none
  | .del, some _ => some (Function.update interest fd none)
  | .del, none => none

namespace EPollPoller

def new : EPollPoller ι := ⟨fun _ => none, fun _ => none⟩

/-- `EPollPoller::update`: a failed deletion is logged, any other failure is fatal. -/
def update (op : CtlOp) (s : Loop ι (EPollPoller ι)) (i : ι) : Code (Loop ι (EPollPoller ι)) :=
  match epollCtl op (s.channel i).fd ((s.channel i).events, i) s.poller.interest with
  | some interest => return { s with poller := { s.poller with interest := interest } }
  | none => if op = .del then return s else .error (.failed .epollCtl)

/-- `updateChannel`, with `ctl` in the place of `update`. -/
def updateChannelVia (ctl : CtlOp → Loop ι (EPollPoller ι) → ι → Code (Loop ι (EPollPoller ι)))
    (s : Loop ι (EPollPoller ι)) (i : ι) : Code (Loop ι (EPollPoller ι)) := do
  let fd := (s.channel i).fd
  let index := (s.channel i).index
  let channels := s.poller.channels
  if index = kNew ∨ index = kDeleted then
    if index = kNew then
      check .epollUpdateKnown (channels fd = none)
      let s := { s with
        poller := { s.poller with channels := Function.update channels fd (some i) } }
      ctl .add (s.setIndex i kAdded) i
    else
      check .epollUpdateUnknown (channels fd ≠ none)
      check .epollUpdateOther (channels fd = some i)
      ctl .add (s.setIndex i kAdded) i
  else
    check .epollUpdateUnknown (channels fd ≠ none)
    check .epollUpdateOther (channels fd = some i)
    check .epollUpdateIndex (index = kAdded)
    if (s.channel i).isNoneEvent then
      let s ← ctl .del s i
      return s.setIndex i kDeleted
    else
      ctl .mod s i

def updateChannel (s : Loop ι (EPollPoller ι)) (i : ι) : Code (Loop ι (EPollPoller ι)) :=
  updateChannelVia update s i

/-- `removeChannel`, with `ctl` in the place of `update`. -/
def removeChannelVia (ctl : CtlOp → Loop ι (EPollPoller ι) → ι → Code (Loop ι (EPollPoller ι)))
    (s : Loop ι (EPollPoller ι)) (i : ι) : Code (Loop ι (EPollPoller ι)) := do
  let fd := (s.channel i).fd
  let index := (s.channel i).index
  let channels := s.poller.channels
  check .epollRemoveUnknown (channels fd ≠ none)
  check .epollRemoveOther (channels fd = some i)
  check .epollRemoveEvents (s.channel i).isNoneEvent
  check .epollRemoveIndex (index = kAdded ∨ index = kDeleted)
  let s := { s with poller := { s.poller with channels := Function.update channels fd none } }
  let s ← if index = kAdded then ctl .del s i else pure s
  return s.setIndex i kNew

def removeChannel (s : Loop ι (EPollPoller ι)) (i : ι) : Code (Loop ι (EPollPoller ι)) :=
  removeChannelVia update s i

def impl : Impl ι (EPollPoller ι) := ⟨updateChannel, removeChannel⟩

/-- The descriptors that the kernel is asked to watch, with their masks. -/
def watched (p : EPollPoller ι) : Set (ℤ × PollEvents) :=
  { w | ∃ i, p.interest w.1 = some (w.2, i) }

end EPollPoller

/-! ### poll -/

structure PollFd where
  fd : ℤ
  events : PollEvents
  revents : PollEvents
  deriving DecidableEq, Repr

structure PollPoller (ι : Type) where
  channels : ChannelMap ι
  pollfds : List PollFd

namespace PollPoller

def new : PollPoller ι := ⟨fun _ => none, []⟩

def updateChannel (s : Loop ι (PollPoller ι)) (i : ι) : Code (Loop ι (PollPoller ι)) := do
  let fd : ℤ := (s.channel i).fd
  let channels := s.poller.channels
  let pollfds := s.poller.pollfds
  if (s.channel i).index < 0 then
    check .pollUpdateKnown (channels fd = none)
    let pollfds := pollfds ++ [⟨fd, (s.channel i).events, kNoneEvent⟩]
    let s := s.setIndex i ((pollfds.length : ℤ) - 1)
    return { s with poller := ⟨Function.update channels fd (some i), pollfds⟩ }
  else
    check .pollUpdateUnknown (channels fd ≠ none)
    check .pollUpdateOther (channels fd = some i)
    let idx := (s.channel i).index.toNat
    match pollfds[idx]? with
    | none => .error (.failed .pollUpdateIndex)
    | some pfd =>
      check .pollUpdateFd (pfd.fd = fd ∨ pfd.fd = -fd - 1)
      let pfd : PollFd := ⟨if (s.channel i).isNoneEvent then -fd - 1 else fd,
        (s.channel i).events, kNoneEvent⟩
      return { s with poller := ⟨channels, pollfds.set idx pfd⟩ }

/-- The entry of the channel is replaced by the last one, whose channel gets its index. The index of
the removed channel stays what it was. -/
def removeChannel (s : Loop ι (PollPoller ι)) (i : ι) : Code (Loop ι (PollPoller ι)) := do
  let fd : ℤ := (s.channel i).fd
  let channels := s.poller.channels
  let pollfds := s.poller.pollfds
  check .pollRemoveUnknown (channels fd ≠ none)
  check .pollRemoveOther (channels fd = some i)
  check .pollRemoveEvents (s.channel i).isNoneEvent
  check .pollRemoveIndex (0 ≤ (s.channel i).index)
  let idx := (s.channel i).index.toNat
  match pollfds[idx]?, pollfds.getLast? with
  | some pfd, some last =>
    check .pollRemoveFd (pfd.fd = -fd - 1 ∧ pfd.events = (s.channel i).events)
    let channels := Function.update channels fd none
    let poller : PollPoller ι := ⟨channels, (pollfds.set idx last).dropLast⟩
    if idx = pollfds.length - 1 then
      return { s with poller := poller }
    else
      let channelAtEnd := if last.fd < 0 then -last.fd - 1 else last.fd
      match channels channelAtEnd with
      | none => .error (.failed .pollRemoveAtEnd)
      | some j => return { s.setIndex j idx with poller := poller }
  | _, _ => .error (.failed .pollRemoveIndex)

def impl : Impl ι (PollPoller ι) := ⟨updateChannel, removeChannel⟩

/-- The descriptors that the kernel is asked to watch: `poll` skips the negative ones. -/
def watched (p : PollPoller ι) : Set (ℤ × PollEvents) :=
  { w | 0 ≤ w.1 ∧ ∃ pfd ∈ p.pollfds, pfd.fd = w.1 ∧ pfd.events = w.2 }

end PollPoller
end Muduo.Poller

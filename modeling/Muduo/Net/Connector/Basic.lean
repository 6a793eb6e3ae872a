import Muduo.Net.Channel

/-!
# Connector

`muduo/net/Connector.{h,cc}`. A `Connector` makes a connection for a client. It opens a socket,
waits for it to become writable, and hands it to `newConnectionCallback_`; when the attempt fails it
closes the socket and sets a timer for the next one. `stop` clears `connect_` at once and queues
`stopInLoop` for the rest. It cancels no timer. A channel cannot be destroyed by its own callback,
so the functor `resetChannel` does that later.

A socket is named by the number of sockets created before it, so that a descriptor that is closed
and reused does not pass for the same socket. What the system calls return comes with the event.
-/

namespace Muduo

open Machine

inductive Connector.States where
  | kDisconnected
  | kConnecting
  | kConnected
  deriving DecidableEq, Repr

/-- The functors that a `Connector` queues in its loop. -/
inductive Connector.Functor where
  | startInLoop
  | stopInLoop
  | resetChannel
  deriving DecidableEq, Repr

/-- A timer set by `retry` that has not fired. -/
structure Connector.RetryTimer where
  delayMs : ℕ
  /-- How many of the functors that were queued when it was set have not run. -/
  ahead : ℕ
  deriving DecidableEq, Repr

/-- What happens to sockets, and the times at which `stop` clears `connect_`. -/
inductive Connector.Action where
  | opened (sockfd : ℕ)
  | closed (sockfd : ℕ)
  /-- `newConnectionCallback_(sockfd)`. -/
  | passed (sockfd : ℕ)
  | stopped
  deriving DecidableEq, Repr

structure Connector where
  connect_ : Bool
  state : Connector.States
  channel : Option Channel
  retryDelayMs : ℕ
  /-- The queue of the loop. -/
  functors : List Connector.Functor
  timers : List Connector.RetryTimer
  numSockets : ℕ
  log : List Connector.Action

namespace Connector

def kMaxRetryDelayMs : ℕ := 30 * 1000

def kInitRetryDelayMs : ℕ := 500

/-- The constructor. -/
def new : Connector where
  connect_ := false
  state := .kDisconnected
  channel := none
  retryDelayMs := kInitRetryDelayMs
  functors := []
  timers := []
  numSockets := 0
  log := []

/-! ### The loop and the sockets -/

def queueInLoop (c : Connector) (f : Functor) : Connector :=
  { c with functors := c.functors ++ [f] }

/-- `runAfter(delayMs / 1000.0, startInLoop)`. -/
def runAfter (c : Connector) (delayMs : ℕ) : Connector :=
  { c with timers := c.timers ++ [⟨delayMs, c.functors.length⟩] }

/-- A functor is taken from the queue, and the timers have one less ahead. -/
def takeFunctor (c : Connector) (functors : List Functor) : Connector :=
  { c with functors, timers := c.timers.map fun t => { t with ahead := t.ahead - 1 } }

/-- `sockets::createNonblockingOrDie`. -/
def createNonblockingOrDie (c : Connector) : Connector × ℕ :=
  ({ c with numSockets := c.numSockets + 1, log := c.log ++ [.opened c.numSockets] }, c.numSockets)

/-- `sockets::close`. -/
def close (c : Connector) (sockfd : ℕ) : Connector := { c with log := c.log ++ [.closed sockfd] }

def newConnectionCallback (c : Connector) (sockfd : ℕ) : Connector :=
  { c with log := c.log ++ [.passed sockfd] }

/-! ### The member functions -/

/-- `removeAndResetChannel`. `channel_` is dereferenced. -/
def removeAndResetChannel (c : Connector) (d : Dispatch) : Code (Connector × ℕ) :=
  match c.channel with
  | none => .error (.failed .connectorNullChannel)
  | some channel => do
    let channel ← channel.disableAll.remove d
    return (queueInLoop { c with channel := some channel } .resetChannel, channel.fd)

/-- `resetChannel`, with the assertion that the destructor of `Channel` makes. -/
def resetChannel (c : Connector) : Code Connector :=
  match c.channel with
  | none => return c
  | some channel => do
    check .channelDestroyedAdded (channel.addedToLoop = false)
    return { c with channel := none }

def retry (c : Connector) (sockfd : ℕ) : Connector :=
  let c := { c.close sockfd with state := .kDisconnected }
  if c.connect_ then
    { c.runAfter c.retryDelayMs with retryDelayMs := min (c.retryDelayMs * 2) kMaxRetryDelayMs }
  else
    c

def connecting (c : Connector) (sockfd : ℕ) : Code Connector := do
  let c := { c with state := .kConnecting }
  check .connecting c.channel.isNone
  return { c with channel := some (Channel.new sockfd).enableWriting }

/-- `connect`. `savedErrno` is what `::connect` reports. -/
def connect (c : Connector) (savedErrno : Option Errno) : Code Connector :=
  let (c, sockfd) := c.createNonblockingOrDie
  match savedErrno with
  | none | some .EINPROGRESS | some .EINTR | some .EISCONN => c.connecting sockfd
  | some .EAGAIN | some .EADDRINUSE | some .EADDRNOTAVAIL | some .ECONNREFUSED
  | some .ENETUNREACH => return c.retry sockfd
  | some .EACCES | some .EPERM | some .EAFNOSUPPORT | some .EALREADY | some .EBADF | some .EFAULT
  | some .ENOTSOCK => return c.close sockfd
  | some _ => return c.close sockfd

def startInLoop (c : Connector) (savedErrno : Option Errno) : Code Connector := do
  check .startInLoop (c.state = .kDisconnected)
  if c.connect_ then
    c.connect savedErrno
  else
    return c

def stopInLoop (c : Connector) : Code Connector :=
  if c.state = .kConnecting then do
    let (c, sockfd) ← removeAndResetChannel { c with state := .kDisconnected } .functors
    return c.retry sockfd
  else
    return c

/-- `handleWrite`. `err` is what `SO_ERROR` holds. -/
def handleWrite (c : Connector) (err : Option Errno) (isSelfConnect : Bool) : Code Connector :=
  if c.state = .kConnecting then do
    let (c, sockfd) ← c.removeAndResetChannel .callback
    if err.isSome then
      return c.retry sockfd
    else if isSelfConnect then
      return c.retry sockfd
    else
      let c := { c with state := .kConnected }
      if c.connect_ then
        return c.newConnectionCallback sockfd
      else
        return c.close sockfd
  else do
    check .connectorHandleWrite (c.state = .kDisconnected)
    return c

/-- `handleError`. The value of `SO_ERROR` is only logged. -/
def handleError (c : Connector) : Code Connector :=
  if c.state = .kConnecting then do
    let (c, sockfd) ← c.removeAndResetChannel .callback
    return c.retry sockfd
  else
    return c

/-- `connect_ = false` in `stop`. -/
def clearConnect (c : Connector) : Connector :=
  { c with connect_ := false, log := c.log ++ [.stopped] }

def runFunctor (c : Connector) (savedErrno : Option Errno) : Functor → Code Connector
  | .startInLoop => c.startInLoop savedErrno
  | .stopInLoop => c.stopInLoop
  | .resetChannel => c.resetChannel

/-! ### The system -/

structure System where
  connector : Connector
  /-- The functors of calls that other threads have begun: `connect_` is stored, and the functor is
  not queued. -/
  inFlight : List Functor
  /-- The callbacks that `handleEvent` of the channel has not run yet. -/
  handling : List EventCallback
  /-- The last call of the user was `start`. -/
  started : Bool

inductive Event where
  /-- `start` in the loop thread and in another one. -/
  | start (savedErrno : Option Errno)
  | remoteStart
  /-- `stop` in the loop thread and in another one. -/
  | stop
  | remoteStop
  /-- Another thread queues its functor. -/
  | queueInLoop (i : ℕ)
  | doPendingFunctor (savedErrno : Option Errno)
  | retryTimer (i : ℕ) (savedErrno : Option Errno)
  /-- `poll` reports the channel. -/
  | poll (revents : PollEvents)
  /-- The channel runs the next callback. -/
  | handleEvent (err : Option Errno) (isSelfConnect : Bool)
  deriving DecidableEq, Repr

namespace System

def init : System where
  connector := Connector.new
  inFlight := []
  handling := []
  started := false

/-- The callbacks of `revents` that `connecting` has set. -/
def callbacks (channel : Channel) : List EventCallback :=
  channel.handleEventWithGuard.filter (· ∈ [EventCallback.error, EventCallback.write])

/-- The user's calls alternate: a `start` after the first one follows a `stop`. Functors do not run
while the channel handles an event. The user's calls in the loop thread may come at any time, from a
functor or a callback. -/
def step (s : System) : Event → Code System
  | .start savedErrno => do
    require (s.started = false)
    let connector ← startInLoop { s.connector with connect_ := true } savedErrno
    return { s with connector, started := true }
  | .remoteStart => do
    require (s.started = false)
    return { s with
      connector := { s.connector with connect_ := true }
      inFlight := s.inFlight ++ [.startInLoop]
      started := true }
  | .stop =>
    return { s with
      connector := s.connector.clearConnect.queueInLoop .stopInLoop
      started := false }
  | .remoteStop =>
    return { s with
      connector := s.connector.clearConnect
      inFlight := s.inFlight ++ [.stopInLoop]
      started := false }
  | .queueInLoop i =>
    match s.inFlight[i]? with
    | some f =>
      return { s with connector := s.connector.queueInLoop f, inFlight := s.inFlight.eraseIdx i }
    | none => .error .disabled
  | .doPendingFunctor savedErrno =>
    match s.handling, s.connector.functors with
    | [], f :: functors => do
      let connector ← (s.connector.takeFunctor functors).runFunctor savedErrno f
      return { s with connector }
    | _, _ => .error .disabled
  | .retryTimer i savedErrno =>
    match s.connector.timers[i]? with
    | some _ => do
      let c := { s.connector with timers := s.connector.timers.eraseIdx i }
      let connector ← c.startInLoop savedErrno
      return { s with connector }
    | none => .error .disabled
  | .poll revents =>
    match s.connector.channel, s.handling with
    | some channel, [] => do
      require (channel.mayReport revents)
      let channel := channel.setRevents revents
      return { s with
        connector := { s.connector with channel := some channel }
        handling := callbacks channel }
    | _, _ => .error .disabled
  | .handleEvent err isSelfConnect =>
    match s.handling with
    | .write :: handling => do
      let connector ← s.connector.handleWrite err isSelfConnect
      return { s with connector, handling }
    | .error :: handling => do
      let connector ← s.connector.handleError
      return { s with connector, handling }
    | _ => .error .disabled

end System
end Connector
end Muduo

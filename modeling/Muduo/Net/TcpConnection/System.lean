import Muduo.Net.TcpConnection.Properties

/-!
# A connection among its callers

A `System` is a connection after `connectEstablished` together with everything that acts on it: the
poller, whose results its channel dispatches callback by callback, the queue of its loop, the timers
of `forceCloseWithDelay`, the user's calls in the loop thread and in other threads, and the owner,
which queues `connectDestroyed` after the close callback.

A call made in the loop thread runs at once. In another thread it first reads `state_`, and what is
left to do, a store to `state_` and an insertion into a queue, happens in later steps, between which
anything else may happen.
-/

namespace Muduo
namespace TcpConnection

open Machine

inductive UserCall where
  | send (data : List UInt8)
  | shutdown
  | forceClose
  | forceCloseWithDelay
  | startRead
  | stopRead
  deriving DecidableEq, Repr

/-! ### Calls in the loop thread -/

def send (c : TcpConnection) (data : List UInt8) (r : WriteResult) : Code TcpConnection :=
  if c.state = .kConnected then c.sendInLoop data r else return c

def shutdown (c : TcpConnection) : TcpConnection :=
  if c.state = .kConnected then (c.setState .kDisconnecting).shutdownInLoop else c

def forceClose (c : TcpConnection) : TcpConnection :=
  if c.state = .kConnected ∨ c.state = .kDisconnecting then
    (c.setState .kDisconnecting).queueInLoop .forceCloseInLoop
  else c

/-- `forceCloseWithDelay` up to the call of `runAfter`; the flag says whether a timer is added. -/
def forceCloseWithDelay (c : TcpConnection) : TcpConnection × Bool :=
  if c.state = .kConnected ∨ c.state = .kDisconnecting then (c.setState .kDisconnecting, true)
  else (c, false)

/-! ### Calls in other threads -/

/-- What a call outside the loop thread does after it has read `state_`, one step each. -/
inductive RemoteAction where
  | setDisconnecting
  | queueInLoop (f : Functor)
  | runAfter
  deriving DecidableEq, Repr

/-- The rest of a call outside the loop thread, decided by the state it has read. -/
def remoteCall (c : TcpConnection) : UserCall → List RemoteAction
  | .send data => if c.state = .kConnected then [.queueInLoop (.sendInLoop data)] else []
  | .shutdown =>
    if c.state = .kConnected then [.setDisconnecting, .queueInLoop .shutdownInLoop] else []
  | .forceClose =>
    if c.state = .kConnected ∨ c.state = .kDisconnecting then
      [.setDisconnecting, .queueInLoop .forceCloseInLoop]
    else []
  | .forceCloseWithDelay =>
    if c.state = .kConnected ∨ c.state = .kDisconnecting then [.setDisconnecting, .runAfter] else []
  | .startRead => [.queueInLoop .startReadInLoop]
  | .stopRead => [.queueInLoop .stopReadInLoop]

/-! ### The loop's side -/

/-- The function that the constructor has bound to a callback of the channel. -/
def runCallback (c : TcpConnection) (rd : ReadResult) (wr : WriteResult) :
    EventCallback → Code TcpConnection
  | .close => c.handleClose
  | .error => return c.handleError
  | .read => c.handleRead rd
  | .write => c.handleWrite wr

def runFunctor (c : TcpConnection) (wr : WriteResult) : Functor → Code TcpConnection
  | .sendInLoop data => c.sendInLoop data wr
  | .shutdownInLoop => return c.shutdownInLoop
  | .forceCloseInLoop => c.forceCloseInLoop
  | .startReadInLoop => return c.startReadInLoop
  | .stopReadInLoop => return c.stopReadInLoop
  | .connectDestroyed => c.connectDestroyed .functors
  | .writeCompleteCallback => return c.call .writeComplete
  | .highWaterMarkCallback len => return c.call (.highWaterMark len)

structure System where
  conn : TcpConnection
  /-- The callbacks of the last poll result that are still to be run. -/
  handling : List EventCallback
  /-- The calls in progress in other threads. -/
  remote : List (List RemoteAction)
  /-- The timers of `forceCloseWithDelay` that have not fired. -/
  delayed : ℕ
  /-- The owner has queued `connectDestroyed`. -/
  removed : Bool
  /-- `connectDestroyed` has run. -/
  destroyed : Bool

inductive Event where
  /-- The poller reports `revt` for the connection's channel. -/
  | poll (revt : PollEvents)
  /-- The next callback of `handleEventWithGuard`, with the answer of its system call. -/
  | handleEvent (rd : ReadResult) (wr : WriteResult)
  /-- The next pending functor. -/
  | doPendingFunctor (wr : WriteResult)
  | user (call : UserCall) (wr : WriteResult)
  | delayElapsed
  | remoteCall (call : UserCall)
  /-- The next action of the `i`-th call in progress. -/
  | remoteAction (i : ℕ)
  /-- `removeConnection` queues `connectDestroyed`. -/
  | removeConnection
  deriving DecidableEq, Repr

namespace System

/-- The system when `connectEstablished` returns. -/
def init (sockfd : ℕ) (hasWriteComplete hasHighWaterMark : Bool) (highWaterMark : ℕ) : System where
  conn := established sockfd hasWriteComplete hasHighWaterMark highWaterMark
  handling := []
  remote := []
  delayed := 0
  removed := false
  destroyed := false

def onConn (s : System) (f : TcpConnection → Code TcpConnection) : Code System := do
  let conn ← f s.conn
  return { s with conn }

def userCall (s : System) (wr : WriteResult) : UserCall → Code System
  | .send data => s.onConn fun c => c.send data wr
  | .shutdown => return { s with conn := s.conn.shutdown }
  | .forceClose => return { s with conn := s.conn.forceClose }
  | .forceCloseWithDelay =>
    let (conn, added) := s.conn.forceCloseWithDelay
    return { s with conn, delayed := if added then s.delayed + 1 else s.delayed }
  | .startRead => return { s with conn := s.conn.startReadInLoop }
  | .stopRead => return { s with conn := s.conn.stopReadInLoop }

def act (s : System) : RemoteAction → System
  | .setDisconnecting => { s with conn := s.conn.setState .kDisconnecting }
  | .queueInLoop f => { s with conn := s.conn.queueInLoop f }
  | .runAfter => { s with delayed := s.delayed + 1 }

/-- The callbacks of one poll result run before the next functor or poll result; the calls of the
user may come between them, from callbacks and from other threads. -/
def step (s : System) (e : Event) : Code System := do
  require (s.destroyed = false)
  match e with
  | .poll revt =>
    require (s.handling = [] ∧ s.conn.channel.mayReport revt = true)
    let conn := s.conn.onChannel fun ch => ch.setRevents revt
    return { s with conn, handling := conn.channel.handleEventWithGuard }
  | .handleEvent rd wr =>
    match s.handling with
    | [] => .error .disabled
    | cb :: rest => onConn { s with handling := rest } fun c => c.runCallback rd wr cb
  | .doPendingFunctor wr =>
    require (s.handling = [])
    match s.conn.pendingFunctors with
    | [] => .error .disabled
    | f :: rest =>
      let conn ← runFunctor { s.conn with pendingFunctors := rest } wr f
      return { s with conn, destroyed := f = .connectDestroyed }
  | .user call wr => s.userCall wr call
  | .delayElapsed =>
    require (0 < s.delayed)
    return { s with conn := s.conn.forceClose, delayed := s.delayed - 1 }
  | .remoteCall call => return { s with remote := s.remote ++ [s.conn.remoteCall call] }
  | .remoteAction i =>
    match s.remote[i]? with
    | some (a :: rest) => return { s with remote := s.remote.set i rest }.act a
    | _ => .error .disabled
  | .removeConnection =>
    require (.close ∈ s.conn.calls ∧ s.removed = false)
    return { s with conn := s.conn.queueInLoop .connectDestroyed, removed := true }

end System
end TcpConnection
end Muduo

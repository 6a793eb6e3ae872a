import Muduo.Net.Buffer
import Muduo.Net.Channel

/-!
# TcpConnection

The functions of `muduo/net/TcpConnection.cc` that run in the loop thread. The answers of the system
calls are arguments: a `WriteResult` for `::write`, a `ReadResult` for `readv`. Next to the members
of the class, a `TcpConnection` here has the part of the outside world that its code acts on: the
queue of its loop, the operations performed on its socket and the user callbacks invoked, each in
order.
-/

namespace Muduo

open Machine

/-- What `::write` returns: the count of accepted bytes, or `-1` with `errno`. -/
inductive WriteResult where
  | accepted (n : ℕ)
  | error (e : Errno)
  deriving DecidableEq, Repr

/-- What `readv` returns: bytes, `0`, or `-1` with `errno`. -/
inductive ReadResult where
  | data (r : List UInt8)
  | eof
  | error (e : Errno)
  deriving DecidableEq, Repr

inductive SocketOp where
  | write (bytes : List UInt8)
  | shutdownWrite
  deriving DecidableEq, Repr

namespace TcpConnection

inductive StateE where
  | kDisconnected
  | kConnecting
  | kConnected
  | kDisconnecting
  deriving DecidableEq, Repr

/-- The functors that are bound to a connection and queued in its loop. -/
inductive Functor where
  | sendInLoop (data : List UInt8)
  | shutdownInLoop
  | forceCloseInLoop
  | startReadInLoop
  | stopReadInLoop
  | connectDestroyed
  | writeCompleteCallback
  | highWaterMarkCallback (len : ℕ)
  deriving DecidableEq, Repr

/-- A user callback, `connectionCallback_` with what `connected()` returns inside it. -/
inductive Callback where
  | connection (connected : Bool)
  | message
  | close
  | writeComplete
  | highWaterMark (len : ℕ)
  deriving DecidableEq, Repr

end TcpConnection

open TcpConnection in
structure TcpConnection where
  state : StateE
  reading : Bool
  channel : Channel
  inputBuffer : Buffer
  outputBuffer : Buffer
  highWaterMark : ℕ
  /-- Whether `writeCompleteCallback_` and `highWaterMarkCallback_` are set. -/
  hasWriteComplete : Bool
  hasHighWaterMark : Bool
  pendingFunctors : List Functor
  socket : List SocketOp
  calls : List Callback

namespace TcpConnection

/-- The constructor, with the optional callbacks the user has set. -/
def new (sockfd : ℕ) (hasWriteComplete hasHighWaterMark : Bool) (highWaterMark : ℕ) :
    TcpConnection where
  state := .kConnecting
  reading := true
  channel := Channel.new sockfd
  inputBuffer := Buffer.new
  outputBuffer := Buffer.new
  highWaterMark := highWaterMark
  hasWriteComplete := hasWriteComplete
  hasHighWaterMark := hasHighWaterMark
  pendingFunctors := []
  socket := []
  calls := []

def connected (c : TcpConnection) : Bool := c.state = .kConnected

def setState (c : TcpConnection) (s : StateE) : TcpConnection := { c with state := s }

def queueInLoop (c : TcpConnection) (f : Functor) : TcpConnection :=
  { c with pendingFunctors := c.pendingFunctors ++ [f] }

def call (c : TcpConnection) (cb : Callback) : TcpConnection := { c with calls := c.calls ++ [cb] }

def onSocket (c : TcpConnection) (op : SocketOp) : TcpConnection :=
  { c with socket := c.socket ++ [op] }

def onChannel (c : TcpConnection) (f : Channel → Channel) : TcpConnection :=
  { c with channel := f c.channel }

/-! ### Sending -/

/-- `if (writeCompleteCallback_)`, queue it. -/
def queueWriteComplete (c : TcpConnection) : TcpConnection :=
  if c.hasWriteComplete then c.queueInLoop .writeCompleteCallback else c

/-- `highWaterMarkCallback_` is queued when the buffer crosses the mark. -/
def queueHighWaterMark (c : TcpConnection) (remaining : ℕ) : TcpConnection :=
  let oldLen := c.outputBuffer.readableBytes
  if c.highWaterMark ≤ oldLen + remaining ∧ oldLen < c.highWaterMark ∧ c.hasHighWaterMark then
    c.queueInLoop (.highWaterMarkCallback (oldLen + remaining))
  else c

/-- The first half of `sendInLoop`: with nothing queued, write directly. It returns `nwrote` and
`faultError`. -/
def writeDirectly (c : TcpConnection) (data : List UInt8) (r : WriteResult) :
    Code (TcpConnection × ℕ × Bool) :=
  if !c.channel.isWriting && c.outputBuffer.readableBytes = 0 then
    match r with
    | .accepted n => do
      require (n ≤ data.length)
      let c := c.onSocket (.write (data.take n))
      let c := if data.length - n = 0 then c.queueWriteComplete else c
      return (c, n, false)
    | .error e => return (c, 0, e = .EPIPE || e = .ECONNRESET)
  else
    return (c, 0, false)

/-- The second half of `sendInLoop`: append `rest`, the bytes not written, to the output buffer. -/
def bufferRest (c : TcpConnection) (rest : List UInt8) : Code TcpConnection := do
  let c := c.queueHighWaterMark rest.length
  let outputBuffer ← c.outputBuffer.append rest
  let c := { c with outputBuffer }
  if !c.channel.isWriting then
    return c.onChannel Channel.enableWriting
  else
    return c

def sendInLoop (c : TcpConnection) (data : List UInt8) (r : WriteResult) : Code TcpConnection :=
  if c.state = .kDisconnected then
    return c
  else do
    let (c, nwrote, faultError) ← c.writeDirectly data r
    let remaining := data.length - nwrote
    check .sendRemaining (remaining ≤ data.length)
    if !faultError && 0 < remaining then
      c.bufferRest (data.drop nwrote)
    else
      return c

def shutdownInLoop (c : TcpConnection) : TcpConnection :=
  if !c.channel.isWriting then c.onSocket .shutdownWrite else c

/-- `handleWrite` after `outputBuffer_.retrieve(n)` has left nothing to write. -/
def writeFinished (c : TcpConnection) : TcpConnection :=
  let c := (c.onChannel Channel.disableWriting).queueWriteComplete
  if c.state = .kDisconnecting then c.shutdownInLoop else c

def handleWrite (c : TcpConnection) (r : WriteResult) : Code TcpConnection :=
  if c.channel.isWriting then
    match r with
    | .accepted n => do
      require (n ≤ c.outputBuffer.readableBytes)
      if 0 < n then
        let c := c.onSocket (.write (c.outputBuffer.readable.take n))
        let outputBuffer ← c.outputBuffer.retrieve n
        let c := { c with outputBuffer }
        return if outputBuffer.readableBytes = 0 then c.writeFinished else c
      else
        return c
    | .error _ => return c
  else
    return c

/-! ### Reading -/

def startReadInLoop (c : TcpConnection) : TcpConnection :=
  if !c.reading || !c.channel.isReading then
    { c.onChannel Channel.enableReading with reading := true }
  else c

def stopReadInLoop (c : TcpConnection) : TcpConnection :=
  if c.reading || c.channel.isReading then
    { c.onChannel Channel.disableReading with reading := false }
  else c

/-! ### Opening and closing -/

def connectEstablished (c : TcpConnection) : Code TcpConnection := do
  check .connectEstablished (c.state = .kConnecting)
  let c := (c.setState .kConnected).onChannel Channel.enableReading
  return c.call (.connection c.connected)

def connectDestroyed (c : TcpConnection) (d : Dispatch) : Code TcpConnection := do
  let c :=
    if c.state = .kConnected then
      let c := (c.setState .kDisconnected).onChannel Channel.disableAll
      c.call (.connection c.connected)
    else c
  let channel ← c.channel.remove d
  return { c with channel }

def handleClose (c : TcpConnection) : Code TcpConnection := do
  check .handleClose (c.state = .kConnected ∨ c.state = .kDisconnecting)
  let c := (c.setState .kDisconnected).onChannel Channel.disableAll
  let c := c.call (.connection c.connected)
  return c.call .close

def forceCloseInLoop (c : TcpConnection) : Code TcpConnection :=
  if c.state = .kConnected ∨ c.state = .kDisconnecting then c.handleClose else return c

/-- `handleError` only reads and logs `SO_ERROR`. -/
def handleError (c : TcpConnection) : TcpConnection := c

def handleRead (c : TcpConnection) (r : ReadResult) : Code TcpConnection :=
  match r with
  | .data bytes => do
    require (bytes ≠ [])
    let inputBuffer ← c.inputBuffer.readFd bytes
    return { c with inputBuffer }.call .message
  | .eof => c.handleClose
  | .error _ => return c.handleError

end TcpConnection
end Muduo

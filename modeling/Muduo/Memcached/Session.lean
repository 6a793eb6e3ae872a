import Muduo.Machine.Loop
import Muduo.Machine.Run
import Muduo.Memcached.Cache
import Muduo.Memcached.Request

/-!
# Sessions

`Session` of `memcached/server/Session.{h,cc}`. The store that `owner_` points to and the connection
are fields of the session here; the input buffer and `outputBuf_` are the bytes that they hold,
which is what a `Buffer` amounts to. The protocol is `kAscii` from the constructor on. `bytesRead_`
and `requestsProcessed_` are only counted.
-/

namespace Muduo.Memcached

open Machine Item

/-- What a session sees of its `TcpConnection`: whether `state_` is `kConnected`, and the bytes that
were handed to it while it was. -/
structure Conn where
  connected : Bool
  sent : List UInt8

namespace Conn

variable (conn : Conn)

def send (msg : List UInt8) : Conn :=
  if conn.connected then { conn with sent := conn.sent ++ msg } else conn

def shutdown : Conn := { conn with connected := false }

end Conn

inductive State where
  | kNewCommand
  | kReceiveValue
  | kDiscardValue
  deriving DecidableEq, Repr

structure Session where
  owner : MemcacheServer
  conn : Conn
  state : State
  command : List UInt8
  noreply : Bool
  policy : UpdatePolicy
  currItem : Option Item
  bytesToDiscard : ℕ
  needle : Item
  outputBuf : List UInt8

namespace Session

variable (hash : List UInt8 → ℕ) (s : Session)

def resetRequest : Session :=
  { s with command := [], noreply := false, policy := .kInvalid, currItem := none,
           bytesToDiscard := 0 }

def reply (msg : List UInt8) : Session :=
  if s.noreply then s else { s with conn := s.conn.send msg }

/-- The effect of a `noreply` suffix. -/
def setNoreply (noreply : Bool) : Session := if noreply then { s with noreply := true } else s

def shutdown : Session := { s with conn := s.conn.shutdown }

/-- `conn_->send(&outputBuf_)` empties the buffer only while the connection is up. -/
def sendOutput : Session :=
  if s.conn.connected then { s with conn := s.conn.send s.outputBuf, outputBuf := [] } else s

/-! ### Values -/

/-- The reply to a complete value. -/
def storedReply (policy : UpdatePolicy) (stored found : Bool) : List UInt8 :=
  if stored then ascii "STORED\r\n"
  else if policy = .kCas then
    if found then ascii "EXISTS\r\n" else ascii "NOT_FOUND\r\n"
  else ascii "NOT_STORED\r\n"

/-- A complete value is stored if it ends with CRLF. -/
def storeValue (item : Item) : Code Session :=
  if item.endsWithCRLF then do
    let (stored, found, owner) ← s.owner.storeItem hash item s.policy
    return { s with owner }.reply (storedReply s.policy stored found)
  else
    return s.reply (ascii "CLIENT_ERROR bad data chunk\r\n")

/-- The end of `receiveValue`, with all bytes there. -/
def finishValue (item : Item) : Code Session := do
  let s ← s.storeValue hash item
  return { s.resetRequest with state := .kNewCommand }

def receiveValue (buf : List UInt8) : Code (Session × List UInt8) :=
  match s.currItem with
  | none => .error (.failed .receiveValueItem)
  | some item => do
    check .receiveValueState (s.state = .kReceiveValue)
    let avail := min buf.length item.neededBytes
    let item ← item.append (buf.take avail)
    let s := { s with currItem := some item }
    if item.neededBytes = 0 then do
      let s ← s.finishValue hash item
      return (s, buf.drop avail)
    else
      return (s, buf.drop avail)

def discardValue (buf : List UInt8) : Code (Session × List UInt8) := do
  check .discardValueItem (s.currItem.isNone = true)
  check .discardValueState (s.state = .kDiscardValue)
  if buf.length < s.bytesToDiscard then
    return ({ s with bytesToDiscard := s.bytesToDiscard - buf.length }, [])
  else
    return ({ s.resetRequest with state := .kNewCommand }, buf.drop s.bytesToDiscard)

/-! ### Requests -/

def badFormat : List UInt8 := ascii "CLIENT_ERROR bad command line format\r\n"

/-- The relative expiry time, an `int`. -/
def relExptimeOf (startTime exptime : ℤ) : ℤ :=
  if 60 * 60 * 24 * 30 < exptime then max 1 (Int.bmod (exptime - startTime) (2 ^ 32))
  else Int.bmod exptime (2 ^ 32)

/-- `doUpdate`, which returns whether the request is finished. Dereferencing the end of the tokens
is a failure. -/
def doUpdate (beg : List Token) : Code (Bool × Session) := do
  match policyOf s.command, beg with
  | none, _ => .error (.failed .doUpdatePolicy)
  | some _, [] => .error (.failed .tokenPastEnd)
  | some policy, key :: rest =>
    let s := { s with policy }
    match readFields policy key rest with
    | none => return (true, s.reply badFormat)
    | some fields =>
      if 1024 * 1024 < fields.bytes then do
        let s := s.reply (ascii "SERVER_ERROR object too large for cache\r\n")
        let needle ← s.needle.resetKey key
        -- `bytes + 2` is an `int`, `bytesToDiscard_` a `size_t`
        return (false, { s with
          needle
          owner := (s.owner.deleteItem hash needle).2
          bytesToDiscard := (Int.bmod (fields.bytes + 2) (2 ^ 32) % 2 ^ 64).toNat
          state := .kDiscardValue })
      else do
        let item ← makeItem key fields.flags (relExptimeOf s.owner.startTime fields.exptime)
          (fields.bytes + 2) fields.cas
        return (false, { s with currItem := some item, state := .kReceiveValue })

def doDelete (beg : List Token) : Code Session :=
  match beg with
  | [] => .error (.failed .tokenPastEnd)
  | key :: rest =>
    if key.length ≤ kLongestKeySize then
      if rest.head?.any (· ≠ ascii "0") then
        return s.reply
          (ascii "CLIENT_ERROR bad command line format.  Usage: delete <key> [noreply]\r\n")
      else do
        let needle ← s.needle.resetKey key
        let (deleted, owner) := s.owner.deleteItem hash needle
        return { s with needle, owner }.reply
          (if deleted then ascii "DELETED\r\n" else ascii "NOT_FOUND\r\n")
    else
      return s.reply badFormat

/-- The loop of `get` and `gets` over the keys. -/
def outputItems (cas : Bool) : Session → List Token → Code (Bool × Session)
  | s, [] => return (true, s)
  | s, key :: rest =>
    if key.length ≤ kLongestKeySize then do
      let needle ← s.needle.resetKey key
      let found := (s.owner.getItem hash needle).elim [] (·.output cas)
      outputItems cas { s with needle, outputBuf := s.outputBuf ++ found } rest
    else
      return (false, s.reply badFormat)

def doGet (cas : Bool) (beg : List Token) : Code Session := do
  let (good, s) ← outputItems hash cas s beg
  if good then
    return { s with outputBuf := s.outputBuf ++ ascii "END\r\n" }.sendOutput
  else
    return s

/-- The command of a request, taken apart. -/
def dispatch (beg : List Token) : Code (Bool × Session) :=
  if (policyOf s.command).isSome then
    s.doUpdate hash beg
  else if s.command = ascii "get" ∨ s.command = ascii "gets" then
    (true, ·) <$> s.doGet hash (s.command = ascii "gets") beg
  else if s.command = ascii "delete" then
    (true, ·) <$> s.doDelete hash beg
  else if s.command = ascii "version" then
    return (true, s.reply (ascii "VERSION 0.01 muduo\r\n"))
  else if s.command = ascii "quit" then
    return (true, s.shutdown)
  else if s.command = ascii "shutdown" then
    return (true, { s.shutdown with owner := s.owner.stop })
  else
    return (true, s.reply (ascii "ERROR\r\n"))

/-- The fields that `processRequest` asserts to be reset. -/
def IsReset : Prop :=
  s.command = [] ∧ s.noreply = false ∧ s.policy = .kInvalid ∧ s.currItem.isNone ∧
    s.bytesToDiscard = 0

instance : Decidable s.IsReset := inferInstanceAs (Decidable (_ ∧ _))

/-- `processRequest`, which returns true if it finished a request. -/
def processRequest (request : List UInt8) : Code (Bool × Session) := do
  check .processRequestReset s.IsReset
  let (noreply, request) := stripNoreply request
  let s := s.setNoreply noreply
  match tokens request with
  | [] => return (true, s.reply (ascii "ERROR\r\n"))
  | command :: beg => dispatch hash { s with command } beg

/-! ### The loop of `onMessage` -/

/-- A round in `kNewCommand`. -/
def readRequest (buf : List UInt8) : Code (Round (Session × List UInt8)) :=
  match findCRLF buf with
  | some crlf => do
    -- the source does not test this: it casts the length to `int`, and the model stops where the
    -- cast would change it
    check .requestLength (crlf < 2 ^ 31)
    let (finished, s) ← s.processRequest hash (buf.take crlf)
    return .again (if finished then s.resetRequest else s, buf.drop (crlf + 2))
  | none => return .stop (if 1024 < buf.length then s.shutdown else s, buf)

def round (p : Session × List UInt8) : Code (Round (Session × List UInt8)) :=
  if p.2 = [] then
    return .stop p
  else
    match p.1.state with
    | .kNewCommand => p.1.readRequest hash p.2
    | .kReceiveValue => .again <$> p.1.receiveValue hash p.2
    | .kDiscardValue => .again <$> p.1.discardValue p.2

/-- Each round takes bytes from the buffer or ends a value. -/
def measure (p : Session × List UInt8) : ℕ :=
  2 * p.2.length + if p.1.state = .kNewCommand then 0 else 1

/-- `onMessage`, with the bytes of the input buffer before and after it. -/
def onMessage (buf : List UInt8) : Code (Session × List UInt8) :=
  loop .outOfFuel (round hash) measure (s, buf)

/-- A chunk arrives: it is appended to the unread input, and `onMessage` is called. -/
def receive (p : Session × List UInt8) (chunk : List UInt8) : Code (Session × List UInt8) :=
  p.1.onMessage hash (p.2 ++ chunk)

end Session

/-- The constructor. -/
def makeSession (owner : MemcacheServer) : Code Session := do
  let needle ← makeItem (List.replicate kLongestKeySize 120) 0 0 2 0
  return {
    owner := owner
    conn := ⟨true, []⟩
    state := .kNewCommand
    command := []
    noreply := false
    policy := .kInvalid
    currItem := none
    bytesToDiscard := 0
    needle := needle
    outputBuf := [] }

end Muduo.Memcached

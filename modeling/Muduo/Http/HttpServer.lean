import Muduo.Http.HttpMessage
import Muduo.Machine.Loop

/-!
# HttpContext and HttpServer

The parser of a connection, which keeps its state and its request from one call of `onMessage` to
the next, and the server, which calls the user's callback for each request that is complete.
-/

namespace Muduo

open Machine

/-! ### The parser -/

namespace HttpRequest

/-- The end of `processRequestLine`: `HTTP/1.` and a digit. -/
def setVersionText (r : HttpRequest) (text : List UInt8) : Bool × HttpRequest :=
  if text.length = 8 ∧ text.take 7 = ascii "HTTP/1." then
    if text.getLast? = some 49 then (true, { r with version := .kHttp11 })
    else if text.getLast? = some 48 then (true, { r with version := .kHttp10 })
    else (false, r)
  else (false, r)

/-- The target of a request: the query begins with its question mark. -/
def setTarget (r : HttpRequest) (target : List UInt8) : HttpRequest :=
  match cut 63 target with
  | some (path, query) => { r with path := path, query := 63 :: query }
  | none => { r with path := target }

/-- `HttpContext::processRequestLine`, on the request of the context. -/
def processRequestLine (r : HttpRequest) (line : List UInt8) : Code (Bool × HttpRequest) :=
  match cut 32 line with
  | none => return (false, r)
  | some (m, rest) => do
    let (valid, r) ← r.setMethod m
    if valid then
      match cut 32 rest with
      | none => return (false, r)
      | some (target, version) => return (r.setTarget target).setVersionText version
    else
      return (false, r)

end HttpRequest

inductive HttpRequestParseState where
  | kExpectRequestLine | kExpectHeaders | kExpectBody | kGotAll
  deriving DecidableEq

structure HttpContext where
  state : HttpRequestParseState
  request : HttpRequest
  deriving DecidableEq

namespace HttpContext

def new : HttpContext := ⟨.kExpectRequestLine, .new⟩

def gotAll (c : HttpContext) : Bool := c.state = .kGotAll

def reset (c : HttpContext) : HttpContext := ⟨.kExpectRequestLine, c.request.swapNew⟩

/-- The variables of the loop of `parseRequest`. -/
structure Parse where
  context : HttpContext
  buf : List UInt8
  ok : Bool
  deriving DecidableEq

def parseRequestLine (receiveTime : ℤ) (p : Parse) : Code (Round Parse) :=
  match findCRLF p.buf with
  | none => return .stop p
  | some crlf => do
    let (ok, request) ← p.context.request.processRequestLine (p.buf.take crlf)
    if ok then
      return .again {
        context := ⟨.kExpectHeaders, { request with receiveTime := receiveTime }⟩
        buf := p.buf.drop (crlf + 2)
        ok := true }
    else
      return .stop { p with context := { p.context with request := request }, ok := false }

def parseHeader (p : Parse) : Round Parse :=
  match findCRLF p.buf with
  | none => .stop p
  | some crlf =>
    let context :=
      match cut 58 (p.buf.take crlf) with
      | some (field, rest) =>
        { p.context with request := p.context.request.addHeader field rest }
      | none => { p.context with state := .kExpectBody }
    .again { p with context := context, buf := p.buf.drop (crlf + 2) }

/-- The body is what is in the buffer, where it stays. -/
def parseBody (p : Parse) : Parse :=
  let request := p.context.request
  { p with
    context := ⟨.kGotAll, if p.buf = [] then request else { request with body := p.buf }⟩ }

def parseRound (receiveTime : ℤ) (p : Parse) : Code (Round Parse) :=
  match p.context.state with
  | .kExpectRequestLine => parseRequestLine receiveTime p
  | .kExpectHeaders => return parseHeader p
  | .kExpectBody => return .stop (parseBody p)
  -- The loop has no branch for this state, and does not end.
  | .kGotAll => .error (.failed .outOfFuel)

def parseRequest (c : HttpContext) (buf : List UInt8) (receiveTime : ℤ) : Code Parse :=
  loop .outOfFuel (parseRound receiveTime) (fun p => p.buf.length) ⟨c, buf, true⟩

end HttpContext

/-! ### The server -/

namespace HttpServer

/-- What the server does with the connection, and the calls of the user's callback. -/
inductive Action where
  | callback (req : HttpRequest)
  | send (data : List UInt8)
  | shutdown
  deriving DecidableEq

/-- A connection: its context, its input buffer and what has happened to it. -/
structure Conn where
  context : HttpContext
  input : List UInt8
  log : List Action
  deriving DecidableEq

def onConnection : Conn := ⟨.new, [], []⟩

def defaultHttpCallback (_ : HttpRequest) (resp : HttpResponse) : HttpResponse :=
  { resp with
    statusCode := .k404NotFound, statusMessage := ascii "Not Found", closeConnection := true }

variable (httpCallback : HttpRequest → HttpResponse → HttpResponse)

def onRequest (req : HttpRequest) : List Action :=
  let connection := req.getHeader (ascii "Connection")
  let close := connection = ascii "close" ||
    (req.version = .kHttp10 && connection ≠ ascii "Keep-Alive")
  let response := httpCallback req (.new close)
  [.callback req, .send response.serialize] ++ if response.closeConnection then [.shutdown] else []

def badRequest : List Action := [.send (ascii "HTTP/1.1 400 Bad Request\r\n\r\n"), .shutdown]

def onMessage (conn : Conn) (receiveTime : ℤ) : Code Conn := do
  let p ← conn.context.parseRequest conn.input receiveTime
  let log := if p.ok then conn.log else conn.log ++ badRequest
  if p.context.gotAll then
    return ⟨p.context.reset, p.buf, log ++ onRequest httpCallback p.context.request⟩
  else
    return ⟨p.context, p.buf, log⟩

/-- A chunk arrives at a time. -/
def receive (conn : Conn) (chunk : List UInt8 × ℤ) : Code Conn :=
  onMessage httpCallback { conn with input := conn.input ++ chunk.1 } chunk.2

end HttpServer
end Muduo

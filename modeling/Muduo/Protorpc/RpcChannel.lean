import Muduo.Base.Code

/-!
# RpcChannel

`RpcChannel` of `protorpc/RpcChannel.{h,cc}` and the messages of `protorpc/rpc.proto`. The code runs
in several threads: `CallMethod` is cut where another thread can come in between, that is behind
`incrementAndGet` and behind the critical section.

A field of a message that is only read through its getter holds the default value when it is not
set.
-/

namespace Muduo

open Machine

inductive MessageType where
  | REQUEST
  | RESPONSE
  | ERROR
  deriving DecidableEq, Repr

inductive ErrorCode where
  | NO_ERROR
  | WRONG_PROTO
  | NO_SERVICE
  | NO_METHOD
  | INVALID_REQUEST
  | INVALID_RESPONSE
  | TIMEOUT
  deriving DecidableEq, Repr

structure RpcMessage where
  type : MessageType
  id : BitVec 64
  service : String := ""
  method : String := ""
  request : List UInt8 := []
  response : Option (List UInt8) := none
  error : Option ErrorCode := none
  deriving DecidableEq, Repr

/-- A method, by the full name of its service and its own name. -/
structure MethodDescriptor where
  service : String
  name : String
  deriving DecidableEq, Repr

/-- What the channel asks of the message library. Both ends are built from the same definitions, so
that a method has the same types of request and response on both sides. `isResponse method m` says
that `m` is a complete message of the method's response type. -/
structure Schema (M : Type) where
  serializeAsString : M → List UInt8
  parseRequest : MethodDescriptor → List UInt8 → Option M
  parseResponse : MethodDescriptor → List UInt8 → Option M
  isResponse : MethodDescriptor → M → Bool

/-- The library parses what it serialises. -/
def Schema.Lawful {M : Type} (schema : Schema M) : Prop :=
  ∀ method m, schema.isResponse method m = true →
    schema.parseResponse method (schema.serializeAsString m) = some m

/-- A service, by its descriptor. -/
structure Service where
  fullName : String
  methods : List String

def Service.findMethodByName (service : Service) (name : String) : Option MethodDescriptor :=
  if name ∈ service.methods then some ⟨service.fullName, name⟩ else none

/-- `services_`, which is null on a channel that only calls. `registerService` of `RpcServer` enters
a service under its full name. -/
abbrev Services := Option (List Service)

/-- The pointers to the response and to the closure of a call are not null, so a call stands in
`outstandings` by its number. -/
structure RpcChannel where
  id : BitVec 64
  outstandings : BitVec 64 → Option ℕ
  services : Services

/-- What `onRpcMessage` leaves to be done: the part of the branch for a response that is outside the
critical section, the call of a service with a closure for `doneCallback`, or the sending of a
message. -/
inductive Action (M : Type) where
  | finish (call : ℕ) (message : RpcMessage)
  | callMethod (method : MethodDescriptor) (request : M) (id : BitVec 64)
  | send (message : RpcMessage)
  deriving DecidableEq, Repr

namespace RpcChannel

variable {M : Type}

/-! ### CallMethod -/

def incrementAndGet (c : RpcChannel) : BitVec 64 × RpcChannel :=
  (c.id + 1, { c with id := c.id + 1 })

/-- `outstandings_[id] = out`. -/
def insert (c : RpcChannel) (id : BitVec 64) (out : ℕ) : RpcChannel :=
  { c with outstandings := Function.update c.outstandings id (some out) }

def requestMessage (id : BitVec 64) (method : MethodDescriptor) (request : List UInt8) :
    RpcMessage where
  type := .REQUEST
  id := id
  service := method.service
  method := method.name
  request := request

/-! ### onRpcMessage -/

def errorMessage (id : BitVec 64) (error : ErrorCode) : RpcMessage where
  type := .RESPONSE
  id := id
  error := some error

/-- The message of `doneCallback`. -/
def responseMessage (id : BitVec 64) (response : List UInt8) : RpcMessage where
  type := .RESPONSE
  id := id
  response := some response

def onResponse (c : RpcChannel) (message : RpcMessage) :
    Code (RpcChannel × Option (Action M)) := do
  check .rpcResponse (message.response.isSome = true ∨ message.error.isSome = true)
  match c.outstandings message.id with
  | some out =>
    return ({ c with outstandings := Function.update c.outstandings message.id none },
      some (.finish out message))
  | none => return (c, none)

/-- The method and the request that a message names, or the error it is answered with. -/
def findCall (schema : Schema M) (services : Services) (message : RpcMessage) :
    Except ErrorCode (MethodDescriptor × M) :=
  match services with
  | some services =>
    match services.find? (·.fullName = message.service) with
    | some service =>
      match service.findMethodByName message.method with
      | some method =>
        match schema.parseRequest method message.request with
        | some request => .ok (method, request)
        | none => .error .INVALID_REQUEST
      | none => .error .NO_METHOD
    | none => .error .NO_SERVICE
  | none => .error .NO_SERVICE

def onRequest (schema : Schema M) (c : RpcChannel) (message : RpcMessage) : Action M :=
  match findCall schema c.services message with
  | .ok (method, request) => .callMethod method request message.id
  | .error error => .send (errorMessage message.id error)

def onRpcMessage (schema : Schema M) (c : RpcChannel) (message : RpcMessage) :
    Code (RpcChannel × Option (Action M)) :=
  match message.type with
  | .RESPONSE => c.onResponse message
  | .REQUEST => return (c, some (c.onRequest schema message))
  | .ERROR => return (c, none)

/-- What is in the response object when the closure of the call runs: nothing that was parsed, or
what came of parsing the response in the message. -/
def finish (schema : Schema M) (method : MethodDescriptor) (message : RpcMessage) :
    Option (Option M) :=
  message.response.map (schema.parseResponse method)

end RpcChannel

end Muduo

import Muduo.Machine.Log
import Muduo.Machine.Run
import Muduo.Protorpc.RpcChannel

/-!
# Calls over a connection

The channel of a client and the channel of a server, joined by a stream of messages in each
direction. Any number of threads are in `CallMethod`, the services of the server run the closures
they are given when they like, and the peer of the client may put messages of its own on the stream.
-/

namespace Muduo

open Machine
open RpcChannel (requestMessage responseMessage errorMessage findCall finish)

variable {M : Type}

/-- How far a thread has come in `CallMethod`. -/
inductive Position where
  | drawn
  | registered
  | sent
  deriving DecidableEq, Repr

/-- An invocation of `CallMethod`. -/
structure Call (M : Type) where
  id : BitVec 64
  method : MethodDescriptor
  request : M
  deriving DecidableEq, Repr

/-- What is recorded of a run. -/
inductive RpcEntry (M : Type) where
  /-- The call is in `outstandings_`. -/
  | issued (call : ℕ)
  /-- The client has processed a response. -/
  | response (id : BitVec 64)
  /-- The closure of a call has run, with this in the response object. -/
  | ran (call : ℕ) (response : Option (Option M))
  /-- The server has processed a request. -/
  | served (message : RpcMessage)
  /-- A service has run the closure for a request. -/
  | produced (call : Call M) (response : M)
  deriving DecidableEq, Repr

/-- `serving` holds the calls of services whose closure has not run, `completing` the call whose
closure the client is about to run, and `sent` what the server has sent. -/
structure RpcSystem (M : Type) where
  client : RpcChannel
  server : RpcChannel
  calls : List (Call M)
  position : ℕ → Position
  requests : List RpcMessage
  responses : List RpcMessage
  serving : List (Call M)
  completing : Option (ℕ × RpcMessage)
  sent : List RpcMessage
  log : List (RpcEntry M)

inductive RpcEvent (M : Type) where
  | draw (method : MethodDescriptor) (request : M)
  | register (call : ℕ)
  | send (call : ℕ)
  | serve
  | done (index : ℕ) (response : M)
  | take
  | complete
  | inject (message : RpcMessage)

namespace RpcSystem

def init (services : Services) : RpcSystem M where
  client := ⟨0, fun _ => none, none⟩
  server := ⟨0, fun _ => none, services⟩
  calls := []
  position := fun _ => .drawn
  requests := []
  responses := []
  serving := []
  completing := none
  sent := []
  log := []

/-- The message that a call sends. -/
def request (schema : Schema M) (call : Call M) : RpcMessage :=
  requestMessage call.id call.method (schema.serializeAsString call.request)

/-- The message that `doneCallback` sends. -/
def answer (schema : Schema M) (call : Call M) (response : M) : RpcMessage :=
  responseMessage call.id (schema.serializeAsString response)

def note (s : RpcSystem M) (e : RpcEntry M) : RpcSystem M := { s with log := s.log ++ [e] }

def reply (s : RpcSystem M) (message : RpcMessage) : RpcSystem M :=
  { s with responses := s.responses ++ [message], sent := s.sent ++ [message] }

/-- What the server does outside `onRpcMessage`. It has no calls of its own to finish. -/
def serverActs (s : RpcSystem M) : Option (Action M) → RpcSystem M
  | some (.callMethod method request id) =>
    { s with serving := s.serving ++ [⟨id, method, request⟩] }
  | some (.send message) => s.reply message
  | some (.finish _ _) | none => s

/-- What the client does outside `onRpcMessage`. It has no services. -/
def clientActs (s : RpcSystem M) : Option (Action M) → RpcSystem M
  | some (.finish call message) => { s with completing := some (call, message) }
  | some (.send message) => { s with requests := s.requests ++ [message] }
  | some (.callMethod _ _ _) | none => s

/-- A thread enters `CallMethod` and draws an id. -/
def draw (s : RpcSystem M) (method : MethodDescriptor) (request : M) : RpcSystem M :=
  { s with
    client := s.client.incrementAndGet.2
    calls := s.calls ++ [⟨s.client.incrementAndGet.1, method, request⟩] }

/-- The call is put into `outstandings_`. -/
def issue (s : RpcSystem M) (k : ℕ) (call : Call M) : RpcSystem M :=
  { s with
    client := s.client.insert call.id k
    position := Function.update s.position k .registered
    log := s.log ++ [.issued k] }

/-- The critical section of `CallMethod`. -/
def register (s : RpcSystem M) (k : ℕ) : Code (RpcSystem M) :=
  match s.calls[k]? with
  | some call => do
    require (s.position k = .drawn)
    return s.issue k call
  | none => .error .disabled

/-- The end of `CallMethod`. -/
def send (schema : Schema M) (s : RpcSystem M) (k : ℕ) : Code (RpcSystem M) :=
  match s.calls[k]? with
  | some call => do
    require (s.position k = .registered)
    return { s with
      position := Function.update s.position k .sent
      requests := s.requests ++ [request schema call] }
  | none => .error .disabled

/-- A request arrives. -/
def serve (schema : Schema M) (s : RpcSystem M) : Code (RpcSystem M) :=
  match s.requests with
  | message :: requests => do
    let p ← s.server.onRpcMessage schema message
    return ({ s with server := p.1, requests }.note (.served message)).serverActs p.2
  | [] => .error .disabled

/-- A service fills in the response and runs the closure, which calls `doneCallback`. -/
def done (schema : Schema M) (s : RpcSystem M) (j : ℕ) (response : M) : Code (RpcSystem M) :=
  match s.serving[j]? with
  | some call => do
    require (schema.isResponse call.method response = true)
    return ({ s with serving := s.serving.eraseIdx j }.note (.produced call response)).reply
      (answer schema call response)
  | none => .error .disabled

/-- A response arrives, and is looked up. -/
def take (schema : Schema M) (s : RpcSystem M) : Code (RpcSystem M) :=
  match s.responses with
  | message :: responses => do
    require (s.completing = none)
    let p ← s.client.onRpcMessage schema message
    return ({ s with client := p.1, responses }.note (.response message.id)).clientActs p.2
  | [] => .error .disabled

/-- The response of the call that was found is parsed, and its closure runs. -/
def complete (schema : Schema M) (s : RpcSystem M) : Code (RpcSystem M) :=
  match s.completing with
  | some (k, message) =>
    match s.calls[k]? with
    | some call =>
      return { s with completing := none }.note (.ran k (finish schema call.method message))
    | none => .error .disabled
  | none => .error .disabled

/-- The peer puts a response on the stream that is not the server's. -/
def inject (s : RpcSystem M) (message : RpcMessage) : Code (RpcSystem M) := do
  require (message.type = .RESPONSE ∧
    (message.response.isSome = true ∨ message.error.isSome = true))
  return { s with responses := s.responses ++ [message] }

def step (schema : Schema M) (s : RpcSystem M) : RpcEvent M → Code (RpcSystem M)
  | .draw method request => .ok (s.draw method request)
  | .register k => s.register k
  | .send k => s.send schema k
  | .serve => s.serve schema
  | .done j response => s.done schema j response
  | .take => s.take schema
  | .complete => s.complete schema
  | .inject message => s.inject message

/-! ### What a step does -/

variable {schema : Schema M} {services : Services} {s s' : RpcSystem M} {e : RpcEvent M}

/-- The two channels keep their roles, and each stream holds what the other end makes of it. -/
structure Wf (services : Services) (s : RpcSystem M) : Prop where
  client : s.client.services = none
  server : s.server = ⟨0, fun _ => none, services⟩
  requests : ∀ m ∈ s.requests, m.type = .REQUEST
  responses : ∀ m ∈ s.responses,
    m.type = .RESPONSE ∧ (m.response.isSome = true ∨ m.error.isSome = true)

lemma init_wf : (init services : RpcSystem M).Wf services := ⟨rfl, rfl, nofun, nofun⟩

/-- The steps of the system. -/
inductive Stepped (schema : Schema M) (services : Services) (s : RpcSystem M) :
    RpcEvent M → RpcSystem M → Prop where
  | draw (method : MethodDescriptor) (request : M) :
    Stepped schema services s (.draw method request) (s.draw method request)
  | register {k : ℕ} {call : Call M} (hcall : s.calls[k]? = some call)
      (hposition : s.position k = .drawn) :
    Stepped schema services s (.register k) (s.issue k call)
  | send {k : ℕ} {call : Call M} (hcall : s.calls[k]? = some call)
      (hposition : s.position k = .registered) :
    Stepped schema services s (.send k) { s with
      position := Function.update s.position k .sent
      requests := s.requests ++ [request schema call] }
  | refuse {message : RpcMessage} {requests : List RpcMessage} {error : ErrorCode}
      (hrequests : s.requests = message :: requests)
      (hfind : findCall schema services message = .error error) :
    Stepped schema services s .serve
      (({ s with requests }.note (.served message)).reply (errorMessage message.id error))
  | invoke {message : RpcMessage} {requests : List RpcMessage} {method : MethodDescriptor}
      {request : M} (hrequests : s.requests = message :: requests)
      (hfind : findCall schema services message = .ok (method, request)) :
    Stepped schema services s .serve ({ s with
      requests
      serving := s.serving ++ [Call.mk message.id method request] }.note (.served message))
  | done {j : ℕ} {call : Call M} {response : M} (hcall : s.serving[j]? = some call)
      (hresponse : schema.isResponse call.method response = true) :
    Stepped schema services s (.done j response)
      (({ s with serving := s.serving.eraseIdx j }.note (.produced call response)).reply
        (answer schema call response))
  | ignore {message : RpcMessage} {responses : List RpcMessage}
      (hresponses : s.responses = message :: responses)
      (hunknown : s.client.outstandings message.id = none) :
    Stepped schema services s .take ({ s with responses }.note (.response message.id))
  | take {message : RpcMessage} {responses : List RpcMessage} {k : ℕ}
      (hresponses : s.responses = message :: responses) (hidle : s.completing = none)
      (hknown : s.client.outstandings message.id = some k) :
    Stepped schema services s .take ({ s with
      client := { s.client with
        outstandings := Function.update s.client.outstandings message.id none }
      responses
      completing := some (k, message) }.note (.response message.id))
  | complete {k : ℕ} {message : RpcMessage} {call : Call M}
      (hcompleting : s.completing = some (k, message)) (hcall : s.calls[k]? = some call) :
    Stepped schema services s .complete
      ({ s with completing := none }.note (.ran k (finish schema call.method message)))
  | inject (message : RpcMessage) :
    Stepped schema services s (.inject message)
      { s with responses := s.responses ++ [message] }

lemma onRpcMessage_request {c : RpcChannel} {message : RpcMessage} (h : message.type = .REQUEST) :
    c.onRpcMessage schema message = .ok (c, some (c.onRequest schema message)) := by
  rw [RpcChannel.onRpcMessage, h]
  rfl

lemma onRpcMessage_response {c : RpcChannel} {message : RpcMessage} (h : message.type = .RESPONSE)
    (hcontent : message.response.isSome = true ∨ message.error.isSome = true) :
    c.onRpcMessage schema message = match c.outstandings message.id with
      | some out => .ok ({ c with outstandings := Function.update c.outstandings message.id none },
          some (.finish out message))
      | none => .ok (c, none) := by
  rw [RpcChannel.onRpcMessage, h]
  dsimp only
  rw [RpcChannel.onResponse, check_of hcontent, ok_bind]
  cases c.outstandings message.id <;> rfl

lemma Wf.reply (h : s.Wf services) {message : RpcMessage} (htype : message.type = .RESPONSE)
    (hcontent : message.response.isSome = true ∨ message.error.isSome = true) :
    (s.reply message).Wf services := by
  refine ⟨h.client, h.server, h.requests, fun m hm => ?_⟩
  rcases List.mem_append.mp hm with hm | hm
  · exact h.responses m hm
  · rw [List.mem_singleton.mp hm]
    exact ⟨htype, hcontent⟩

lemma serve_spec (h : s.Wf services) : Safe (s.serve schema) fun s' =>
    s'.Wf services ∧ Stepped schema services s .serve s' := by
  unfold serve
  split
  · next message requests hrequests =>
    have htypes := h.requests
    rw [hrequests] at htypes
    have hservices : s.server.services = services := by rw [h.server]
    rw [onRpcMessage_request (htypes message (List.mem_cons_self ..)), ok_bind,
      RpcChannel.onRequest, hservices]
    have hrest : ∀ m ∈ requests, m.type = .REQUEST :=
      fun m hm => htypes m (List.mem_cons_of_mem _ hm)
    match hfind : findCall schema services message with
    | .error error =>
      have hwf : ({ s with requests }.note (.served message)).Wf services :=
        ⟨h.client, h.server, hrest, h.responses⟩
      exact ⟨hwf.reply rfl (.inr rfl), .refuse hrequests hfind⟩
    | .ok (method, request) =>
      exact ⟨⟨h.client, h.server, hrest, h.responses⟩, .invoke hrequests hfind⟩
  · trivial

lemma take_spec (h : s.Wf services) : Safe (s.take schema) fun s' =>
    s'.Wf services ∧ Stepped schema services s .take s' := by
  unfold take
  split
  · next message responses hresponses =>
    rw [safe_bind, safe_require]
    intro hidle
    have htypes := h.responses
    rw [hresponses] at htypes
    obtain ⟨htype, hcontent⟩ := htypes message (List.mem_cons_self ..)
    have hrest : ∀ m ∈ responses, m.type = .RESPONSE ∧
        (m.response.isSome = true ∨ m.error.isSome = true) :=
      fun m hm => htypes m (List.mem_cons_of_mem _ hm)
    rw [onRpcMessage_response htype hcontent]
    match hfind : s.client.outstandings message.id with
    | none => exact ⟨⟨h.client, h.server, h.requests, hrest⟩, .ignore hresponses hfind⟩
    | some k => exact ⟨⟨h.client, h.server, h.requests, hrest⟩, .take hresponses hidle hfind⟩
  · trivial

/-- Each step is one of these, and no assertion fails. -/
theorem step_spec (h : s.Wf services) :
    Safe (step schema s e) fun s' => s'.Wf services ∧ Stepped schema services s e s' := by
  cases e with
  | draw method request => exact ⟨⟨h.client, h.server, h.requests, h.responses⟩, .draw _ _⟩
  | register k =>
    change Safe (s.register k) _
    unfold register
    split
    · next call hcall =>
      rw [safe_bind, safe_require]
      intro hposition
      exact ⟨⟨h.client, h.server, h.requests, h.responses⟩, .register hcall hposition⟩
    · trivial
  | send k =>
    change Safe (s.send schema k) _
    unfold send
    split
    · next call hcall =>
      rw [safe_bind, safe_require]
      intro hposition
      refine ⟨⟨h.client, h.server, fun m hm => ?_, h.responses⟩, .send hcall hposition⟩
      rcases List.mem_append.mp hm with hm | hm
      · exact h.requests m hm
      · rw [List.mem_singleton.mp hm]
        rfl
    · trivial
  | serve => exact serve_spec h
  | done j response =>
    change Safe (s.done schema j response) _
    unfold done
    split
    · next call hcall =>
      rw [safe_bind, safe_require]
      intro hresponse
      have hwf : ({ s with serving := s.serving.eraseIdx j }.note
          (.produced call response)).Wf services := ⟨h.client, h.server, h.requests, h.responses⟩
      exact ⟨hwf.reply rfl (.inl rfl), .done hcall hresponse⟩
    · trivial
  | take => exact take_spec h
  | complete =>
    change Safe (s.complete schema) _
    unfold complete
    split
    · next k message hcompleting =>
      split
      · next call hcall =>
        exact ⟨⟨h.client, h.server, h.requests, h.responses⟩, .complete hcompleting hcall⟩
      · trivial
    · trivial
  | inject message =>
    change Safe (s.inject message) _
    unfold inject
    rw [safe_bind, safe_require]
    intro hmessage
    refine ⟨⟨h.client, h.server, h.requests, fun m hm => ?_⟩, .inject message⟩
    rcases List.mem_append.mp hm with hm | hm
    · exact h.responses m hm
    · rw [List.mem_singleton.mp hm]
      exact hmessage

end RpcSystem

end Muduo

import Muduo.Http.Grammar

/-!
# The context of a connection

A connection keeps one context for all its requests. `reset` should leave nothing of a request in
it, and no bytes that arrive should make the parser fail. The body is left behind, and a request
line that is rejected after its method leaves the method set, so that the next call of the parser
fails an assertion.

## Main results

* `HttpContext.reset_new_iff`: a context is as good as new when no request has had a body.
* `HttpServer.total_iff`: the server survives all chunks when none but the last one completes a line
  that begins with a method and is not a request line.
-/

namespace Muduo

open Machine

namespace HttpContext

/-! ### What is left of earlier requests -/

/-- A call of `parseRequest` on some buffer. -/
def parse (c : HttpContext) (call : List UInt8 × ℤ) : Code HttpContext :=
  Parse.context <$> c.parseRequest call.1 call.2

/-- A context, and the requests that have been taken out of it. -/
structure Served where
  context : HttpContext
  requests : List HttpRequest
  deriving DecidableEq

namespace Served

def new : Served := ⟨.new, []⟩

/-- Some calls that end with `gotAll`. The request is used, and the context is reset. -/
def serve (s : Served) (calls : List (List UInt8 × ℤ)) : Code Served := do
  let c ← run parse s.context calls
  require (c.gotAll = true)
  return ⟨c.reset, s.requests ++ [c.request]⟩

/-- The body of the last request. -/
def lastBody (s : Served) : List UInt8 :=
  match s.requests.getLast? with
  | none => []
  | some r => r.body

end Served

variable {c c' : HttpContext} {s s' : Served}

lemma run_parse_body (hc : c.request.body ≠ []) {calls : List (List UInt8 × ℤ)}
    (h : run parse c calls = .ok c') : c'.request.body ≠ [] := by
  refine run_reaches (I := fun c => c.request.body ≠ []) (fun c call c₁ hc h₁ => ?_) hc h
  obtain ⟨p, hparse, rfl⟩ := map_eq_ok.mp h₁
  exact HttpServer.parseRequest_body hc hparse

/-- A context between two requests holds the last body. -/
structure Served.Between (s : Served) : Prop where
  context : s.context = ⟨.kExpectRequestLine, { HttpRequest.new with body := s.lastBody }⟩
  bodies : s.lastBody = [] → ∀ r ∈ s.requests, r.body = []

lemma Served.Between.serve (hs : s.Between) {calls : List (List UInt8 × ℤ)}
    (h : s.serve calls = .ok s') : s'.Between := by
  obtain ⟨c, hrun, h⟩ := bind_eq_ok.mp h
  obtain ⟨-, h⟩ := require_bind_eq_ok.mp h
  cases h
  have hlast : lastBody ⟨c.reset, s.requests ++ [c.request]⟩ = c.request.body := by
    simp [lastBody]
  constructor
  · rw [hlast]
    rfl
  · rw [hlast]
    intro hbody r hr
    -- A body of an earlier request would still be there.
    have hs' : s.lastBody = [] := by
      by_contra hne
      refine run_parse_body ?_ hrun hbody
      rw [hs.context]
      exact hne
    rcases List.mem_append.mp hr with hr | hr
    · exact hs.bodies hs' r hr
    · rw [List.mem_singleton.mp hr]
      exact hbody

lemma Served.between_run {requests : List (List (List UInt8 × ℤ))}
    (h : run Served.serve .new requests = .ok s) : s.Between :=
  run_reaches (fun _ _ _ hs hserve => hs.serve hserve) ⟨rfl, by simp [Served.new]⟩ h

lemma Served.Between.lastBody_eq_nil (hs : s.Between) :
    s.lastBody = [] ↔ ∀ r ∈ s.requests, r.body = [] := by
  refine ⟨hs.bodies, fun hbodies => ?_⟩
  unfold lastBody
  split
  · rfl
  · next r hr => exact hbodies r (List.mem_of_getLast? hr)

/-- A request without a body gets the body that is in the context. -/
lemma parse_getRoot (body : List UInt8) :
    run parse ⟨.kExpectRequestLine, { HttpRequest.new with body := body }⟩
        [(HttpServer.getRoot.bytes, 0)] =
      .ok ⟨.kGotAll, { HttpServer.getRoot.parsed with body := body }⟩ := by
  have hget := HttpServer.wellFormed_getRoot
  have hparse : parseRequest ⟨.kExpectRequestLine, { HttpRequest.new with body := body }⟩
      HttpServer.getRoot.bytes 0 =
        .ok ⟨⟨.kGotAll, { HttpServer.getRoot.parsed with body := body }⟩, [], true⟩ := by
    rw [HttpServer.Request.bytes, parseRequest_line hget.line,
      HttpServer.processRequestLine_eq hget body, ok_bind, if_pos rfl]
    exact parseRequest_end rfl List.not_mem_nil _ [] 0
  rw [run_cons, parse, hparse]
  rfl

/-- After `reset` the context is a new one if and only if no request has had a body, and two
contexts go on in the same way if and only if the last body was the same. -/
theorem reset_new_iff {requests requests' : List (List (List UInt8 × ℤ))}
    (h : run Served.serve .new requests = .ok s) (h' : run Served.serve .new requests' = .ok s') :
    (s.context = .new ↔ ∀ r ∈ s.requests, r.body = []) ∧
      ((∀ calls, run parse s.context calls = run parse s'.context calls) ↔
        s.lastBody = s'.lastBody) := by
  have hs := Served.between_run h
  have hs' := Served.between_run h'
  refine ⟨?_, fun hsame => ?_, fun hbody calls => ?_⟩
  · rw [← hs.lastBody_eq_nil, hs.context]
    constructor
    · intro hnew
      exact congrArg (fun c => c.request.body) hnew
    · intro hbody
      rw [hbody]
      rfl
  · have hget := hsame [(HttpServer.getRoot.bytes, 0)]
    rw [hs.context, hs'.context, parse_getRoot, parse_getRoot] at hget
    exact congrArg (fun c => c.request.body) (Except.ok.inj hget)
  · rw [hs.context, hs'.context, hbody]

theorem reset_new_getRoot :
    Yields (run Served.serve .new [[(HttpServer.getRoot.bytes, 0)]]) fun s => s.context = .new := by
  have hrun : run Served.serve .new [[(HttpServer.getRoot.bytes, 0)]] =
      .ok ⟨.new, [HttpServer.getRoot.parsed]⟩ := by
    have hget : run parse .new _ = _ := parse_getRoot []
    rw [run_cons, Served.serve, Served.new, hget]
    rfl
  have hbody : ∀ r ∈ [HttpServer.getRoot.parsed], r.body = [] := by
    intro r hr
    rw [List.mem_singleton.mp hr]
    rfl
  exact ⟨_, hrun, (reset_new_iff hrun hrun).1.mpr hbody⟩

/-- What a client posts is in a request that comes later. -/
theorem reset_keeps_body :
    Yields (run Served.serve .new [[(ascii "POST / HTTP/1.1\r\n\r\nuser=a", 0)]]) fun s =>
      s.context ≠ .new ∧
      Yields (run parse s.context [(ascii "GET / HTTP/1.1\r\n\r\n", 0)]) fun c =>
        c.gotAll = true ∧ c.request.body = ascii "user=a" ∧
        Yields (run parse .new [(ascii "GET / HTTP/1.1\r\n\r\n", 0)]) fun c' =>
          c'.gotAll = true ∧ c'.request.body = [] := by
  decide +kernel

end HttpContext

/-! ### Lines that are rejected -/

namespace HttpServer

open HttpContext

/-- In front of the input is a line that begins with a method and is not a request line. -/
def Breaks (conn : Conn) (chunk : List UInt8 × ℤ) : Prop :=
  conn.context.state = .kExpectRequestLine ∧ ∃ line rest, findCRLF line = none ∧
    conn.input ++ chunk.1 = line ++ 13 :: 10 :: rest ∧
    (∃ m tail, m ≠ .kInvalid ∧ line = HttpRequest.methodString m ++ 32 :: tail) ∧
    ∀ h : Head, h.Valid → line ≠ h.requestLine

/-- A connection that waits for a request line, with no method set, or for headers. -/
def Ready (conn : Conn) : Prop :=
  conn.context.state = .kExpectRequestLine ∧ conn.context.request.method = .kInvalid ∨
    conn.context.state = .kExpectHeaders

/-- A connection whose next call fails: the line is still in the buffer, and its method is set. -/
def Stuck (conn : Conn) : Prop :=
  conn.context.state = .kExpectRequestLine ∧ conn.context.request.method ≠ .kInvalid ∧
    ∃ line rest, findCRLF line = none ∧ 32 ∈ line ∧ conn.input = line ++ 13 :: 10 :: rest

variable (httpCallback : HttpRequest → HttpResponse → HttpResponse)
variable {conn : Conn} {chunk : List UInt8 × ℤ} {chunks : List (List UInt8 × ℤ)}

lemma Ready.gotAll (h : Ready conn) : conn.context.gotAll = false := by
  rcases h with ⟨h, -⟩ | h
  · simp [HttpContext.gotAll, h]
  · simp [HttpContext.gotAll, h]

lemma not_receive_of_stuck (h : Stuck conn) (chunk : List UInt8 × ℤ) :
    ¬ Yields (receive httpCallback conn chunk) fun _ => True := by
  obtain ⟨⟨state, req⟩, input, log⟩ := conn
  obtain ⟨hstate, hmethod, line, rest, hline, hspace, hinput⟩ := h
  dsimp only at hstate hmethod hinput
  rw [hstate, hinput]
  rintro ⟨conn', hreceive, -⟩
  obtain ⟨p, hparse, -⟩ := bind_eq_ok.mp hreceive
  dsimp only at hparse
  rw [List.append_assoc, List.cons_append, List.cons_append, parseRequest_line hline] at hparse
  obtain ⟨q, hq, -⟩ := bind_eq_ok.mp hparse
  rw [HttpRequest.processRequestLine] at hq
  split at hq
  · next hcut =>
    rw [cut, if_pos hspace] at hcut
    cases hcut
  · obtain ⟨_, hset, -⟩ := bind_eq_ok.mp hq
    obtain ⟨_, hcheck, -⟩ := bind_eq_ok.mp hset
    exact hmethod (check_eq_ok.mp hcheck)

/-- What becomes of the connection when the parser has returned. -/
lemma receive_of_parse {p : Parse} {Q : Conn → Prop}
    (h : conn.context.parseRequest (conn.input ++ chunk.1) chunk.2 = .ok p)
    (hgot : p.context.state = .kGotAll → ∀ log, Q ⟨p.context.reset, p.buf, log⟩)
    (hmore : p.context.state ≠ .kGotAll → ∀ log, Q ⟨p.context, p.buf, log⟩) :
    Yields (receive httpCallback conn chunk) Q := by
  rw [receive, onMessage]
  dsimp only
  rw [h, ok_bind]
  by_cases hstate : p.context.state = .kGotAll
  · rw [if_pos (by simp [HttpContext.gotAll, hstate])]
    exact ⟨_, rfl, hgot hstate _⟩
  · rw [if_neg (by simp [HttpContext.gotAll, hstate])]
    exact ⟨_, rfl, hmore hstate _⟩

lemma ready_reset (c : HttpContext) (buf : List UInt8) (log : List Action) :
    Ready ⟨c.reset, buf, log⟩ := .inl ⟨rfl, rfl⟩

/-- Behind the request line nothing is rejected. -/
lemma receive_of_headers {req : HttpRequest} {buf : List UInt8}
    (h : conn.context.parseRequest (conn.input ++ chunk.1) chunk.2 =
      parseRequest ⟨.kExpectHeaders, req⟩ buf chunk.2) :
    Yields (receive httpCallback conn chunk) Ready := by
  obtain ⟨p, hp, -, hstate⟩ := parseHeaders_yields req buf chunk.2
  refine receive_of_parse httpCallback (h.trans hp) (fun _ log => ready_reset ..) ?_
  intro hmore log
  exact .inr (hstate.resolve_right hmore)

/-- A chunk on a connection that is ready. -/
lemma receive_ready (h : Ready conn) (chunk : List UInt8 × ℤ) :
    Yields (receive httpCallback conn chunk) fun conn' =>
      Breaks conn chunk ∧ Stuck conn' ∨ ¬ Breaks conn chunk ∧ Ready conn' := by
  obtain ⟨⟨state, req⟩, input, log⟩ := conn
  rcases h with ⟨hstate, hmethod⟩ | hstate
  · dsimp only at hstate hmethod
    subst hstate
    cases hcrlf : findCRLF (input ++ chunk.1) with
    | none =>
      refine receive_of_parse httpCallback (parseRequest_wait (.inl rfl) hcrlf _) nofun ?_
      refine fun _ log => .inr ⟨?_, .inl ⟨rfl, hmethod⟩⟩
      rintro ⟨-, line, rest, hline, hinput, -⟩
      dsimp only at hinput
      rw [hinput, findCRLF_append_crlf hline] at hcrlf
      cases hcrlf
    | some k =>
      obtain ⟨line, rest, hinput, hline, -⟩ := exists_line hcrlf
      obtain ⟨⟨ok, req'⟩, hq, hok, hset⟩ := HttpRequest.processRequestLine_of_invalid hmethod line
      have hparse := parseRequest_line hline req rest chunk.2
      rw [← hinput, hq, ok_bind] at hparse
      have hbreaks : Breaks ⟨⟨.kExpectRequestLine, req⟩, input, log⟩ chunk ↔
          (∃ m tail, m ≠ .kInvalid ∧ line = HttpRequest.methodString m ++ 32 :: tail) ∧
            ∀ h : Head, h.Valid → line ≠ h.requestLine := by
        constructor
        · rintro ⟨-, line', rest', hline', hinput', hbreaks⟩
          obtain ⟨rfl, -⟩ := append_crlf_inj hline hline' (hinput.symm.trans hinput')
          exact hbreaks
        · intro hbreaks
          exact ⟨rfl, line, rest, hline, hinput, hbreaks⟩
      rw [hbreaks]
      cases ok with
      | true =>
        have hyields : Yields (receive httpCallback ⟨⟨.kExpectRequestLine, req⟩, input, log⟩ chunk)
          Ready := receive_of_headers httpCallback hparse
        obtain ⟨conn', hreceive, hready⟩ := hyields
        refine ⟨conn', hreceive, .inr ⟨?_, hready⟩⟩
        rintro ⟨-, hnot⟩
        obtain ⟨h, hv, heq⟩ := hok.mp rfl
        exact hnot h hv heq
      | false =>
        refine receive_of_parse httpCallback hparse nofun fun _ log => ?_
        by_cases hknown : ∃ m tail, m ≠ .kInvalid ∧ line = HttpRequest.methodString m ++ 32 :: tail
        · refine .inl ⟨⟨hknown, fun h hv heq => ?_⟩, rfl, hset.mpr hknown, line, rest, hline, ?_,
            hinput⟩
          · cases hok.mpr ⟨h, hv, heq⟩
          · obtain ⟨m, tail, -, rfl⟩ := hknown
            simp
        · refine .inr ⟨fun hbreaks => hknown hbreaks.1, .inl ⟨rfl, ?_⟩⟩
          by_contra hne
          exact hknown (hset.mp hne)
  · dsimp only at hstate
    subst hstate
    have hyields : Yields (receive httpCallback ⟨⟨.kExpectHeaders, req⟩, input, log⟩ chunk) Ready :=
      receive_of_headers httpCallback rfl
    obtain ⟨conn', hreceive, hready⟩ := hyields
    refine ⟨conn', hreceive, .inr ⟨?_, hready⟩⟩
    rintro ⟨hstate, -⟩
    cases hstate

/-- All calls of `onMessage` return, and none of them calls the parser when it has got all. -/
def Total (conn : Conn) (chunks : List (List UInt8 × ℤ)) : Prop :=
  Yields (run (receive httpCallback) conn chunks) (fun _ => True) ∧
    Along (receive httpCallback) (fun conn _ => conn.context.gotAll = false) conn chunks

lemma total_of_ready (h : Ready conn) (chunks : List (List UInt8 × ℤ)) :
    Total httpCallback conn chunks ↔
      Along (receive httpCallback) (fun conn chunk => ¬ Breaks conn chunk) conn
        chunks.dropLast := by
  induction chunks generalizing conn with
  | nil => exact ⟨fun _ => trivial, fun _ => ⟨⟨conn, rfl, trivial⟩, trivial⟩⟩
  | cons chunk chunks ih =>
    obtain ⟨conn', hreceive, hnext⟩ := receive_ready httpCallback h chunk
    have htotal : Total httpCallback conn (chunk :: chunks) ↔ Total httpCallback conn' chunks := by
      simp [Total, Along, hreceive, h.gotAll]
    rw [htotal]
    cases chunks with
    | nil => exact ⟨fun _ => trivial, fun _ => ⟨⟨conn', rfl, trivial⟩, trivial⟩⟩
    | cons next chunks =>
      rw [List.dropLast_cons_cons, Along, hreceive]
      dsimp only
      rcases hnext with ⟨hbreaks, hstuck⟩ | ⟨hbreaks, hready⟩
      · constructor
        · rintro ⟨⟨conn'', hrun, -⟩, -⟩
          obtain ⟨conn₁, h₁, -⟩ := bind_eq_ok.mp hrun
          exact absurd ⟨conn₁, h₁, trivial⟩ (not_receive_of_stuck httpCallback hstuck next)
        · rintro ⟨hnot, -⟩
          exact absurd hbreaks hnot
      · rw [ih hready]
        exact ⟨fun halong => ⟨hbreaks, halong⟩, fun halong => halong.2⟩

/-- The server survives whatever arrives, unless a chunk comes behind a line that begins with a
method and is not a request line. -/
theorem total_iff (chunks : List (List UInt8 × ℤ)) :
    Total httpCallback onConnection chunks ↔
      Along (receive httpCallback) (fun conn chunk => ¬ Breaks conn chunk) onConnection
        chunks.dropLast :=
  total_of_ready httpCallback (.inl ⟨rfl, rfl⟩) chunks

/-- The second chunk runs into the assertion of `setMethod`. -/
theorem not_total_get :
    ¬ Total defaultHttpCallback onConnection [(ascii "GET x\r\n", 0), (ascii "\r\n", 1)] ∧
    run (receive defaultHttpCallback) onConnection [(ascii "GET x\r\n", 0), (ascii "\r\n", 1)] =
      .error (.failed .setMethodTwice) := by
  have hrun : run (receive defaultHttpCallback) onConnection
      [(ascii "GET x\r\n", 0), (ascii "\r\n", 1)] = .error (.failed .setMethodTwice) := by
    decide +kernel
  refine ⟨fun htotal => ?_, hrun⟩
  obtain ⟨conn, hok, -⟩ := htotal.1
  cases hok.symm.trans hrun

end HttpServer

end Muduo

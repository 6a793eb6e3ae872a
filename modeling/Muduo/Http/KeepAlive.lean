import Muduo.Http.Parser

/-!
# Requests on one connection

A client sends its requests on one connection, each of them in a chunk of its own. The server should
call its callback once for each of them, with the request that was sent. It does so as long as the
requests have no body: the body of a request stays in the input buffer, in front of the next
request, and in the context, whose `reset` does not clear it.

## Main results

* `next_handled_iff`: the next request is answered as it should be if and only if no request before
  it had a body.
-/

namespace Muduo

open Machine

namespace HttpServer

/-! ### What is sent -/

/-- A header line: there may be white space on both sides of the value. -/
structure Header where
  field : List UInt8
  before : List UInt8
  value : List UInt8
  after : List UInt8

def Header.line (h : Header) : List UInt8 := h.field ++ 58 :: (h.before ++ (h.value ++ h.after))

structure Header.WellFormed (h : Header) : Prop where
  field : 58 ∉ h.field
  before : ∀ b ∈ h.before, isSpace b = true
  after : ∀ b ∈ h.after, isSpace b = true
  head : ∀ b ∈ h.value.head?, isSpace b = false
  getLast : ∀ b ∈ h.value.getLast?, isSpace b = false
  line : findCRLF h.line = none

/-- Every line with a colon is a header line. -/
lemma exists_header {line : List UInt8} (hcolon : 58 ∈ line) (hcrlf : findCRLF line = none) :
    ∃ h : Header, h.WellFormed ∧ h.line = line := by
  obtain ⟨field, rest, rfl, hfield⟩ := List.eq_append_cons_of_mem hcolon
  let text := rest.dropWhile isSpace
  let h : Header :=
    ⟨field, rest.takeWhile isSpace, text.rdropWhile isSpace, text.rtakeWhile isSpace⟩
  have htext : text.rdropWhile isSpace ++ text.rtakeWhile isSpace = text :=
    List.rdropWhile_append_rtakeWhile
  have hline : h.line = field ++ 58 :: rest := by
    rw [Header.line, htext, List.takeWhile_append_dropWhile]
  refine ⟨h, ⟨hfield, fun b => List.mem_takeWhile_imp, fun b => List.mem_rtakeWhile_imp, ?_, ?_,
    hline ▸ hcrlf⟩, hline⟩
  · intro b hb
    -- The value begins where the text behind the colon and the white space begins.
    have hhead : text.head? = some b := by
      obtain ⟨bs, hbs⟩ : ∃ bs, text.rdropWhile isSpace = b :: bs := List.head?_eq_some_iff.mp hb
      rw [← htext, hbs]
      rfl
    have := List.head?_dropWhile_not isSpace rest
    rwa [hhead] at this
  · intro b hb
    have hne : text.rdropWhile isSpace ≠ [] := by
      rintro hnil
      simp [h, hnil] at hb
    have hlast : (text.rdropWhile isSpace).getLast hne = b := by
      have := (List.getLast?_eq_some_getLast hne).symm.trans hb
      simpa using this
    simpa [hlast] using List.rdropWhile_last_not isSpace text hne

structure Request where
  method : HttpRequest.Method
  path : List UInt8
  /-- The query, with its question mark. -/
  query : List UInt8
  version : HttpRequest.Version
  headers : List Header
  body : List UInt8
  /-- When it arrives. -/
  time : ℤ

namespace Request

def versionText : HttpRequest.Version → List UInt8
  | .kUnknown => []
  | .kHttp10 => ascii "HTTP/1.0"
  | .kHttp11 => ascii "HTTP/1.1"

def requestLine (r : Request) : List UInt8 :=
  HttpRequest.methodString r.method ++ 32 :: ((r.path ++ r.query) ++ 32 :: versionText r.version)

def headerLines (headers : List Header) : List UInt8 :=
  headers.flatMap fun h => h.line ++ [13, 10]

def bytes (r : Request) : List UInt8 :=
  r.requestLine ++ 13 :: 10 :: (headerLines r.headers ++ 13 :: 10 :: r.body)

structure WellFormed (r : Request) : Prop where
  method : r.method ≠ .kInvalid
  version : r.version ≠ .kUnknown
  path : 63 ∉ r.path
  query : r.query = [] ∨ r.query.head? = some 63
  target : 32 ∉ r.path ++ r.query
  line : findCRLF r.requestLine = none
  headers : ∀ h ∈ r.headers, h.WellFormed

/-- The request that the callback is to get. -/
def parsed (r : Request) : HttpRequest where
  method := r.method
  version := r.version
  path := r.path
  query := r.query
  receiveTime := r.time
  headers := r.headers.foldl (fun m h => m.assign h.field h.value) .empty
  body := r.body

end Request

variable (httpCallback : HttpRequest → HttpResponse → HttpResponse)

/-- The server answers the requests in turn and does nothing else. -/
def Handled (rs : List Request) : Prop :=
  Yields (run (receive httpCallback) onConnection (rs.map fun r => (r.bytes, r.time))) fun conn =>
    conn.log = rs.flatMap fun r => onRequest httpCallback r.parsed

instance (rs : List Request) : Decidable (Handled httpCallback rs) :=
  inferInstanceAs (Decidable (Yields _ _))

/-! ### The request line -/

variable {r : Request}

lemma setMethod_methodString {req : HttpRequest} {m : HttpRequest.Method}
    (hreq : req.method = .kInvalid) (hm : m ≠ .kInvalid) :
    req.setMethod (HttpRequest.methodString m) = .ok (true, { req with method := m }) := by
  rw [HttpRequest.setMethod, check_of hreq, ok_bind]
  cases m with
  | kInvalid => exact absurd rfl hm
  | _ => rfl

lemma methodString_no_space (m : HttpRequest.Method) : 32 ∉ HttpRequest.methodString m := by
  cases m <;> decide

lemma setTarget_eq {req : HttpRequest} (h : r.WellFormed) (hreq : req.query = []) :
    req.setTarget (r.path ++ r.query) = { req with path := r.path, query := r.query } := by
  rcases h.query with hq | hq
  · rw [HttpRequest.setTarget, hq, List.append_nil, cut_eq_none h.path, ← hreq]
  · obtain ⟨q, hq⟩ := List.head?_eq_some_iff.mp hq
    rw [HttpRequest.setTarget, hq, cut_append h.path]

lemma setVersionText_eq (req : HttpRequest) {v : HttpRequest.Version} (hv : v ≠ .kUnknown) :
    req.setVersionText (Request.versionText v) = (true, { req with version := v }) := by
  cases v with
  | kUnknown => exact absurd rfl hv
  | _ => rfl

lemma processRequestLine_eq (h : r.WellFormed) (body : List UInt8) :
    HttpRequest.processRequestLine { HttpRequest.new with body := body } r.requestLine =
      .ok (true, { HttpRequest.new with
        method := r.method, path := r.path, query := r.query, version := r.version
        body := body }) := by
  rw [HttpRequest.processRequestLine, Request.requestLine, cut_append (methodString_no_space _)]
  dsimp only
  rw [setMethod_methodString rfl h.method, ok_bind]
  dsimp only
  rw [if_pos rfl, cut_append h.target]
  dsimp only
  rw [setTarget_eq h rfl, setVersionText_eq _ h.version]
  rfl

/-! ### Header lines -/

lemma rdropWhile_append_of_pos {p : UInt8 → Bool} {x y : List UInt8} (h : ∀ b ∈ y, p b = true) :
    (x ++ y).rdropWhile p = x.rdropWhile p := by
  rw [List.rdropWhile, List.reverse_append, List.dropWhile_append_of_pos (by simpa using h)]
  rfl

lemma addHeader_eq (req : HttpRequest) {h : Header} (hh : h.WellFormed) :
    req.addHeader h.field (h.before ++ (h.value ++ h.after)) =
      { req with headers := req.headers.assign h.field h.value } := by
  have hvalue : ((h.before ++ (h.value ++ h.after)).dropWhile isSpace).rdropWhile isSpace =
      h.value := by
    rw [List.dropWhile_append_of_pos hh.before]
    cases hv : h.value with
    | nil =>
      rw [List.nil_append, List.dropWhile_eq_nil_iff.mpr hh.after]
      rfl
    | cons b bs =>
      have hb : isSpace b = false := hh.head b (by simp [hv])
      rw [List.cons_append, List.dropWhile_cons_of_neg (by simp [hb]), ← List.cons_append,
        rdropWhile_append_of_pos hh.after]
      refine List.rdropWhile_eq_self_iff.mpr fun hne => ?_
      have hlast : h.value.getLast? = some ((b :: bs).getLast hne) := by
        rw [hv]
        exact List.getLast?_eq_some_getLast hne
      simp [hh.getLast _ hlast]
  rw [HttpRequest.addHeader, hvalue]

/-! ### The loop of the parser -/

open HttpContext

/-- The header lines, and the line without a colon that ends them. -/
lemma parse_headers {headers : List Header} (hh : ∀ h ∈ headers, h.WellFormed) {last : List UInt8}
    (hlast : findCRLF last = none) (hcolon : 58 ∉ last) (req : HttpRequest) (body : List UInt8)
    (t : ℤ) :
    parseRequest ⟨.kExpectHeaders, req⟩
        (Request.headerLines headers ++ (last ++ 13 :: 10 :: body)) t =
      .ok ⟨⟨.kGotAll, { req with
        headers := headers.foldl (fun m h => m.assign h.field h.value) req.headers
        body := if body = [] then req.body else body }⟩, body, true⟩ := by
  induction headers generalizing req with
  | nil =>
    change parseRequest _ (last ++ 13 :: 10 :: body) t = _
    rw [parseRequest_end hlast hcolon, parseBody]
    by_cases hbody : body = []
    · simp [hbody]
    · simp [hbody]
  | cons h headers ih =>
    obtain ⟨hh, hrest⟩ := List.forall_mem_cons.mp hh
    have hlines : Request.headerLines (h :: headers) ++ (last ++ 13 :: 10 :: body) =
        h.line ++ 13 :: 10 :: (Request.headerLines headers ++ (last ++ 13 :: 10 :: body)) := by
      simp [Request.headerLines]
    have hcut : cut 58 h.line = some (h.field, h.before ++ (h.value ++ h.after)) :=
      cut_append hh.field _
    rw [hlines, parseRequest_header hh.line hcut, addHeader_eq req hh]
    exact ih hrest _

/-- A request whose headers end with a line that has no colon. -/
lemma parseRequest_last (h : r.WellFormed) {last : List UInt8} (hlast : findCRLF last = none)
    (hcolon : 58 ∉ last) :
    HttpContext.new.parseRequest (r.requestLine ++
        13 :: 10 :: (Request.headerLines r.headers ++ (last ++ 13 :: 10 :: r.body))) r.time =
      .ok ⟨⟨.kGotAll, r.parsed⟩, r.body, true⟩ := by
  have hline : HttpRequest.new.processRequestLine r.requestLine = _ := processRequestLine_eq h []
  rw [HttpContext.new, parseRequest_line h.line, hline, ok_bind, if_pos rfl]
  refine (parse_headers h.headers hlast hcolon _ r.body r.time).trans ?_
  by_cases hbody : r.body = []
  · simp [hbody, Request.parsed, HttpRequest.new]
  · simp [hbody, Request.parsed, HttpRequest.new]

/-- The parser takes a request out of a buffer that holds nothing else, up to its body. -/
lemma parseRequest_eq (h : r.WellFormed) :
    HttpContext.new.parseRequest r.bytes r.time = .ok ⟨⟨.kGotAll, r.parsed⟩, r.body, true⟩ :=
  parseRequest_last h rfl List.not_mem_nil

/-- A connection on which everything has been answered, and the last request had this body. -/
def answered (body : List UInt8) (log : List Action) : Conn :=
  ⟨⟨.kExpectRequestLine, { HttpRequest.new with body := body }⟩, body, log⟩

lemma receive_answered (h : r.WellFormed) (log : List Action) :
    receive httpCallback (answered [] log) (r.bytes, r.time) =
      .ok (answered r.body (log ++ onRequest httpCallback r.parsed)) := by
  rw [receive, onMessage]
  show HttpContext.new.parseRequest r.bytes r.time >>= _ = _
  rw [parseRequest_eq h]
  rfl

/-- Requests without a body leave nothing behind. -/
lemma run_answered {rs : List Request} (h : ∀ r ∈ rs, r.WellFormed) (hbody : ∀ r ∈ rs, r.body = [])
    (log : List Action) :
    run (receive httpCallback) (answered [] log) (rs.map fun r => (r.bytes, r.time)) =
      .ok (answered [] (log ++ rs.flatMap fun r => onRequest httpCallback r.parsed)) := by
  induction rs generalizing log with
  | nil => simp
  | cons r rs ih =>
    obtain ⟨hr, hrs⟩ := List.forall_mem_cons.mp h
    obtain ⟨hbr, hbrs⟩ := List.forall_mem_cons.mp hbody
    rw [List.map_cons, run_cons, receive_answered httpCallback hr, ok_bind, hbr, ih hrs hbrs,
      List.flatMap_cons, List.append_assoc]

/-! ### What a body leaves behind -/

lemma body_processRequestLine {req req' : HttpRequest} {line : List UInt8} {ok : Bool}
    (h : req.processRequestLine line = .ok (ok, req')) : req'.body = req.body := by
  unfold HttpRequest.processRequestLine at h
  split at h
  · cases h
    rfl
  · obtain ⟨⟨valid, req₁⟩, hm, h⟩ := bind_eq_ok.mp h
    have hreq₁ : req₁.body = req.body := by
      obtain ⟨-, -, hm⟩ := bind_eq_ok.mp hm
      cases hm
      rfl
    have htarget : ∀ target, (req₁.setTarget target).body = req₁.body := by
      intro target
      unfold HttpRequest.setTarget
      split <;> rfl
    have hversion : ∀ (q : HttpRequest) text, (q.setVersionText text).2.body = q.body := by
      intro q text
      unfold HttpRequest.setVersionText
      split
      · split
        · rfl
        · split <;> rfl
      · rfl
    rw [← hreq₁]
    cases valid with
    | false =>
      cases h
      rfl
    | true =>
      simp only [if_true] at h
      split at h
      · cases h
        rfl
      · rename_i target version _
        have : req' = ((req₁.setTarget target).setVersionText version).2 :=
          (congrArg Prod.snd (Except.ok.inj h)).symm
        rw [this, hversion, htarget]

/-- The parser never clears a body. -/
lemma parseRound_body (receiveTime : ℤ) (p : Parse) (hp : p.context.request.body ≠ []) :
    SafeUpTo (fun _ => True) (parseRound receiveTime p) (Round.Leaves
      (fun q => q.context.request.body ≠ []) fun q => q.context.request.body ≠ []) := by
  unfold parseRound
  split
  · unfold parseRequestLine
    split
    · exact hp
    · rename_i crlf hcrlf
      rcases hline : p.context.request.processRequestLine (p.buf.take crlf) with
        (_ | _) | ⟨_ | _, req⟩
      · trivial
      · trivial
      · exact (body_processRequestLine hline).trans_ne hp
      · exact (body_processRequestLine hline).trans_ne hp
  · unfold parseHeader
    split
    · exact hp
    · rename_i crlf hcrlf
      rcases hcut : cut 58 (p.buf.take crlf) with _ | ⟨field, rest⟩
      · rw [safeUpTo_pure]
        exact hp
      · rw [safeUpTo_pure]
        exact hp
  · show HttpRequest.body (if _ then _ else _) ≠ []
    split
    · exact hp
    · assumption
  · trivial

lemma parseRequest_body {c : HttpContext} {buf : List UInt8} {t : ℤ} {p : Parse}
    (hc : c.request.body ≠ []) (h : c.parseRequest buf t = .ok p) :
    p.context.request.body ≠ [] := by
  have hsafe : SafeUpTo (fun _ => True) (c.parseRequest buf t)
      fun q => q.context.request.body ≠ [] :=
    loop_safeUpTo (parseRound_lt t) (fun q => parseRound_body t q) hc
  rw [h] at hsafe
  exact hsafe

/-- From then on the callback gets no request with an empty body. -/
lemma receive_body {conn conn' : Conn} {chunk : List UInt8 × ℤ}
    (hconn : conn.context.request.body ≠ []) (h : receive httpCallback conn chunk = .ok conn') :
    conn'.context.request.body ≠ [] ∧ ∃ more, conn'.log = conn.log ++ more ∧
      ∀ req, .callback req ∈ more → req.body ≠ [] := by
  obtain ⟨p, hparse, h⟩ := bind_eq_ok.mp h
  have hp : p.context.request.body ≠ [] :=
    parseRequest_body (c := conn.context) (t := chunk.2) hconn hparse
  have hcall : ∀ req, .callback req ∈ onRequest httpCallback p.context.request → req.body ≠ [] := by
    intro req hreq
    have : req = p.context.request := by
      simp only [onRequest, List.mem_append, List.mem_cons, Action.callback.injEq, reduceCtorEq,
        List.not_mem_nil, or_false] at hreq
      rcases hreq with hreq | hreq
      · exact hreq
      · split at hreq <;> simp at hreq
    rw [this]
    exact hp
  -- The log grows by the answers to this chunk.
  obtain ⟨bad, hbadlog, hbad⟩ : ∃ bad, (if p.ok then conn.log else conn.log ++ badRequest) =
      conn.log ++ bad ∧ ∀ req, .callback req ∉ bad := by
    split
    · exact ⟨[], by simp, by simp⟩
    · exact ⟨badRequest, rfl, by simp [badRequest]⟩
  simp only [hbadlog] at h
  split at h
  · cases h
    refine ⟨hp, bad ++ onRequest httpCallback p.context.request, by simp, fun req hreq => ?_⟩
    exact hcall req ((List.mem_append.mp hreq).resolve_left (hbad req))
  · cases h
    exact ⟨hp, bad, rfl, fun req hreq => absurd hreq (hbad req)⟩

lemma run_body {conn conn' : Conn} {chunks : List (List UInt8 × ℤ)}
    (hconn : conn.context.request.body ≠ [])
    (h : run (receive httpCallback) conn chunks = .ok conn') :
    ∃ more, conn'.log = conn.log ++ more ∧ ∀ req, .callback req ∈ more → req.body ≠ [] := by
  induction chunks generalizing conn with
  | nil =>
    cases h
    exact ⟨[], by simp, by simp⟩
  | cons chunk chunks ih =>
    obtain ⟨conn₁, h₁, h⟩ := bind_eq_ok.mp h
    obtain ⟨hconn₁, more₁, hlog₁, hmore₁⟩ := receive_body httpCallback hconn h₁
    obtain ⟨more, hlog, hmore⟩ := ih hconn₁ h
    refine ⟨more₁ ++ more, by rw [hlog, hlog₁, List.append_assoc], fun req hreq => ?_⟩
    rcases List.mem_append.mp hreq with hreq | hreq
    · exact hmore₁ req hreq
    · exact hmore req hreq

/-- A request without a body is not answered right behind one with a body. -/
lemma body_eq_nil_of_handled {rs : List Request} {next : Request} (h : ∀ r ∈ rs, r.WellFormed)
    (hnext : next.body = []) (hhandled : Handled httpCallback (rs ++ [next])) :
    ∀ r ∈ rs, r.body = [] := by
  by_contra hbody
  -- Up to the first request with a body all is well.
  obtain ⟨pre, r, post, rfl, hpre, hr⟩ : ∃ pre r post, rs = pre ++ r :: post ∧
      (∀ q ∈ pre, q.body = []) ∧ r.body ≠ [] := by
    push Not at hbody
    obtain ⟨q, hq, hqbody⟩ := hbody
    have hfound : (rs.find? fun q => q.body ≠ []).isSome :=
      List.find?_isSome.mpr ⟨q, hq, by simpa using hqbody⟩
    obtain ⟨r, hr⟩ := Option.isSome_iff_exists.mp hfound
    obtain ⟨hbody, pre, post, hrs, hpre⟩ := List.find?_eq_some_iff_append.mp hr
    exact ⟨pre, r, post, hrs, by simpa using hpre, by simpa using hbody⟩
  obtain ⟨conn, hrun, hlog⟩ := hhandled
  have hwf : ∀ q ∈ pre, q.WellFormed := fun q hq => h q (List.mem_append_left _ hq)
  have hrwf := h r (List.mem_append_right _ (List.mem_cons_self ..))
  rw [List.append_assoc, List.map_append, run_append] at hrun
  rw [show onConnection = answered [] [] from rfl, run_answered httpCallback hwf hpre, ok_bind,
    List.cons_append, List.map_cons, run_cons, receive_answered httpCallback hrwf, ok_bind] at hrun
  obtain ⟨more, hmore, hcalls⟩ := run_body httpCallback hr hrun
  -- The rest of the log is the answers to the other requests, the last one among them.
  have heq : more = (post ++ [next]).flatMap fun q => onRequest httpCallback q.parsed := by
    rw [hmore] at hlog
    simpa [answered] using hlog
  refine hcalls next.parsed ?_ hnext
  rw [heq]
  simp [onRequest]

def getRoot : Request where
  method := .kGet
  path := ascii "/"
  query := []
  version := .kHttp11
  headers := []
  body := []
  time := 0

lemma wellFormed_getRoot : getRoot.WellFormed where
  method := by decide
  version := by decide
  path := by decide
  query := .inl rfl
  target := by decide
  line := by decide +kernel
  headers := nofun

/-- After some requests, the next request is answered as it should be, whatever it is, if and only
if none of the requests had a body. -/
theorem next_handled_iff {rs : List Request} (h : ∀ r ∈ rs, r.WellFormed) :
    (∀ next : Request, next.WellFormed → Handled httpCallback (rs ++ [next])) ↔
      ∀ r ∈ rs, r.body = [] := by
  constructor
  · intro hhandled
    exact body_eq_nil_of_handled httpCallback h rfl (hhandled getRoot wellFormed_getRoot)
  · intro hbody next hnext
    refine ⟨answered next.body (rs.flatMap (fun r => onRequest httpCallback r.parsed) ++
      onRequest httpCallback next.parsed), ?_, by simp [answered]⟩
    have hrun := run_answered httpCallback h hbody []
    rw [List.nil_append] at hrun
    rw [List.map_append, run_append, show onConnection = answered [] [] from rfl, hrun, ok_bind,
      List.map_singleton, run_cons, receive_answered httpCallback hnext]
    rfl

theorem next_handled_getRoot : Handled defaultHttpCallback ([getRoot] ++ [getRoot]) :=
  (next_handled_iff defaultHttpCallback (by simpa using wellFormed_getRoot)).mpr
    (by simp [getRoot]) getRoot wellFormed_getRoot

def postLogin : Request where
  method := .kPost
  path := ascii "/login"
  query := []
  version := .kHttp11
  headers := []
  body := ascii "user=a"
  time := 0

lemma wellFormed_postLogin : postLogin.WellFormed where
  method := by decide
  version := by decide
  path := by decide
  query := .inl rfl
  target := by decide
  line := by decide +kernel
  headers := nofun

/-- The body of the first request makes the second one a bad request. -/
theorem next_not_handled_postLogin :
    postLogin.WellFormed ∧ getRoot.WellFormed ∧
      Yields (run (receive defaultHttpCallback) onConnection
        ([postLogin, getRoot].map fun r => (r.bytes, r.time)))
        (fun conn => conn.log = onRequest defaultHttpCallback postLogin.parsed ++ badRequest) ∧
      ¬ Handled defaultHttpCallback [postLogin, getRoot] :=
  ⟨wellFormed_postLogin, wellFormed_getRoot, by decide +kernel, by decide +kernel⟩

end HttpServer
end Muduo

import Muduo.Http.HttpServer
import Muduo.Machine.Run

/-!
# The parser of HTTP requests

`parseRequest` takes lines out of a buffer. The equations below say what it does with a line and
with what follows the line, and from them how a call goes on where an earlier one has stopped.

## Main results

* `parseRequest_append`: a call on more bytes goes on where the call on fewer bytes has stopped.
* `parse_ignores_cuts`: a request head is parsed the same in however many pieces it arrives.
-/

namespace Muduo

open Machine

namespace HttpRequest

variable {r : HttpRequest} {line : List UInt8}

/-! ### The time of a request -/

/-- The request, received at another time. -/
def received (time : ℤ) (r : HttpRequest) : HttpRequest := { r with receiveTime := time }

lemma setMethod_received (time : ℤ) (m : List UInt8) :
    (r.received time).setMethod m = Prod.map id (received time) <$> r.setMethod m := by
  by_cases h : r.method = .kInvalid
  · have h' : (r.received time).method = .kInvalid := h
    rw [setMethod, setMethod, check_of h, check_of h']
    rfl
  · have h' : ¬ (r.received time).method = .kInvalid := h
    rw [setMethod, setMethod, check, check, if_neg h, if_neg h']
    rfl

lemma setTarget_received (time : ℤ) (target : List UInt8) :
    (r.received time).setTarget target = (r.setTarget target).received time := by
  unfold setTarget
  split <;> rfl

lemma setVersionText_received (time : ℤ) (text : List UInt8) :
    (r.received time).setVersionText text =
      Prod.map id (received time) (r.setVersionText text) := by
  unfold setVersionText
  split
  · split
    · rfl
    · split <;> rfl
  · rfl

lemma processRequestLine_received (time : ℤ) (line : List UInt8) :
    (r.received time).processRequestLine line =
      Prod.map id (received time) <$> r.processRequestLine line := by
  unfold processRequestLine
  cases cut 32 line with
  | none => rfl
  | some p =>
    obtain ⟨m, rest⟩ := p
    dsimp only
    rw [setMethod_received]
    match r.setMethod m with
    | .error _ => rfl
    | .ok (false, r₁) => rfl
    | .ok (true, r₁) =>
      cases cut 32 rest with
      | none => rfl
      | some q =>
        change Except.ok (((r₁.received time).setTarget q.1).setVersionText q.2) = _
        rw [setTarget_received, setVersionText_received]
        rfl

end HttpRequest

namespace HttpContext

variable {c : HttpContext} {req : HttpRequest} {line rest buf x y : List UInt8} {t : ℤ} {p : Parse}

/-! ### The equations of the parser -/

lemma length_drop_lt {crlf : ℕ} (h : findCRLF buf = some crlf) :
    (buf.drop (crlf + 2)).length < buf.length := by
  have := length_of_findCRLF h
  rw [List.length_drop]
  omega

/-- A round that is not the last one takes a line out of the buffer. -/
lemma parseRound_lt (receiveTime : ℤ) (p q : Parse)
    (h : parseRound receiveTime p = .ok (.again q)) : q.buf.length < p.buf.length := by
  unfold parseRound at h
  split at h
  · unfold parseRequestLine at h
    split at h
    · cases h
    · rename_i crlf hcrlf
      obtain ⟨⟨ok, request⟩, -, h⟩ := bind_eq_ok.mp h
      cases ok with
      | true =>
        cases h
        exact length_drop_lt hcrlf
      | false => cases h
  · unfold parseHeader at h
    split at h
    · cases h
    · cases h
      exact length_drop_lt ‹_›
  · cases h
  · cases h

lemma parseRequest_loop (c : HttpContext) (buf : List UInt8) (t : ℤ) :
    c.parseRequest buf t = parseRound t ⟨c, buf, true⟩ >>= Round.next fun p =>
      loop .outOfFuel (parseRound t) (fun p => p.buf.length) p :=
  loop_eq (parseRound_lt t) _

/-- Without a complete line the parser waits. -/
lemma parseRequest_wait (hstate : c.state = .kExpectRequestLine ∨ c.state = .kExpectHeaders)
    (hbuf : findCRLF buf = none) (t : ℤ) : c.parseRequest buf t = .ok ⟨c, buf, true⟩ := by
  rw [parseRequest_loop, parseRound]
  rcases hstate with hstate | hstate
  · rw [hstate]
    dsimp only
    rw [parseRequestLine, hbuf]
    rfl
  · rw [hstate]
    dsimp only
    rw [parseHeader, hbuf]
    rfl

lemma drop_line (line rest : List UInt8) :
    (line ++ 13 :: 10 :: rest).drop (line.length + 2) = rest :=
  List.drop_length_add_append 2

/-- The request line. -/
lemma parseRequest_line (hline : findCRLF line = none) (req : HttpRequest) (rest : List UInt8)
    (t : ℤ) :
    parseRequest ⟨.kExpectRequestLine, req⟩ (line ++ 13 :: 10 :: rest) t =
      req.processRequestLine line >>= fun q =>
        if q.1 then parseRequest ⟨.kExpectHeaders, { q.2 with receiveTime := t }⟩ rest t
        else .ok ⟨⟨.kExpectRequestLine, q.2⟩, line ++ 13 :: 10 :: rest, false⟩ := by
  rw [parseRequest_loop, parseRound]
  dsimp only
  rw [parseRequestLine, findCRLF_append_crlf hline]
  dsimp only
  rw [List.take_left, drop_line]
  match req.processRequestLine line with
  | .error _ => rfl
  | .ok (true, r) => rfl
  | .ok (false, r) => rfl

/-- A line of the headers, which is a field or ends them. -/
lemma parseHeader_line (hline : findCRLF line = none) (req : HttpRequest) (rest : List UInt8) :
    parseHeader ⟨⟨.kExpectHeaders, req⟩, line ++ 13 :: 10 :: rest, true⟩ =
      match cut 58 line with
      | some (field, value) => .again ⟨⟨.kExpectHeaders, req.addHeader field value⟩, rest, true⟩
      | none => .again ⟨⟨.kExpectBody, req⟩, rest, true⟩ := by
  rw [parseHeader, findCRLF_append_crlf hline]
  dsimp only
  rw [List.take_left, drop_line]
  cases cut 58 line <;> rfl

lemma parseRequest_header {field value : List UInt8} (hline : findCRLF line = none)
    (hcut : cut 58 line = some (field, value)) (req : HttpRequest) (rest : List UInt8) (t : ℤ) :
    parseRequest ⟨.kExpectHeaders, req⟩ (line ++ 13 :: 10 :: rest) t =
      parseRequest ⟨.kExpectHeaders, req.addHeader field value⟩ rest t := by
  rw [parseRequest_loop, parseRound]
  dsimp only
  rw [parseHeader_line hline, hcut]
  rfl

/-- A line without a colon ends the headers, and what is behind it is the body. -/
lemma parseRequest_end (hline : findCRLF line = none) (hcolon : 58 ∉ line) (req : HttpRequest)
    (rest : List UInt8) (t : ℤ) :
    parseRequest ⟨.kExpectHeaders, req⟩ (line ++ 13 :: 10 :: rest) t =
      .ok (parseBody ⟨⟨.kExpectBody, req⟩, rest, true⟩) := by
  rw [parseRequest_loop, parseRound]
  dsimp only
  rw [parseHeader_line hline, cut_eq_none hcolon]
  change loop .outOfFuel (parseRound t) (fun p => p.buf.length)
    ⟨⟨.kExpectBody, req⟩, rest, true⟩ = _
  rw [loop_eq (parseRound_lt t)]
  rfl

lemma cut_colon (line : List UInt8) :
    58 ∉ line ∨ ∃ field value, cut 58 line = some (field, value) := by
  by_cases h : (58 : UInt8) ∈ line
  · exact .inr ⟨_, _, if_pos h⟩
  · exact .inl h

/-! ### More bytes -/

/-- How a call on a buffer ends, when `y` is behind the bytes on which it has ended as `p`. -/
def resume (y : List UInt8) (t : ℤ) (p : Parse) : Code Parse :=
  if p.ok = false then .ok { p with buf := p.buf ++ y }
  else if p.context.gotAll then .ok (parseBody { p with buf := p.buf ++ y })
  else p.context.parseRequest (p.buf ++ y) t

lemma context_parseBody_of_nil (h : p.buf = []) :
    (parseBody p).context = ⟨.kGotAll, p.context.request⟩ := by
  rw [parseBody, if_pos h]

lemma resume_parseBody (hrest : p.ok = true) (y : List UInt8) (t : ℤ) :
    resume y t (parseBody p) = .ok (parseBody { p with buf := p.buf ++ y }) := by
  rw [resume, if_neg (by simp [parseBody, hrest]), if_pos (by simp [parseBody, gotAll])]
  unfold parseBody
  by_cases hx : p.buf = []
  · simp [hx]
  · simp [hx]

lemma parseHeaders_append (req : HttpRequest) (x y : List UInt8) (t : ℤ) :
    parseRequest ⟨.kExpectHeaders, req⟩ (x ++ y) t =
      parseRequest ⟨.kExpectHeaders, req⟩ x t >>= resume y t := by
  induction x using lines_induction generalizing req with
  | hlast x hx =>
    rw [parseRequest_wait (.inr rfl) hx]
    rfl
  | hline line rest hline ih =>
    rw [List.append_assoc, List.cons_append, List.cons_append]
    rcases cut_colon line with hcolon | ⟨field, value, hcut⟩
    · rw [parseRequest_end hline hcolon, parseRequest_end hline hcolon, ok_bind,
        resume_parseBody rfl]
    · rw [parseRequest_header hline hcut, parseRequest_header hline hcut, ih]

/-- A call on more bytes goes on where a call on fewer bytes has stopped. -/
theorem parseRequest_append (hstate : c.state = .kExpectRequestLine ∨ c.state = .kExpectHeaders)
    (x y : List UInt8) (t : ℤ) :
    c.parseRequest (x ++ y) t = c.parseRequest x t >>= resume y t := by
  obtain ⟨state, req⟩ := c
  rcases hstate with rfl | rfl
  · cases hx : findCRLF x with
    | none =>
      rw [parseRequest_wait (.inl rfl) hx]
      rfl
    | some k =>
      obtain ⟨line, rest, rfl, hline, -⟩ := exists_line hx
      rw [List.append_assoc, List.cons_append, List.cons_append, parseRequest_line hline,
        parseRequest_line hline]
      match req.processRequestLine line with
      | .error _ => rfl
      | .ok (true, r) => exact parseHeaders_append _ rest y t
      | .ok (false, r) =>
        simp [resume]
  · exact parseHeaders_append req x y t

/-- A call that expects headers rejects nothing. -/
lemma parseHeaders_yields (req : HttpRequest) (x : List UInt8) (t : ℤ) :
    Yields (parseRequest ⟨.kExpectHeaders, req⟩ x t) fun p =>
      p.ok = true ∧ (p.context.state = .kExpectHeaders ∨ p.context.state = .kGotAll) := by
  induction x using lines_induction generalizing req with
  | hlast x hx => exact ⟨_, parseRequest_wait (.inr rfl) hx t, rfl, .inl rfl⟩
  | hline line rest hline ih =>
    rcases cut_colon line with hcolon | ⟨field, value, hcut⟩
    · exact ⟨_, parseRequest_end hline hcolon req rest t, rfl, .inr rfl⟩
    · rw [parseRequest_header hline hcut]
      exact ih _

lemma state_of_parseHeaders (h : parseRequest ⟨.kExpectHeaders, req⟩ x t = .ok p) :
    p.ok = true ∧ (p.context.state = .kExpectHeaders ∨ p.context.state = .kGotAll) :=
  (parseHeaders_yields req x t).safe.of_ok h

/-- Where a call leaves the context. -/
lemma state_of_parseRequest (hstate : c.state = .kExpectRequestLine ∨ c.state = .kExpectHeaders)
    (h : c.parseRequest x t = .ok p) :
    p.context.state = .kExpectRequestLine ∨
      p.ok = true ∧ (p.context.state = .kExpectHeaders ∨ p.context.state = .kGotAll) := by
  obtain ⟨state, req⟩ := c
  rcases hstate with rfl | rfl
  · cases hx : findCRLF x with
    | none =>
      rw [parseRequest_wait (.inl rfl) hx] at h
      cases h
      exact .inl rfl
    | some k =>
      obtain ⟨line, rest, rfl, hline, -⟩ := exists_line hx
      rw [parseRequest_line hline, bind_eq_ok] at h
      obtain ⟨⟨ok, r⟩, -, h⟩ := h
      cases ok with
      | true => exact .inr (state_of_parseHeaders h)
      | false =>
        cases h
        exact .inl rfl
  · exact .inr (state_of_parseHeaders h)

/-- A call that waits for more has taken all it can out of its buffer. -/
lemma parseRequest_again (hstate : c.state = .kExpectRequestLine ∨ c.state = .kExpectHeaders)
    (h : c.parseRequest x t = .ok p) (hok : p.ok = true) (hmore : p.context.gotAll = false) :
    p.context.parseRequest p.buf t = .ok p := by
  have happend := parseRequest_append hstate x [] t
  rw [List.append_nil, h, ok_bind, resume, if_neg (by simp [hok]), if_neg (by simp [hmore]),
    List.append_nil] at happend
  exact happend.symm

/-! ### Other times -/

def received (time : ℤ) (c : HttpContext) : HttpContext :=
  { c with request := c.request.received time }

def Parse.received (time : ℤ) (p : Parse) : Parse := { p with context := p.context.received time }

lemma parseBody_received (p : Parse) (time : ℤ) :
    (parseBody p).received time = parseBody (p.received time) := by
  unfold parseBody Parse.received HttpContext.received
  dsimp only
  split <;> rfl

lemma parseHeaders_received (req : HttpRequest) (x : List UInt8) (t : ℤ) :
    Parse.received 0 <$> parseRequest ⟨.kExpectHeaders, req⟩ x t =
      parseRequest ⟨.kExpectHeaders, req.received 0⟩ x 0 := by
  induction x using lines_induction generalizing req with
  | hlast x hx =>
    rw [parseRequest_wait (.inr rfl) hx, parseRequest_wait (.inr rfl) hx]
    rfl
  | hline line rest hline ih =>
    rcases cut_colon line with hcolon | ⟨field, value, hcut⟩
    · rw [parseRequest_end hline hcolon, parseRequest_end hline hcolon]
      exact congrArg Except.ok (parseBody_received ..)
    · rw [parseRequest_header hline hcut, parseRequest_header hline hcut, ih]
      rfl

/-- The time of a call is in the request and nowhere else. -/
lemma parseRequest_received (hstate : c.state = .kExpectRequestLine ∨ c.state = .kExpectHeaders)
    (x : List UInt8) (t : ℤ) :
    Parse.received 0 <$> c.parseRequest x t = (c.received 0).parseRequest x 0 := by
  obtain ⟨state, req⟩ := c
  rcases hstate with rfl | rfl
  · change _ = parseRequest ⟨.kExpectRequestLine, req.received 0⟩ x 0
    cases hx : findCRLF x with
    | none =>
      rw [parseRequest_wait (.inl rfl) hx, parseRequest_wait (.inl rfl) hx]
      rfl
    | some k =>
      obtain ⟨line, rest, rfl, hline, -⟩ := exists_line hx
      rw [parseRequest_line hline, parseRequest_line hline, req.processRequestLine_received]
      match req.processRequestLine line with
      | .error _ => rfl
      | .ok (true, r) => exact parseHeaders_received _ rest t
      | .ok (false, r) => rfl
  · exact parseHeaders_received req x t

/-! ### A head in pieces -/

/-- A context, its buffer, and the calls of `parseRequest` so far: what each of them has returned
and whether `gotAll` held after it. -/
structure Feed where
  context : HttpContext
  input : List UInt8
  calls : List (Bool × Bool)

namespace Feed

def new : Feed := ⟨.new, [], []⟩

/-- A chunk is appended to the buffer, and the parser is called. -/
def step (s : Feed) (chunk : List UInt8 × ℤ) : Code Feed := do
  let p ← s.context.parseRequest (s.input ++ chunk.1) chunk.2
  return ⟨p.context, p.buf, s.calls ++ [(p.ok, p.context.gotAll)]⟩

variable {s : Feed} {chunks : List (List UInt8 × ℤ)}

/-- A step on a chunk with more bytes to come, when all of them are a head and nothing else. -/
lemma step_eq {chunk : List UInt8 × ℤ} {z : List UInt8}
    (hstate : s.context.state = .kExpectRequestLine ∨ s.context.state = .kExpectHeaders)
    (h : (s.context.received 0).parseRequest (s.input ++ (chunk.1 ++ z)) 0 = .ok p)
    (hall : p.context.gotAll = true) (hbuf : p.buf = []) :
    ∃ q, s.context.parseRequest (s.input ++ chunk.1) chunk.2 = .ok q ∧ q.ok = true ∧
      if q.context.gotAll then z = [] ∧ q.context.received 0 = p.context
      else z ≠ [] ∧
        (q.context.state = .kExpectRequestLine ∨ q.context.state = .kExpectHeaders) ∧
        (q.context.received 0).parseRequest (q.buf ++ z) 0 = .ok p := by
  rw [← parseRequest_received hstate _ chunk.2, ← List.append_assoc,
    parseRequest_append hstate] at h
  obtain ⟨p', hparse, rfl⟩ := map_eq_ok.mp h
  obtain ⟨q, hq, hresume⟩ := bind_eq_ok.mp hparse
  refine ⟨q, hq, ?_⟩
  have hgot : q.context.gotAll = true → q.context.state = .kGotAll := of_decide_eq_true
  have hp' : p'.context.gotAll = true := hall
  unfold resume at hresume
  split at hresume
  · next hok =>
    -- a line that is rejected stays in the buffer
    cases hresume
    rcases state_of_parseRequest hstate hq with hq' | ⟨hok', -⟩
    · cases hq'.symm.trans (hgot hp')
    · cases hok.symm.trans hok'
  next hok =>
  rw [Bool.not_eq_false] at hok
  refine ⟨hok, ?_⟩
  split at hresume
  · next hgotAll =>
    rw [if_pos hgotAll]
    cases hresume
    have hempty : q.buf ++ z = [] := hbuf
    refine ⟨(List.append_eq_nil_iff.mp hempty).2, ?_⟩
    have hcontext : (parseBody { q with buf := q.buf ++ z }).context = q.context := by
      rw [context_parseBody_of_nil hempty, ← hgot hgotAll]
    exact (congrArg (HttpContext.received 0) hcontext).symm
  · next hgotAll =>
    rw [if_neg hgotAll]
    have hstate' : q.context.state = .kExpectRequestLine ∨ q.context.state = .kExpectHeaders := by
      rcases state_of_parseRequest hstate hq with hq' | ⟨-, hq' | hq'⟩
      · exact .inl hq'
      · exact .inr hq'
      · exact absurd (decide_eq_true hq') hgotAll
    refine ⟨?_, hstate', ?_⟩
    · rintro rfl
      rw [List.append_nil,
        parseRequest_again hstate hq hok (Bool.eq_false_of_not_eq_true hgotAll)] at hresume
      cases hresume
      exact hgotAll hp'
    · rw [← parseRequest_received hstate' _ chunk.2, hresume]
      rfl

lemma run_step (hstate : s.context.state = .kExpectRequestLine ∨ s.context.state = .kExpectHeaders)
    (h : (s.context.received 0).parseRequest (s.input ++ (chunks.map Prod.fst).flatten) 0 = .ok p)
    (hall : p.context.gotAll = true) (hbuf : p.buf = []) (hne : chunks ≠ [])
    (hchunks : ∀ chunk ∈ chunks, chunk.1 ≠ []) :
    Yields (run step s chunks) fun s' => s'.context.received 0 = p.context ∧
      s'.calls = s.calls ++
        (List.replicate (chunks.length - 1) (true, false) ++ [(true, true)]) := by
  induction chunks generalizing s with
  | nil => exact absurd rfl hne
  | cons chunk chunks ih =>
    obtain ⟨q, hq, hok, hq'⟩ := step_eq hstate h hall hbuf
    have hstep : step s chunk = .ok ⟨q.context, q.buf, s.calls ++ [(true, q.context.gotAll)]⟩ := by
      rw [step, hq, ← hok]
      rfl
    rw [run_cons, hstep, ok_bind]
    split at hq'
    · next hgotAll =>
      -- there are no more bytes, and so no more chunks
      obtain ⟨hz, hcontext⟩ := hq'
      have hnil : chunks = [] := by
        by_contra hcons
        obtain ⟨chunk', hmem⟩ := List.exists_mem_of_ne_nil chunks hcons
        exact hchunks chunk' (List.mem_cons_of_mem _ hmem)
          (List.flatten_eq_nil_iff.mp hz _ (List.mem_map_of_mem hmem))
      subst hnil
      exact ⟨_, rfl, hcontext, by rw [hgotAll]; rfl⟩
    · next hgotAll =>
      obtain ⟨hz, hstate', hmore⟩ := hq'
      have hcons : chunks ≠ [] := by
        rintro rfl
        exact hz rfl
      obtain ⟨s', hs', hcontext, hcalls⟩ := ih (s := ⟨q.context, q.buf, _⟩) hstate' hmore hcons
        fun chunk' hmem => hchunks chunk' (List.mem_cons_of_mem _ hmem)
      refine ⟨s', hs', hcontext, ?_⟩
      obtain ⟨n, hn⟩ : ∃ n, chunks.length = n + 1 :=
        Nat.exists_eq_succ_of_ne_zero (mt List.length_eq_zero_iff.mp hcons)
      rw [hcalls, Bool.eq_false_of_not_eq_true hgotAll, List.length_cons, hn, Nat.add_sub_cancel,
        Nat.add_sub_cancel, List.replicate_succ]
      simp

end Feed

/-- A head that one call takes out of its buffer as a whole is parsed the same in pieces. Every call
returns true, the last one and no other gets all of it, and the request is the same up to the time
at which it was received. -/
theorem parse_ignores_cuts (w : List UInt8) (t : ℤ) (p : Parse)
    (h : new.parseRequest w t = .ok p) (hall : p.context.gotAll = true) (hbuf : p.buf = [])
    (chunks : List (List UInt8 × ℤ)) (hchunks : ∀ chunk ∈ chunks, chunk.1 ≠ [])
    (hcut : (chunks.map Prod.fst).flatten = w) :
    Yields (run Feed.step .new chunks) fun s =>
      s.calls = List.replicate (chunks.length - 1) (true, false) ++ [(true, true)] ∧
      s.context.request.received p.context.request.receiveTime = p.context.request := by
  have hstart : (new.received 0).parseRequest ([] ++ (chunks.map Prod.fst).flatten) 0 =
      .ok (p.received 0) := by
    rw [← parseRequest_received (.inl rfl) _ t, List.nil_append, hcut, h]
    rfl
  have hne : chunks ≠ [] := by
    rintro rfl
    rw [← hcut, List.map_nil, List.flatten_nil, parseRequest_wait (.inl rfl) rfl] at h
    cases h
    cases hall
  obtain ⟨s, hs, hcontext, hcalls⟩ :=
    Feed.run_step (s := Feed.new) (.inl rfl) hstart hall hbuf hne hchunks
  refine ⟨s, hs, hcalls, ?_⟩
  have hrequest : s.context.request.received 0 = p.context.request.received 0 :=
    congrArg HttpContext.request hcontext
  exact (congrArg (HttpRequest.received p.context.request.receiveTime) hrequest :)

/-- The request of the repository's test, cut between CR and LF and inside a header. -/
theorem parse_ignores_cuts_get :
    Yields (run Feed.step .new [(ascii "GET /index.html HTTP/1.1\r", 1),
      (ascii "\nHost: www.ch", 2), (ascii "enshuo.com\r\n\r\n", 3)]) fun s =>
      s.calls = [(true, false), (true, false), (true, true)] ∧
      s.context.request.received 0 = { HttpRequest.new with
        method := .kGet
        path := ascii "/index.html"
        version := .kHttp11
        headers := StringMap.assign .empty (ascii "Host") (ascii "www.chenshuo.com") } := by
  have h : new.parseRequest
      (ascii "GET /index.html HTTP/1.1\r\nHost: www.chenshuo.com\r\n\r\n") 0 =
      .ok ⟨⟨.kGotAll, { HttpRequest.new with
        method := .kGet
        path := ascii "/index.html"
        version := .kHttp11
        headers := StringMap.assign .empty (ascii "Host") (ascii "www.chenshuo.com") }⟩, [],
        true⟩ := by
    decide +kernel
  exact parse_ignores_cuts _ 0 _ h rfl rfl _ (by decide +kernel) (by decide +kernel)

end HttpContext
end Muduo

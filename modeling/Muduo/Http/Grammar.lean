import Muduo.Http.KeepAlive

/-!
# The grammar of request heads

A request head is a request line, header lines and an empty line. The parser should accept the texts
that begin with a request head, and no others. It takes any line without a colon for the empty one.

## Main results

* `accepts_grammar_iff`: a text is accepted as the grammar says, unless its headers end with a line
  that is not empty, or its target is broken by a CRLF.
-/

namespace Muduo

open Machine

namespace StringMap

variable {m : StringMap} {key value : List UInt8}

def lookup (m : StringMap) (key : List UInt8) : Option (List UInt8) :=
  (m.find? (key.map UInt8.toNat)).map Prod.snd

lemma lookup_assign (m : StringMap) (key value key' : List UInt8) :
    (m.assign key value).lookup key' = if key' = key then some value else m.lookup key' := by
  have hinj : key'.map UInt8.toNat = key.map UInt8.toNat ↔ key' = key :=
    (List.map_injective_iff.mpr fun _ _ => UInt8.toNat.inj).eq_iff
  rw [lookup, assign, SortedSet.find?_erase_insert m (key, value)]
  simp only [hinj]
  split
  · rfl
  · rfl

end StringMap

open HttpServer (Header)
open HttpServer.Request (versionText headerLines)

/-- A request head. -/
structure Head where
  method : HttpRequest.Method
  target : List UInt8
  version : HttpRequest.Version
  headers : List Header

namespace Head

def requestLine (h : Head) : List UInt8 :=
  HttpRequest.methodString h.method ++ 32 :: (h.target ++ 32 :: versionText h.version)

/-- The request line and the header lines. -/
def lines (h : Head) : List UInt8 := h.requestLine ++ 13 :: 10 :: headerLines h.headers

def text (h : Head) : List UInt8 := h.lines ++ [13, 10]

structure Valid (h : Head) : Prop where
  method : h.method ≠ .kInvalid
  version : h.version ≠ .kUnknown
  target : 32 ∉ h.target
  headers : ∀ header ∈ h.headers, header.WellFormed

end Head

/-- What a request says about its head. The target is split in front of its first question mark, and
a header has the value of its last line. -/
structure HttpRequest.Reads (r : HttpRequest) (h : Head) : Prop where
  method : r.method = h.method
  version : r.version = h.version
  target : r.path ++ r.query = h.target
  path : 63 ∉ r.path
  query : r.query = [] ∨ r.query.head? = some 63
  headers : ∀ field, r.headers.lookup field =
    (h.headers.reverse.find? fun header => header.field = field).map Header.value

namespace HttpContext

/-- The call on a fresh context returns true and gets all. -/
def Accepts (w : List UInt8) (t : ℤ) : Prop :=
  Yields (new.parseRequest w t) fun p => p.ok = true ∧ p.context.gotAll = true

/-- The text is accepted if and only if it begins with a head, and then the request says what is in
the head. -/
def AcceptsGrammar (w : List UInt8) (t : ℤ) : Prop :=
  (Accepts w t ↔ ∃ h : Head, h.Valid ∧ h.text <+: w) ∧
    ∀ h : Head, h.Valid → h.text <+: w →
      Yields (new.parseRequest w t) fun p => p.context.request.Reads h

end HttpContext

/-! ### The request line -/

lemma append_cons_inj {b : UInt8} {x x' y y' : List UInt8} (hx : b ∉ x) (hx' : b ∉ x')
    (h : x ++ b :: y = x' ++ b :: y') : x = x' ∧ y = y' := by
  have hcut := (cut_append hx y).symm.trans ((congrArg (cut b) h).trans (cut_append hx' y'))
  exact Prod.mk.inj (Option.some.inj hcut)

namespace HttpRequest

variable {r : HttpRequest} {line : List UInt8}

/-- A request without a method never fails the assertion of `setMethod`. -/
lemma setMethod_of_invalid (hr : r.method = .kInvalid) (m : List UInt8) : ∃ method,
    r.setMethod m = .ok (decide (method ≠ .kInvalid), { r with method }) ∧
      (method ≠ .kInvalid → m = methodString method) := by
  rw [setMethod, check_of hr]
  refine ⟨_, rfl, fun hmethod => ?_⟩
  split_ifs at hmethod ⊢ with h₁ h₂ h₃ h₄ h₅
  · exact h₁
  · exact h₂
  · exact h₃
  · exact h₄
  · exact h₅
  · exact absurd rfl hmethod

lemma setVersionText_true {text : List UInt8} (h : (r.setVersionText text).1 = true) :
    ∃ version, version ≠ .kUnknown ∧ text = versionText version ∧
      r.setVersionText text = (true, { r with version }) := by
  have hsplit : ∀ b, text.take 7 = ascii "HTTP/1." → text.length = 8 → text.getLast? = some b →
      text = ascii "HTTP/1." ++ [b] := by
    intro b htake hlen hlast
    have hdrop : text.drop 7 = [b] := by
      obtain ⟨a, ha⟩ : ∃ a, text.drop 7 = [a] :=
        List.length_eq_one_iff.mp (by rw [List.length_drop]; omega)
      have : (text.take 7 ++ text.drop 7).getLast? = some b := by rwa [List.take_append_drop]
      rw [ha, List.getLast?_concat] at this
      rw [ha, Option.some.inj this]
    rw [← htake, ← hdrop, List.take_append_drop]
  unfold setVersionText at h ⊢
  split_ifs at h ⊢ with h₁ h₂ h₃
  · exact ⟨.kHttp11, by decide, hsplit 49 h₁.2 h₁.1 h₂, rfl⟩
  · exact ⟨.kHttp10, by decide, hsplit 48 h₁.2 h₁.1 h₃, rfl⟩

lemma setTarget_method (r : HttpRequest) (target : List UInt8) :
    (r.setTarget target).method = r.method := by
  unfold setTarget
  split <;> rfl

lemma setVersionText_method (r : HttpRequest) (text : List UInt8) :
    (r.setVersionText text).2.method = r.method := by
  unfold setVersionText
  split_ifs <;> rfl

/-- A request line of the grammar is taken. -/
lemma processRequestLine_head (hr : r.method = .kInvalid) {h : Head} (hv : h.Valid) :
    ∃ r', r.processRequestLine h.requestLine = .ok (true, r') := by
  rw [processRequestLine, Head.requestLine, cut_append (HttpServer.methodString_no_space _)]
  dsimp only
  rw [HttpServer.setMethod_methodString hr hv.method, ok_bind]
  dsimp only
  rw [if_pos rfl, cut_append hv.target]
  dsimp only
  rw [HttpServer.setVersionText_eq _ hv.version]
  exact ⟨_, rfl⟩

/-- A call on a request without a method returns. It returns true for the request lines of the
grammar, and sets the method of a line that begins with one. -/
lemma processRequestLine_of_invalid (hr : r.method = .kInvalid) (line : List UInt8) :
    Yields (r.processRequestLine line) fun q =>
      (q.1 = true ↔ ∃ h : Head, h.Valid ∧ line = h.requestLine) ∧
      (q.2.method ≠ .kInvalid ↔
        ∃ m tail, m ≠ .kInvalid ∧ line = methodString m ++ 32 :: tail) := by
  suffices hyields : Yields (r.processRequestLine line) fun q =>
      (q.1 = true → ∃ h : Head, h.Valid ∧ line = h.requestLine) ∧
      (q.2.method ≠ .kInvalid ↔
        ∃ m tail, m ≠ .kInvalid ∧ line = methodString m ++ 32 :: tail) by
    obtain ⟨q, hq, hhead, hmethod⟩ := hyields
    refine ⟨q, hq, ⟨hhead, ?_⟩, hmethod⟩
    rintro ⟨h, hv, rfl⟩
    obtain ⟨r', hr'⟩ := processRequestLine_head hr hv
    rw [Except.ok.inj (hq.symm.trans hr')]
  unfold processRequestLine
  cases hcut : cut 32 line with
  | none =>
    refine ⟨(false, r), rfl, nofun, fun hne => absurd hr hne, ?_⟩
    rintro ⟨m, tail, -, rfl⟩
    cases hcut.symm.trans (cut_append (HttpServer.methodString_no_space m) tail)
  | some q =>
    obtain ⟨m, rest⟩ := q
    obtain ⟨rfl, hm⟩ := cut_eq_some hcut
    obtain ⟨method, hset, hmethod⟩ := setMethod_of_invalid hr m
    dsimp only
    rw [hset, ok_bind]
    dsimp only
    by_cases hvalid : method = .kInvalid
    · rw [if_neg (by simp [hvalid])]
      refine ⟨_, rfl, nofun, fun hne => absurd hvalid hne, ?_⟩
      rintro ⟨m', tail, hm', heq⟩
      obtain ⟨rfl, -⟩ := append_cons_inj hm (HttpServer.methodString_no_space m') heq
      rw [HttpServer.setMethod_methodString hr hm'] at hset
      simp [hvalid] at hset
    · have hknown : ∃ m' tail, m' ≠ .kInvalid ∧ m ++ 32 :: rest = methodString m' ++ 32 :: tail :=
        ⟨method, rest, hvalid, by rw [hmethod hvalid]⟩
      rw [if_pos (by simp [hvalid])]
      cases hcut' : cut 32 rest with
      | none => exact ⟨_, rfl, nofun, fun _ => hknown, fun _ => hvalid⟩
      | some q =>
        obtain ⟨target, version⟩ := q
        obtain ⟨rfl, htarget⟩ := cut_eq_some hcut'
        refine ⟨_, rfl, fun hok => ?_, fun _ => hknown, fun _ => ?_⟩
        · obtain ⟨v, hv, rfl, -⟩ := setVersionText_true hok
          refine ⟨⟨method, target, v, []⟩, ⟨hvalid, hv, htarget, by simp⟩, ?_⟩
          rw [hmethod hvalid]
          rfl
        · rw [setVersionText_method, setTarget_method]
          exact hvalid

end HttpRequest

/-! ### Heads that the parser takes -/

lemma append_crlf_inj {line line' rest rest' : List UInt8} (hline : findCRLF line = none)
    (hline' : findCRLF line' = none) (h : line ++ 13 :: 10 :: rest = line' ++ 13 :: 10 :: rest') :
    line = line' ∧ rest = rest' := by
  have hlen := (findCRLF_append_crlf hline rest).symm.trans
    ((congrArg findCRLF h).trans (findCRLF_append_crlf hline' rest'))
  obtain ⟨rfl, hrest⟩ := List.append_inj h (Option.some.inj hlen)
  exact ⟨rfl, (List.cons.inj (List.cons.inj hrest).2).2⟩

namespace Head

variable {h h' : Head} {last body : List UInt8} {t : ℤ}

/-- The request of the head, as a client sends it. -/
def request (h : Head) (body : List UInt8) (t : ℤ) : HttpServer.Request where
  method := h.method
  path := h.target.takeWhile (· ≠ 63)
  query := h.target.dropWhile (· ≠ 63)
  version := h.version
  headers := h.headers
  body := body
  time := t

lemma path_append_query (h : Head) (body : List UInt8) (t : ℤ) :
    (h.request body t).path ++ (h.request body t).query = h.target :=
  List.takeWhile_append_dropWhile

lemma requestLine_request (h : Head) (body : List UInt8) (t : ℤ) :
    (h.request body t).requestLine = h.requestLine := by
  rw [HttpServer.Request.requestLine, path_append_query]
  rfl

lemma wellFormed_request (hv : h.Valid) (hline : findCRLF h.requestLine = none)
    (body : List UInt8) (t : ℤ) : (h.request body t).WellFormed where
  method := hv.method
  version := hv.version
  path hmem := by simpa using List.mem_takeWhile_imp hmem
  query := by
    cases hq : h.target.dropWhile (· ≠ 63) with
    | nil => exact .inl hq
    | cons b bs =>
      have hhead := List.head?_dropWhile_not (· ≠ 63) h.target
      rw [hq] at hhead
      refine .inr ?_
      change (h.target.dropWhile (· ≠ 63)).head? = some 63
      rw [hq]
      simpa using hhead
  target := by
    rw [path_append_query]
    exact hv.target
  line := by rwa [requestLine_request]
  headers := hv.headers

/-- The last line of a header wins. -/
lemma lookup_headers (headers : List Header) (field : List UInt8) :
    StringMap.lookup (headers.foldl (fun m h => m.assign h.field h.value) .empty) field =
      (headers.reverse.find? fun header => header.field = field).map Header.value := by
  induction headers using List.reverseRecOn with
  | nil => rfl
  | append_singleton headers h ih =>
    rw [List.foldl_concat, StringMap.lookup_assign, List.reverse_concat, List.find?_cons, ih]
    by_cases hfield : h.field = field
    · simp [hfield]
    · simp [hfield, Ne.symm hfield]

lemma reads_request (hv : h.Valid) (hline : findCRLF h.requestLine = none) (body : List UInt8)
    (t : ℤ) : (h.request body t).parsed.Reads h where
  method := rfl
  version := rfl
  target := path_append_query h body t
  path := (wellFormed_request hv hline body t).path
  query := (wellFormed_request hv hline body t).query
  headers := lookup_headers h.headers

lemma parseRequest_lines (hv : h.Valid) (hline : findCRLF h.requestLine = none)
    (hlast : findCRLF last = none) (hcolon : 58 ∉ last) (body : List UInt8) (t : ℤ) :
    HttpContext.new.parseRequest (h.lines ++ (last ++ 13 :: 10 :: body)) t =
      .ok ⟨⟨.kGotAll, (h.request body t).parsed⟩, body, true⟩ := by
  have := HttpServer.parseRequest_last (wellFormed_request hv hline body t) hlast hcolon
  rw [requestLine_request] at this
  rw [lines, List.append_assoc, List.cons_append, List.cons_append]
  exact this

/-- The request line of another head is no line of this one. -/
lemma requestLine_ne_append (hv : h.Valid) (hv' : h'.Valid) (rest : List UInt8) :
    h.requestLine ≠ h'.requestLine ++ 13 :: 10 :: rest := by
  intro heq
  unfold requestLine at heq
  rw [List.append_assoc, List.cons_append, List.append_assoc, List.cons_append] at heq
  obtain ⟨-, heq⟩ := append_cons_inj (HttpServer.methodString_no_space _)
    (HttpServer.methodString_no_space _) heq
  obtain ⟨-, heq⟩ := append_cons_inj hv.target hv'.target heq
  have hcr : (13 : UInt8) ∈ versionText h.version := by simp [heq]
  cases hversion : h.version <;> rw [hversion] at hcr <;> revert hcr <;> decide

/-- The lines of two heads in one text end in the same place. -/
lemma headerLines_inj {headers headers' : List Header} {last' body' : List UInt8}
    (hh : ∀ h ∈ headers, h.WellFormed) (hh' : ∀ h ∈ headers', h.WellFormed)
    (hlast : findCRLF last = none) (hcolon : 58 ∉ last) (hlast' : findCRLF last' = none)
    (hcolon' : 58 ∉ last') (heq : headerLines headers ++ (last ++ 13 :: 10 :: body) =
      headerLines headers' ++ (last' ++ 13 :: 10 :: body')) : last = last' := by
  have hcons : ∀ (h : Header) headers tail, headerLines (h :: headers) ++ tail =
      h.line ++ 13 :: 10 :: (headerLines headers ++ tail) := by
    intro h headers tail
    simp [headerLines]
  have hmem : ∀ h : Header, 58 ∈ h.line := fun h => by simp [Header.line]
  induction headers generalizing headers' with
  | nil =>
    cases headers' with
    | nil => exact (append_crlf_inj hlast hlast' heq).1
    | cons h' headers' =>
      rw [hcons] at heq
      obtain ⟨rfl, -⟩ := append_crlf_inj hlast (hh' h' List.mem_cons_self).line heq
      exact absurd (hmem h') hcolon
  | cons h headers ih =>
    rw [hcons] at heq
    obtain ⟨hwf, hh⟩ := List.forall_mem_cons.mp hh
    cases headers' with
    | nil =>
      obtain ⟨rfl, -⟩ := append_crlf_inj hwf.line hlast' heq
      exact absurd (hmem h) hcolon'
    | cons h' headers' =>
      rw [hcons] at heq
      obtain ⟨hwf', hh'⟩ := List.forall_mem_cons.mp hh'
      exact ih hh hh' (append_crlf_inj hwf.line hwf'.line heq).2

end Head

namespace HttpContext

variable {w : List UInt8} {t : ℤ} {p : Parse}

/-- What has been read when the headers have ended. -/
lemma exists_headers {req : HttpRequest}
    (hparse : parseRequest ⟨.kExpectHeaders, req⟩ w t = .ok p) (hall : p.context.gotAll = true) :
    ∃ headers last body, (∀ h ∈ headers, Header.WellFormed h) ∧ findCRLF last = none ∧
      58 ∉ last ∧ w = headerLines headers ++ (last ++ 13 :: 10 :: body) := by
  induction w using lines_induction generalizing req with
  | hlast w hw =>
    rw [parseRequest_wait (.inr rfl) hw] at hparse
    cases hparse
    cases hall
  | hline line rest hline ih =>
    by_cases hcolon : (58 : UInt8) ∈ line
    · obtain ⟨h, hh, rfl⟩ := HttpServer.exists_header hcolon hline
      rw [parseRequest_header hline (cut_append hh.field _)] at hparse
      obtain ⟨headers, last, body, hheaders, hlast, hlast', rfl⟩ := ih hparse
      refine ⟨h :: headers, last, body, List.forall_mem_cons.mpr ⟨hh, hheaders⟩, hlast, hlast', ?_⟩
      simp [headerLines]
    · exact ⟨[], line, rest, by simp, hline, hcolon, rfl⟩

/-- What an accepted text begins with. -/
lemma exists_lines (h : Accepts w t) : ∃ (h : Head) (last body : List UInt8), h.Valid ∧
    findCRLF h.requestLine = none ∧ findCRLF last = none ∧ 58 ∉ last ∧
    w = h.lines ++ (last ++ 13 :: 10 :: body) := by
  obtain ⟨p, hparse, -, hall⟩ := h
  cases hw : findCRLF w with
  | none =>
    rw [parseRequest_wait (.inl rfl) hw] at hparse
    cases hparse
    cases hall
  | some c =>
    obtain ⟨line, rest, rfl, hline, -⟩ := exists_line hw
    obtain ⟨⟨ok, r⟩, hr, hhead, -⟩ := HttpRequest.processRequestLine_of_invalid (r := .new) rfl line
    rw [new, parseRequest_line hline, hr, ok_bind] at hparse
    cases ok with
    | false =>
      cases hparse
      cases hall
    | true =>
      obtain ⟨h, hv, rfl⟩ := hhead.mp rfl
      obtain ⟨headers, last, body, hheaders, hlast, hcolon, rfl⟩ := exists_headers hparse hall
      refine ⟨{ h with headers }, last, body, { hv with headers := hheaders }, hline, hlast, hcolon,
        ?_⟩
      rw [Head.lines, List.append_assoc]
      rfl

variable {h : Head} {last body : List UInt8}

/-- A head whose request line is broken by a CRLF is rejected. -/
lemma not_accepts (hv : h.Valid) (hpre : h.text <+: w) (hline : findCRLF h.requestLine ≠ none) :
    ¬ Accepts w t := by
  intro hw
  obtain ⟨h', last, body, hv', hline', -, -, rfl⟩ := exists_lines hw
  obtain ⟨c, hc⟩ := Option.ne_none_iff_exists'.mp hline
  obtain ⟨line, rest, hbroken, hnone, -⟩ := exists_line hc
  obtain ⟨tail, htail⟩ := hpre
  have hlines : line ++ 13 :: 10 ::
      (rest ++ 13 :: 10 :: (headerLines h.headers ++ 13 :: 10 :: tail)) = h'.requestLine ++
      13 :: 10 :: (headerLines h'.headers ++ (last ++ 13 :: 10 :: body)) := by
    simpa [Head.text, Head.lines, hbroken] using htail
  obtain ⟨rfl, -⟩ := append_crlf_inj hnone hline' hlines
  exact Head.requestLine_ne_append hv hv' rest hbroken

lemma AcceptsGrammar.findCRLF_requestLine (hgrammar : AcceptsGrammar w t) (hv : h.Valid)
    (hpre : h.text <+: w) : findCRLF h.requestLine = none := by
  by_contra hline
  exact not_accepts hv hpre hline (hgrammar.1.mpr ⟨h, hv, hpre⟩)

lemma AcceptsGrammar.last_eq_nil
    (hgrammar : AcceptsGrammar (h.lines ++ (last ++ 13 :: 10 :: body)) t) (hv : h.Valid)
    (hline : findCRLF h.requestLine = none) (hlast : findCRLF last = none) (hcolon : 58 ∉ last) :
    last = [] := by
  have haccepted : Accepts (h.lines ++ (last ++ 13 :: 10 :: body)) t :=
    ⟨_, Head.parseRequest_lines hv hline hlast hcolon body t, rfl, rfl⟩
  -- The head with which the text begins has the same lines.
  obtain ⟨h', hv', hpre⟩ := hgrammar.1.mp haccepted
  have hline' := hgrammar.findCRLF_requestLine hv' hpre
  obtain ⟨body', hbody⟩ := hpre
  rw [Head.text, Head.lines, Head.lines] at hbody
  simp only [List.append_assoc, List.cons_append, List.nil_append] at hbody
  exact Head.headerLines_inj hv.headers hv'.headers hlast hcolon rfl List.not_mem_nil
    (append_crlf_inj hline hline' hbody.symm).2

/-- A text is accepted by the grammar, except when the request line of a head is broken by a CRLF,
and when the first line without a colon is not empty. -/
theorem accepts_grammar_iff (w : List UInt8) (t : ℤ) :
    AcceptsGrammar w t ↔
      (∀ h : Head, h.Valid → h.text <+: w → findCRLF h.requestLine = none) ∧
      ∀ h : Head, h.Valid → findCRLF h.requestLine = none →
        ∀ last, 58 ∉ last → findCRLF last = none → h.lines ++ last ++ [13, 10] <+: w →
          last = [] := by
  constructor
  · intro hgrammar
    refine ⟨fun h hv hpre => hgrammar.findCRLF_requestLine hv hpre, ?_⟩
    rintro h hv hline last hcolon hlast ⟨body, rfl⟩
    rw [List.append_assoc, List.append_assoc] at hgrammar
    exact hgrammar.last_eq_nil hv hline hlast hcolon
  · rintro ⟨hbroken, hempty⟩
    have hparse : ∀ h : Head, h.Valid → h.text <+: w → ∃ body, new.parseRequest w t =
        .ok ⟨⟨.kGotAll, (h.request body t).parsed⟩, body, true⟩ := by
      intro h hv hpre
      have hline := hbroken h hv hpre
      obtain ⟨body, rfl⟩ := hpre
      rw [Head.text, List.append_assoc]
      exact ⟨body, Head.parseRequest_lines hv hline rfl List.not_mem_nil body t⟩
    refine ⟨⟨fun haccepts => ?_, ?_⟩, ?_⟩
    · obtain ⟨h, last, body, hv, hline, hlast, hcolon, rfl⟩ := exists_lines haccepts
      have hnil := hempty h hv hline last hcolon hlast ⟨body, by simp⟩
      exact ⟨h, hv, body, by simp [Head.text, hnil]⟩
    · rintro ⟨h, hv, hpre⟩
      obtain ⟨body, hbody⟩ := hparse h hv hpre
      exact ⟨_, hbody, rfl, rfl⟩
    · intro h hv hpre
      obtain ⟨body, hbody⟩ := hparse h hv hpre
      exact ⟨_, hbody, Head.reads_request hv (hbroken h hv hpre) body t⟩

/-- A line that is not a header line ends the headers. -/
theorem not_acceptsGrammar_foo :
    ¬ AcceptsGrammar (ascii "GET / HTTP/1.1\r\nfoo\r\n\r\n") 0 := by
  intro hgrammar
  have hv : (Head.mk .kGet (ascii "/") .kHttp11 []).Valid :=
    ⟨by decide, by decide, by decide, by simp⟩
  have hfoo : ascii "foo" = [] := hgrammar.last_eq_nil hv (by decide) (by decide) (by decide)
  cases hfoo

end HttpContext

end Muduo

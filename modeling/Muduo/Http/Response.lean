import Muduo.Http.HttpMessage
import Muduo.Net.Buffer.Queue

/-!
# Responses that are read back

`appendToBuffer` writes a response into a buffer, one piece after another. What it has written
should give a client the response back: the status, the headers and the body. The pieces are counted
with an `int`, so that a string of `2 ^ 31` bytes is not written as it is.

## Main results

* `reads_back_iff`: a response is read back if and only if each of its strings is shorter than
  `2 ^ 31` bytes.
-/

namespace Muduo

open Machine RawBuffer

namespace HttpResponse

/-! ### What a client reads -/

/-- The text before the first empty line and the text behind it. -/
def cutBlank : List UInt8 → Option (List UInt8 × List UInt8)
  | [] => none
  | b :: l =>
    if [13, 10, 13, 10] <+: b :: l then some ([], l.drop 3)
    else (cutBlank l).map fun p => (b :: p.1, p.2)

/-- The lines of a text, without the CRLFs between them. -/
def lines : List UInt8 → List (List UInt8)
  | [] => [[]]
  | 13 :: 10 :: l => [] :: lines l
  | b :: l => ((b :: (lines l).headD [])) :: (lines l).tail

/-- The name and the value of a header line. -/
def readField (line : List UInt8) : Option (List UInt8 × List UInt8) :=
  match cut 58 line with
  | some (name, 32 :: value) => some (name, value)
  | _ => none

structure Reading where
  status : ℕ
  message : List UInt8
  headers : List (List UInt8 × List UInt8)
  body : List UInt8

def read (text : List UInt8) : Option Reading := do
  let (head, body) ← cutBlank text
  let (_, rest) ← cut 32 ((lines head).headD [])
  let (status, message) ← cut 32 rest
  let headers ← (lines head).tail.mapM readField
  return ⟨ofDigits status, message, headers, body⟩

/-- The text reads as the response. The header map is what is left without the headers that
`appendToBuffer` adds. -/
structure ReadsBack (r : HttpResponse) (reading : Reading) : Prop where
  status : reading.status = r.statusCode.value
  message : reading.message = r.statusMessage
  headers : (reading.headers.filter fun f =>
    f.1 ≠ ascii "Connection" ∧ f.1 ≠ ascii "Content-Length") = r.headers.toList
  connection : (reading.headers.filter fun f => f.1 = ascii "Connection") =
    [(ascii "Connection", if r.closeConnection then ascii "close" else ascii "Keep-Alive")]
  length : (reading.headers.filter fun f => f.1 = ascii "Content-Length") =
    if r.closeConnection then [] else [(ascii "Content-Length", decimal r.body.length)]
  body : reading.body = r.body

/-- A response with nothing in it that is part of the format. -/
structure Plain (r : HttpResponse) : Prop where
  message : 13 ∉ r.statusMessage ∧ 10 ∉ r.statusMessage
  name : ∀ f ∈ r.headers.toList, 13 ∉ f.1 ∧ 10 ∉ f.1 ∧ 58 ∉ f.1
  names : ∀ f ∈ r.headers.toList, f.1 ≠ ascii "Connection" ∧ f.1 ≠ ascii "Content-Length"
  value : ∀ f ∈ r.headers.toList, 13 ∉ f.2 ∧ 10 ∉ f.2
  body : r.body.length < 10 ^ 13

/-- The response can be read back from what is written into a new buffer. -/
def WritesBack (r : HttpResponse) : Prop :=
  Yields (r.appendToBuffer RawBuffer.new) fun output =>
    ∃ text reading, output.Represents text ∧ read text = some reading ∧ r.ReadsBack reading

/-! ### Lines and fields -/

variable {line rest body : List UInt8} {ls : List (List UInt8)}

/-- The lines with CRLFs between them. -/
def joinLines (line : List UInt8) : List (List UInt8) → List UInt8
  | [] => line
  | next :: ls => line ++ 13 :: 10 :: joinLines next ls

lemma lines_cons {b : UInt8} (h : b ≠ 13) (l : List UInt8) :
    lines (b :: l) = (b :: (lines l).headD []) :: (lines l).tail := by
  rw [lines]
  rintro l' rfl
  exact absurd rfl h

lemma lines_of_not_mem (h : 13 ∉ line) : lines line = [line] := by
  induction line with
  | nil => rfl
  | cons b line ih =>
    have hb := List.ne_of_not_mem_cons h
    have hline := List.not_mem_of_not_mem_cons h
    rw [lines_cons (Ne.symm hb), ih hline]
    rfl

lemma lines_append (h : 13 ∉ line) (rest : List UInt8) :
    lines (line ++ 13 :: 10 :: rest) = line :: lines rest := by
  induction line with
  | nil => rfl
  | cons b line ih =>
    have hb := List.ne_of_not_mem_cons h
    have hline := List.not_mem_of_not_mem_cons h
    rw [List.cons_append, lines_cons (Ne.symm hb), ih hline]
    rfl

lemma lines_joinLines (h : ∀ l ∈ line :: ls, 13 ∉ l) : lines (joinLines line ls) = line :: ls := by
  induction ls generalizing line with
  | nil => exact lines_of_not_mem (h line List.mem_cons_self)
  | cons next ls ih =>
    obtain ⟨hline, hls⟩ := List.forall_mem_cons.mp h
    rw [joinLines, lines_append hline, ih hls]

/-- No empty line begins in a line. -/
lemma cutBlank_append (h : 13 ∉ line) (rest : List UInt8) :
    cutBlank (line ++ rest) = (cutBlank rest).map fun p => (line ++ p.1, p.2) := by
  induction line with
  | nil => simp
  | cons b line ih =>
    have hb := List.ne_of_not_mem_cons h
    have hline := List.not_mem_of_not_mem_cons h
    rw [List.cons_append, cutBlank, if_neg (by simp [hb]), ih hline, Option.map_map]
    rfl

/-- The text of some lines, with an empty line and a body behind them. -/
lemma cutBlank_lines (h : ∀ l ∈ line :: ls, 13 ∉ l) (hls : ∀ l ∈ ls, l ≠ []) (body : List UInt8) :
    cutBlank ((line :: ls).flatMap (· ++ [13, 10]) ++ 13 :: 10 :: body) =
      some (joinLines line ls, body) := by
  induction ls generalizing line with
  | nil =>
    rw [List.flatMap_singleton, List.append_assoc, cutBlank_append (h line List.mem_cons_self)]
    simp [cutBlank, joinLines]
  | cons next ls ih =>
    obtain ⟨hline, hrest⟩ := List.forall_mem_cons.mp h
    obtain ⟨hne, hls'⟩ := List.forall_mem_cons.mp hls
    obtain ⟨b, bs, rfl⟩ := List.exists_cons_of_ne_nil hne
    have hb : (13 : UInt8) ≠ b := List.ne_of_not_mem_cons (hrest _ List.mem_cons_self)
    have hcut := ih hrest hls'
    rw [List.flatMap_cons, List.append_assoc, List.append_assoc, cutBlank_append hline]
    change ((cutBlank (13 :: 10 :: (List.flatMap (· ++ [13, 10]) ((b :: bs) :: ls) ++
      13 :: 10 :: body))).map _) = _
    rw [cutBlank, if_neg (by simp [hb]), cutBlank, if_neg (by simp), hcut]
    rfl

lemma mapM_readField {fields : List (List UInt8 × List UInt8)} (h : ∀ f ∈ fields, 58 ∉ f.1) :
    (fields.map fun f => f.1 ++ ascii ": " ++ f.2).mapM readField = some fields := by
  induction fields with
  | nil => rfl
  | cons f fields ih =>
    obtain ⟨hf, hfields⟩ := List.forall_mem_cons.mp h
    have hread : readField (f.1 ++ ascii ": " ++ f.2) = some f := by
      have hcut : cut 58 (f.1 ++ ascii ": " ++ f.2) = some (f.1, 32 :: f.2) := by
        rw [List.append_assoc]
        exact cut_append hf _
      rw [readField, hcut]
      rfl
    rw [List.map_cons, List.mapM_cons, hread, ih hfields]
    rfl

/-! ### The text of a response -/

/-- The text with these headers. -/
def text (status : ℕ) (message : List UInt8) (fields : List (List UInt8 × List UInt8))
    (body : List UInt8) : List UInt8 :=
  ((ascii "HTTP/1.1 " ++ decimal status ++ ascii " " ++ message) ::
    fields.map fun f => f.1 ++ ascii ": " ++ f.2).flatMap (· ++ [13, 10]) ++ 13 :: 10 :: body

/-- The headers that `appendToBuffer` adds. -/
def framing (r : HttpResponse) : List (List UInt8 × List UInt8) :=
  if r.closeConnection then [(ascii "Connection", ascii "close")]
  else [(ascii "Content-Length", decimal r.body.length), (ascii "Connection", ascii "Keep-Alive")]

lemma read_text {status : ℕ} {message : List UInt8} {fields : List (List UInt8 × List UInt8)}
    (hmessage : 13 ∉ message) (hfields : ∀ f ∈ fields, 13 ∉ f.1 ∧ 58 ∉ f.1 ∧ 13 ∉ f.2)
    (body : List UInt8) :
    read (text status message fields body) = some ⟨status, message, fields, body⟩ := by
  have hdigit : ∀ b, isDigit b = false → b ∉ decimal status := by
    intro b hb hmem
    rw [isDigit_of_mem_decimal b hmem] at hb
    cases hb
  let line := ascii "HTTP/1.1 " ++ decimal status ++ ascii " " ++ message
  let ls := fields.map fun f => f.1 ++ ascii ": " ++ f.2
  have hline : line = ascii "HTTP/1.1" ++ 32 :: (decimal status ++ 32 :: message) := by
    simp [line, ascii]
  have hcr : ∀ l ∈ line :: ls, 13 ∉ l := by
    refine List.forall_mem_cons.mpr ⟨?_, ?_⟩
    · rw [hline]
      simp [hdigit 13 (by decide), hmessage, ascii]
    · simp only [ls, List.mem_map]
      rintro l ⟨f, hf, rfl⟩
      obtain ⟨hname, -, hvalue⟩ := hfields f hf
      simp [hname, hvalue, ascii]
  have hne : ∀ l ∈ ls, l ≠ [] := by
    simp only [ls, List.mem_map]
    rintro l ⟨f, -, rfl⟩
    simp [ascii]
  have hblank : cutBlank (text status message fields body) = some (joinLines line ls, body) :=
    cutBlank_lines hcr hne body
  have hcut : cut 32 line = some (ascii "HTTP/1.1", decimal status ++ 32 :: message) := by
    rw [hline]
    exact cut_append (by decide) _
  have hcut' : cut 32 (decimal status ++ 32 :: message) = some (decimal status, message) :=
    cut_append (hdigit 32 (by decide)) _
  have hread : ls.mapM readField = some fields := mapM_readField fun f hf => (hfields f hf).2.1
  simp [read, hblank, lines_joinLines hcr, hcut, hcut', hread, ofDigits_decimal]

variable {r : HttpResponse}

def cutField (f : List UInt8 × List UInt8) : List UInt8 × List UInt8 := (cutPiece f.1, cutPiece f.2)

/-- What the pieces make, with every string cut to what an `int` can count. -/
lemma flatMap_pieces (h : r.body.length < 10 ^ 13) :
    r.pieces.flatMap cutPiece = text r.statusCode.value (cutPiece r.statusMessage)
      (r.framing ++ r.headers.toList.map cutField) (cutPiece r.body) := by
  have hstatus : cutPiece (snprintf 32 (ascii "HTTP/1.1 " ++ decimal r.statusCode.value ++
      ascii " ")) = ascii "HTTP/1.1 " ++ decimal r.statusCode.value ++ ascii " " := by
    cases r.statusCode <;> decide +kernel
  have hcount : cutPiece (snprintf 32 (ascii "Content-Length: " ++ decimal r.body.length ++
      ascii "\r\n")) =
      ascii "Content-Length" ++ ascii ": " ++ decimal r.body.length ++ [13, 10] := by
    have hdigits : (decimal r.body.length).length ≤ 12 + 1 := length_decimal_le h
    have hlen : (ascii "Content-Length: " ++ decimal r.body.length ++
        ascii "\r\n").length ≤ 31 := by
      simp [ascii]
      omega
    rw [snprintf, List.take_of_length_le hlen, cutPiece_eq_self (by omega)]
    rfl
  have hcrlf : cutPiece (ascii "\r\n") = [13, 10] := by decide
  have hcolon : cutPiece (ascii ": ") = ascii ": " := by decide
  have hclose : cutPiece (ascii "Connection: close\r\n") =
      ascii "Connection" ++ ascii ": " ++ ascii "close" ++ [13, 10] := by decide
  have hkeep : cutPiece (ascii "Connection: Keep-Alive\r\n") =
      ascii "Connection" ++ ascii ": " ++ ascii "Keep-Alive" ++ [13, 10] := by decide
  rw [pieces, text, framing]
  cases r.closeConnection with
  | false =>
    simp only [List.flatMap_append, List.flatMap_cons, List.flatMap_nil, List.flatMap_assoc,
      hstatus, hcount, hcrlf, hcolon, hkeep, if_false, Bool.false_eq_true]
    simp [List.flatMap_map, cutField]
  | true =>
    simp only [List.flatMap_append, List.flatMap_cons, List.flatMap_nil, List.flatMap_assoc,
      hstatus, hcrlf, hcolon, hclose, if_true]
    simp [List.flatMap_map, cutField]

/-! ### Reading back -/

/-- Every string is shorter than an `int` can count. -/
structure Short (r : HttpResponse) : Prop where
  message : r.statusMessage.length < 2 ^ 31
  headers : ∀ f ∈ r.headers.toList, f.1.length < 2 ^ 31 ∧ f.2.length < 2 ^ 31
  body : r.body.length < 2 ^ 31

lemma length_snprintf_lt (str : List UInt8) : (snprintf 32 str).length < 2 ^ 31 := by
  rw [snprintf, List.length_take]
  omega

/-- The pieces that are not strings of the response are short. -/
lemma mem_pieces {str : List UInt8} (hstr : str ∈ r.pieces) : str.length < 2 ^ 31 ∨
    str = r.statusMessage ∨ (∃ f ∈ r.headers.toList, str = f.1 ∨ str = f.2) ∨ str = r.body := by
  rw [pieces, List.mem_append, List.mem_append, List.mem_append] at hstr
  rcases hstr with ((hstr | hstr) | hstr) | hstr
  · simp only [List.mem_cons, List.not_mem_nil, or_false] at hstr
    rcases hstr with rfl | rfl | rfl
    · exact .inl (length_snprintf_lt _)
    · exact .inr (.inl rfl)
    · exact .inl (by decide)
  · split at hstr
    · rw [List.mem_singleton.mp hstr]
      exact .inl (by decide)
    · simp only [List.mem_cons, List.not_mem_nil, or_false] at hstr
      rcases hstr with rfl | rfl
      · exact .inl (length_snprintf_lt _)
      · exact .inl (by decide)
  · obtain ⟨f, hf, hstr⟩ := List.mem_flatMap.mp hstr
    simp only [List.mem_cons, List.not_mem_nil, or_false] at hstr
    rcases hstr with rfl | rfl | rfl | rfl
    · exact .inr (.inr (.inl ⟨f, hf, .inl rfl⟩))
    · exact .inl (by decide)
    · exact .inr (.inr (.inl ⟨f, hf, .inr rfl⟩))
    · exact .inl (by decide)
  · simp only [List.mem_cons, List.not_mem_nil, or_false] at hstr
    rcases hstr with rfl | rfl
    · exact .inl (by decide)
    · exact .inr (.inr (.inr rfl))

lemma Short.pieces (h : r.Short) : ∀ str ∈ r.pieces, str.length < 2 ^ 31 := by
  intro str hstr
  rcases mem_pieces hstr with hlt | rfl | ⟨f, hf, rfl | rfl⟩ | rfl
  · exact hlt
  · exact h.message
  · exact (h.headers f hf).1
  · exact (h.headers f hf).2
  · exact h.body

lemma Short.flatMap_pieces (h : r.Short) : r.pieces.flatMap cutPiece = r.serialize := by
  rw [serialize, ← List.flatMap_id]
  exact List.flatMap_congr fun str hstr => cutPiece_eq_self (h.pieces str hstr)

/-- What the pieces read as. -/
lemma read_pieces (h : r.Plain) : read (r.pieces.flatMap cutPiece) = some
    ⟨r.statusCode.value, cutPiece r.statusMessage,
      r.framing ++ r.headers.toList.map cutField, cutPiece r.body⟩ := by
  have hcut : ∀ {b : UInt8} {str : List UInt8}, b ∉ str → b ∉ cutPiece str :=
    fun hb hmem => hb (List.mem_of_mem_take hmem)
  have hdigit : 13 ∉ decimal r.body.length := fun hmem => by
    cases isDigit_of_mem_decimal 13 hmem
  rw [flatMap_pieces h.body]
  refine read_text (hcut h.message.1) ?_ _
  intro f hf
  rcases List.mem_append.mp hf with hf | hf
  · unfold framing at hf
    split at hf
    · rw [List.mem_singleton.mp hf]
      decide
    · simp only [List.mem_cons, List.not_mem_nil, or_false] at hf
      rcases hf with rfl | rfl
      · have hname : 13 ∉ ascii "Content-Length" ∧ 58 ∉ ascii "Content-Length" := by decide
        exact ⟨hname.1, hname.2, hdigit⟩
      · decide
  · obtain ⟨g, hg, rfl⟩ := List.mem_map.mp hf
    have hname := h.name g hg
    exact ⟨hcut hname.1, hcut hname.2.2, hcut (h.value g hg).1⟩

lemma length_lt_of_cutPiece {str : List UInt8} (hint : str.length % 2 ^ 32 < 2 ^ 31)
    (h : cutPiece str = str) : str.length < 2 ^ 31 := by
  have := length_cutPiece str
  rw [h] at this
  omega

lemma short_of_readsBack (hint : ∀ str ∈ r.pieces, str.length % 2 ^ 32 < 2 ^ 31)
    (h : r.ReadsBack ⟨r.statusCode.value, cutPiece r.statusMessage,
      r.framing ++ r.headers.toList.map cutField, cutPiece r.body⟩) : r.Short := by
  have hframing : (r.framing.filter fun f =>
      f.1 ≠ ascii "Connection" ∧ f.1 ≠ ascii "Content-Length") = [] := by
    rw [framing]
    split <;> rfl
  have hfields : r.headers.toList.map cutField = r.headers.toList := by
    have hheaders := h.headers
    rw [List.filter_append, hframing, List.nil_append] at hheaders
    -- Nothing was filtered out, since the map has as many headers.
    have hall := List.filter_sublist.eq_of_length
      ((congrArg List.length hheaders).trans (List.length_map _).symm)
    exact hall.symm.trans hheaders
  constructor
  · exact length_lt_of_cutPiece (hint _ (by simp [pieces])) h.message
  · intro f hf
    have hcut : cutField f = f := List.map_inj_left.mp (hfields.trans (List.map_id _).symm) f hf
    have hmem : ∀ str ∈ [f.1, ascii ": ", f.2, ascii "\r\n"], str ∈ r.pieces := fun str hstr =>
      List.mem_append_left _ (List.mem_append_right _ (List.mem_flatMap_of_mem hf hstr))
    exact ⟨length_lt_of_cutPiece (hint _ (hmem _ (by simp))) (congrArg Prod.fst hcut),
      length_lt_of_cutPiece (hint _ (hmem _ (by simp))) (congrArg Prod.snd hcut)⟩
  · exact length_lt_of_cutPiece (hint _ (by simp [pieces])) h.body

lemma readsBack_of_short (h : r.Plain) (hshort : r.Short) :
    r.ReadsBack ⟨r.statusCode.value, cutPiece r.statusMessage,
      r.framing ++ r.headers.toList.map cutField, cutPiece r.body⟩ := by
  have hfields : r.headers.toList.map cutField = r.headers.toList := by
    refine (List.map_congr_left fun f hf => ?_).trans (List.map_id _)
    have := hshort.headers f hf
    exact Prod.ext (cutPiece_eq_self this.1) (cutPiece_eq_self this.2)
  rw [hfields, cutPiece_eq_self hshort.message, cutPiece_eq_self hshort.body]
  have hmap : (r.headers.toList.filter fun f =>
      f.1 ≠ ascii "Connection" ∧ f.1 ≠ ascii "Content-Length") = r.headers.toList :=
    List.filter_eq_self.mpr fun f hf => by simpa using h.names f hf
  have hconnection : (r.headers.toList.filter fun f => f.1 = ascii "Connection") = [] :=
    List.filter_eq_nil_iff.mpr fun f hf => by simpa using (h.names f hf).1
  have hlength : (r.headers.toList.filter fun f => f.1 = ascii "Content-Length") = [] :=
    List.filter_eq_nil_iff.mpr fun f hf => by simpa using (h.names f hf).2
  refine ⟨rfl, rfl, ?_, ?_, ?_, rfl⟩
  · rw [List.filter_append, hmap, framing]
    split <;> rfl
  · rw [List.filter_append, hconnection, framing]
    split <;> rfl
  · rw [List.filter_append, hlength, framing]
    split <;> rfl

lemma short_of_writesBack (h : r.Plain) (hwrites : r.WritesBack) :
    r.Short ∧ kCheapPrepend + r.serialize.length ≤ maxSize := by
  have hnew : Represents RawBuffer.new [] := Represents.new (by decide)
  obtain ⟨output, hok, text, reading, hrep, hread, hback⟩ := hwrites
  rw [appendToBuffer_eq] at hok
  obtain ⟨hint, hfit⟩ := hnew.appendPieces_ok rfl hok
  obtain ⟨output', hok', hrep'⟩ := hnew.appendPieces rfl hint hfit
  cases hok.symm.trans hok'
  rw [List.nil_append] at hfit hrep'
  rw [← hrep.readable_eq, hrep'.readable_eq, read_pieces h] at hread
  cases hread
  have hshort := short_of_readsBack hint hback
  rw [hshort.flatMap_pieces] at hfit
  exact ⟨hshort, hfit⟩

/-- A response is read back if and only if its strings are shorter than `2 ^ 31` bytes, as long as
it fits into a vector. -/
theorem reads_back_iff (h : r.Plain) :
    r.WritesBack ↔ r.Short ∧ kCheapPrepend + r.serialize.length ≤ maxSize := by
  refine ⟨short_of_writesBack h, ?_⟩
  rintro ⟨hshort, hfit⟩
  have hnew : Represents RawBuffer.new [] := Represents.new (by decide)
  have hint : ∀ str ∈ r.pieces, str.length % 2 ^ 32 < 2 ^ 31 :=
    fun str hstr => (Nat.mod_le ..).trans_lt (hshort.pieces str hstr)
  rw [← hshort.flatMap_pieces] at hfit
  obtain ⟨output, hok, hrep⟩ := hnew.appendPieces rfl hint hfit
  rw [WritesBack, appendToBuffer_eq]
  exact ⟨output, hok, _, _, hrep, read_pieces h, readsBack_of_short h hshort⟩

/-- A page with one header. -/
def page : HttpResponse where
  headers := StringMap.assign .empty (ascii "Server") (ascii "Muduo")
  statusCode := .k200Ok
  statusMessage := ascii "OK"
  closeConnection := false
  body := ascii "Hello"

theorem reads_back_page : page.WritesBack := by
  have hplain : page.Plain := ⟨by decide +kernel, by decide +kernel, by decide +kernel,
    by decide +kernel, by decide +kernel⟩
  have hshort : page.Short := ⟨by decide +kernel, by decide +kernel, by decide +kernel⟩
  exact (reads_back_iff hplain).mpr ⟨hshort, by decide +kernel⟩

/-- A page that is kept alive, with this body. -/
def zeros (n : ℕ) : HttpResponse :=
  { HttpResponse.new false with
    statusCode := .k200Ok, statusMessage := ascii "OK", body := List.replicate n 0 }

lemma plain_zeros {n : ℕ} (h : n < 10 ^ 13) : (zeros n).Plain where
  message := by
    have : 13 ∉ ascii "OK" ∧ 10 ∉ ascii "OK" := by decide
    exact this
  name := nofun
  names := nofun
  value := nofun
  body := List.length_replicate.trans_lt h

/-- Nothing of a body of `2 ^ 32` bytes is written behind the header that says how long it is. -/
theorem not_writesBack_zeros : ¬ (zeros (2 ^ 32)).WritesBack ∧
    Yields ((zeros (2 ^ 32)).appendToBuffer RawBuffer.new) fun output => output.Represents (ascii
      "HTTP/1.1 200 OK\r\nContent-Length: 4294967296\r\nConnection: Keep-Alive\r\n\r\n") := by
  have hplain : (zeros (2 ^ 32)).Plain := plain_zeros (by norm_num)
  have hbody : (zeros (2 ^ 32)).body.length = 2 ^ 32 := List.length_replicate
  constructor
  · intro hwrites
    have hshort := (short_of_writesBack hplain hwrites).1.body
    rw [hbody] at hshort
    norm_num at hshort
  · have hnew : Represents RawBuffer.new [] := Represents.new (by decide)
    have hint : ∀ str ∈ (zeros (2 ^ 32)).pieces, str.length % 2 ^ 32 < 2 ^ 31 := by
      intro str hstr
      rcases mem_pieces hstr with hlt | rfl | ⟨f, hf, -⟩ | rfl
      · exact (Nat.mod_le ..).trans_lt hlt
      · decide
      · cases hf
      · rw [hbody, Nat.mod_self]
        norm_num
    have htext : (zeros (2 ^ 32)).pieces.flatMap cutPiece = ascii
        "HTTP/1.1 200 OK\r\nContent-Length: 4294967296\r\nConnection: Keep-Alive\r\n\r\n" := by
      have hcut : cutPiece (zeros (2 ^ 32)).body = [] := by
        rw [cutPiece, hbody, Nat.mod_self, List.take_zero]
      have hframing : (zeros (2 ^ 32)).framing = [(ascii "Content-Length", decimal (2 ^ 32)),
          (ascii "Connection", ascii "Keep-Alive")] := by
        rw [framing, hbody]
        rfl
      rw [flatMap_pieces hplain.body, hcut, hframing]
      change text 200 (cutPiece (ascii "OK")) ([(ascii "Content-Length", decimal (2 ^ 32)),
          (ascii "Connection", ascii "Keep-Alive")] ++ []) [] = _
      decide +kernel
    rw [appendToBuffer_eq]
    have hyields := hnew.appendPieces rfl hint
    rw [htext] at hyields
    exact hyields (by decide +kernel)

end HttpResponse
end Muduo

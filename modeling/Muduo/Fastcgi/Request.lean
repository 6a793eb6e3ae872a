import Muduo.Fastcgi.Params

/-!
# The records of a request

`View.handle` says what a record does to the codec. The records of a stream are handled one after
another, in whatever chunks the stream arrives.

## Main results

* `params_round_trip`: the parameters that are encoded are those in the map, however they are cut
  into records and the records into chunks; and whatever the records hold, parsing the parameters
  comes to its end.
-/

namespace Muduo.FastCgiCodec

open Machine Fcgi

/-- What a record does. -/
def View.handle (v : View) (r : Record) : View :=
  if r.type = FcgiType.kFcgiBeginRequest.value then
    if kRecordHeader ≤ r.content.length ∧ ofBeBytes (r.content.take 2) = kFcgiResponder then
      { v with keepConn := r.content.getD 2 0 = kFcgiKeepConn }
    else
      v
  else if r.type = FcgiType.kFcgiParams.value then
    if 0 < r.content.length then
      { v with paramsStream := v.paramsStream ++ r.content }
    else
      v.parseAllParams.2
  else if r.type = FcgiType.kFcgiStdin.value then
    if 0 < r.content.length then
      { v with stdin := v.stdin ++ r.content }
    else
      { v with gotRequest := true }
  else
    v

variable {r : Record} {buf : Buffer} {rest : List UInt8}

/-! ### One record -/

lemma onParams_spec (c : FastCgiCodec) (content : List UInt8) :
    Yields (c.onParams content) fun t => t.2.view =
      if 0 < content.length then { c.view with paramsStream := c.view.paramsStream ++ content }
      else c.view.parseAllParams.2 := by
  rw [onParams]
  split
  · obtain ⟨stream, hstream, hreadable⟩ := c.paramsStream.append_spec content
    rw [hstream, ok_bind]
    exact ⟨_, rfl, congrArg (fun l => { c.view with paramsStream := l }) hreadable⟩
  · obtain ⟨t, ht, hview⟩ := c.parseAllParams_spec
    exact ⟨t, ht, congrArg Prod.snd hview⟩

lemma onStdin_spec (c : FastCgiCodec) (content : List UInt8) :
    Yields (c.onStdin content) fun t => t.view =
      if 0 < content.length then { c.view with stdin := c.view.stdin ++ content }
      else { c.view with gotRequest := true } := by
  rw [onStdin]
  split
  · obtain ⟨stdin, hstdin, hreadable⟩ := c.stdin.append_spec content
    rw [hstdin, ok_bind]
    exact ⟨_, rfl, congrArg (fun l => { c.view with stdin := l }) hreadable⟩
  · exact ⟨_, rfl, rfl⟩

lemma drop_readable (hbuf : buf.readable = r.bytes ++ rest) :
    buf.readable.drop kRecordHeader = r.content ++ (r.padding ++ rest) := by
  rw [hbuf, drop_bytes]

lemma onBeginRequest_spec (c : FastCgiCodec) (hbuf : buf.readable = r.bytes ++ rest)
    (htype : r.type = FcgiType.kFcgiBeginRequest.value) :
    Yields (c.onBeginRequest r.header buf) fun t => t.2.view = c.view.handle r := by
  have hreadable : buf.readableBytes = r.bytes.length + rest.length := by
    rw [← Buffer.length_readable, hbuf, List.length_append]
  rw [r.length_bytes] at hreadable
  have hdrop := drop_readable hbuf
  have hheader : r.header.type = FcgiType.kFcgiBeginRequest.value := htype
  rw [onBeginRequest, r.length_header, check_of (by omega), ok_bind, check_of hheader, ok_bind,
    View.handle, if_pos htype]
  by_cases hlen : kRecordHeader ≤ r.content.length
  · have hlen' : 8 ≤ r.content.length := hlen
    have hrole : readInt16 (buf.readable.drop kRecordHeader) = ofBeBytes (r.content.take 2) := by
      rw [hdrop, readInt16, List.take_append_of_le_length (by omega),
        swap16_ofLeBytes (by rw [List.length_take]; omega)]
    have hflags : buf.readable.getD (kRecordHeader + 2) 0 = r.content.getD 2 0 := by
      rw [List.getD_eq_getElem?_getD, ← List.getElem?_drop, hdrop,
        List.getElem?_append_left (by omega), List.getD_eq_getElem?_getD]
    rw [if_pos hlen, check_of (by omega), ok_bind]
    dsimp only
    rw [hrole, hflags]
    by_cases hresponder : ofBeBytes (r.content.take 2) = kFcgiResponder
    · rw [if_pos hresponder, if_pos ⟨hlen, hresponder⟩]
      exact ⟨_, rfl, rfl⟩
    · rw [if_neg hresponder, if_neg fun h => hresponder h.2]
      exact ⟨_, rfl, rfl⟩
  · rw [if_neg hlen, if_neg fun h => hlen h.1]
    exact ⟨_, rfl, rfl⟩

lemma onRecord_spec (c : FastCgiCodec) (hbuf : buf.readable = r.bytes ++ rest) :
    Yields (c.onRecord r.header buf) fun t => t.view = c.view.handle r := by
  have hcontent : (buf.readable.drop kRecordHeader).take r.header.length.toNat = r.content := by
    rw [drop_readable hbuf, r.length_header, List.take_left]
  rw [onRecord, hcontent]
  change Yields (if r.type = _ then _ else if r.type = _ then _ else if r.type = _ then _ else _) _
  split_ifs with hbegin hparams hstdin
  · obtain ⟨t, ht, hview⟩ := onBeginRequest_spec c hbuf hbegin
    exact ⟨t.2, by rw [ht]; rfl, hview⟩
  · obtain ⟨t, ht, hview⟩ := c.onParams_spec r.content
    exact ⟨t.2, by rw [ht]; rfl, hview.trans (by rw [View.handle, if_neg hbegin, if_pos hparams])⟩
  · obtain ⟨t, ht, hview⟩ := c.onStdin_spec r.content
    exact ⟨t, ht, hview.trans (by
      rw [View.handle, if_neg hbegin, if_neg hparams, if_pos hstdin])⟩
  · exact ⟨c, rfl, by rw [View.handle, if_neg hbegin, if_neg hparams, if_neg hstdin]⟩

/-! ### A stream of records -/

variable {c : FastCgiCodec}

/-- The loop takes the record at the front. -/
def TakesRecord (s t : FastCgiCodec × Buffer) : Prop :=
  ∃ r, nextRecord s.2.readable = some (r, t.2.readable) ∧ t.1.view = s.1.view.handle r

/-- The loop stops, since there is no record at the front. -/
def StopsRecords (s t : FastCgiCodec × Buffer) : Prop := nextRecord s.2.readable = none ∧ t = s

lemma recordRound_spec (s : FastCgiCodec × Buffer) :
    Yields (recordRound s) (Round.Leaves (StopsRecords s) (TakesRecord s)) := by
  obtain ⟨c, buf⟩ := s
  have hreadable := buf.length_readable
  rw [recordRound]
  dsimp only
  match hnext : nextRecord buf.readable with
  | none =>
    have hstop : StopsRecords (c, buf) (c, buf) := ⟨hnext, rfl⟩
    rw [nextRecord_eq_none] at hnext
    split
    · rw [if_neg (by omega)]
      exact ⟨_, rfl, hstop⟩
    · exact ⟨_, rfl, hstop⟩
  | some (r, rest) =>
    have hbuf := nextRecord_eq_some.mp hnext
    rw [hbuf, List.length_append, r.length_bytes] at hreadable
    obtain ⟨c', hc', hview⟩ := c.onRecord_spec hbuf
    have htotal : kRecordHeader + r.content.length + r.padding.length ≤ buf.readable.length := by
      rw [hbuf, List.length_append, r.length_bytes]
      omega
    obtain ⟨buf', hbuf', hrest⟩ := Buffer.retrieve_spec htotal
    rw [if_pos (by omega), hbuf, take_bytes, RecordHeader.ofNetwork_wire, r.length_header,
      r.padding_header, if_pos (by omega), hc', ok_bind, hbuf', ok_bind]
    refine ⟨_, rfl, r, ?_, hview⟩
    rw [hrest, hbuf, ← r.length_bytes, List.drop_left, ← hbuf, hnext]

lemma recordRound_lt (s t : FastCgiCodec × Buffer) (h : recordRound s = .ok (.again t)) :
    t.2.readableBytes < s.2.readableBytes := by
  obtain ⟨r, hnext, -⟩ := (recordRound_spec s).safe.of_ok h
  rw [← Buffer.length_readable, ← Buffer.length_readable]
  exact records.shorter hnext

/-- The codec handles the records that are there as a whole. -/
theorem parseRequest_spec (c : FastCgiCodec) (buf : Buffer) :
    Yields (parseRequest c buf) fun t =>
      t.1.view = (records.frames buf.readable).1.foldl View.handle c.view ∧
        t.2.readable = (records.frames buf.readable).2 := by
  refine loop_yields recordRound_lt
    (I := fun t => (records.frames t.2.readable).1.foldl View.handle t.1.view =
        (records.frames buf.readable).1.foldl View.handle c.view ∧
      (records.frames t.2.readable).2 = (records.frames buf.readable).2) ?_ ⟨rfl, rfl⟩
  rintro t ⟨hview, hrest⟩
  obtain ⟨round, hround, hleaves⟩ := recordRound_spec t
  refine ⟨round, hround, ?_⟩
  match round, hleaves with
  | .stop u, ⟨hnext, hu⟩ =>
    have hframes : records.frames t.2.readable = ([], t.2.readable) := Framing.frames_of_none hnext
    rw [hframes] at hview hrest
    subst hu
    exact ⟨hview, hrest⟩
  | .again u, ⟨r, hnext, hu⟩ =>
    have hframes : records.frames t.2.readable = (r :: _, _) := Framing.frames_of_some hnext
    rw [hframes] at hview hrest
    refine ⟨?_, hrest⟩
    rw [hu, ← hview]
    rfl

/-! ### A stream in chunks -/

variable {stream chunk : List UInt8} {s : Connection}

/-- The connection has got the bytes of `stream`, in which no request has ended. -/
structure Received (stream : List UInt8) (s : Connection) : Prop where
  view : s.codec.view = (records.frames stream).1.foldl View.handle new.view
  buf : s.buf.readable = (records.frames stream).2
  calls : s.calls = []

lemma received_connect : Received [] connect where
  view := by
    rw [Framing.frames_of_none Framing.next_nil]
    rfl
  buf := by
    rw [Framing.frames_of_none Framing.next_nil]
    rfl
  calls := rfl

lemma Received.receive (h : Received stream s)
    (hgot : ((records.frames (stream ++ chunk)).1.foldl View.handle new.view).gotRequest = false) :
    Yields (receive s chunk) (Received (stream ++ chunk)) := by
  obtain ⟨buf, hbuf, hreadable⟩ := s.buf.append_spec chunk
  obtain ⟨⟨c, buf'⟩, hparse, hview, hrest⟩ := parseRequest_spec s.codec buf
  have hframes := Framing.frames_append (F := records) stream chunk
  rw [← h.buf, ← hreadable] at hframes
  have hview' : c.view = (records.frames (stream ++ chunk)).1.foldl View.handle new.view := by
    rw [hframes, List.foldl_append, ← h.view]
    exact hview
  have hgot' : c.gotRequest = false := by
    rw [← hgot, ← hview']
    rfl
  refine ⟨⟨c, buf', s.calls⟩, ?_, hview', ?_, h.calls⟩
  · rw [FastCgiCodec.receive, hbuf, ok_bind, onMessage, hparse, ok_bind]
    dsimp only
    rw [hgot', if_neg Bool.false_ne_true]
    rfl
  · rw [hframes]
    exact hrest

/-! ### Streams of parameters -/

/-- The records that `onParams` is called for. -/
def IsParams (r : Record) : Prop := r.type = FcgiType.kFcgiParams.value

lemma View.handle_params {v : View} (h : IsParams r) :
    v.handle r = if 0 < r.content.length then { v with paramsStream := v.paramsStream ++ r.content }
      else v.parseAllParams.2 := by
  have htype : r.type = FcgiType.kFcgiParams.value := h
  have hbegin : r.type ≠ FcgiType.kFcgiBeginRequest.value := by
    rw [htype]
    decide
  rw [View.handle, if_neg hbegin, if_pos htype]

lemma gotRequest_foldl {rs : List Record} (h : ∀ r ∈ rs, IsParams r) (v : View) :
    (rs.foldl View.handle v).gotRequest = v.gotRequest := by
  induction rs generalizing v with
  | nil => rfl
  | cons r rs ih =>
    rw [List.foldl_cons, ih fun r' hr' => h r' (List.mem_cons_of_mem r hr'),
      View.handle_params (h r (List.mem_cons_self ..))]
    split <;> rfl

lemma foldl_handle_contents {rs : List Record} (h : ∀ r ∈ rs, IsParams r ∧ 0 < r.content.length)
    (v : View) :
    rs.foldl View.handle v =
      { v with paramsStream := v.paramsStream ++ (rs.map Record.content).flatten } := by
  induction rs generalizing v with
  | nil => simp
  | cons r rs ih =>
    obtain ⟨hr, hcontent⟩ := h r (List.mem_cons_self ..)
    rw [List.foldl_cons, ih fun r' hr' => h r' (List.mem_cons_of_mem r hr'),
      View.handle_params hr, if_pos hcontent]
    simp

lemma run_receive {chunks : List (List UInt8)} (h : Received stream s)
    (hparams : ∀ r ∈ (records.frames (stream ++ chunks.flatten)).1, IsParams r) :
    Yields (run receive s chunks) (Received (stream ++ chunks.flatten)) := by
  induction chunks generalizing stream s with
  | nil =>
    rw [List.flatten_nil, List.append_nil]
    exact ⟨s, rfl, h⟩
  | cons chunk chunks ih =>
    rw [List.flatten_cons, ← List.append_assoc] at hparams ⊢
    have hfirst : ∀ r ∈ (records.frames (stream ++ chunk)).1, IsParams r := by
      intro r hr
      refine hparams r ?_
      rw [Framing.frames_append]
      exact List.mem_append_left _ hr
    obtain ⟨t, ht, hreceived⟩ := h.receive (gotRequest_foldl hfirst new.view)
    rw [run_cons, ht, ok_bind]
    exact ih hreceived hparams

/-- The map of a list of parameters. The last one of a name counts. -/
def mapOf (ps : List Param) (name : List UInt8) : Option (List UInt8) :=
  ((ps.filter (·.1 = name)).getLast?).map Prod.snd

lemma foldl_insertParam (ps : List Param) : ps.foldl insertParam (fun _ => none) = mapOf ps := by
  induction ps using List.reverseRecOn with
  | nil => rfl
  | append_singleton ps p ih =>
    funext name
    rw [List.foldl_append, ih, mapOf, List.filter_append]
    by_cases hname : p.1 = name
    · subst hname
      simp [insertParam]
    · simp [insertParam, hname, Function.update_of_ne (Ne.symm hname), mapOf]

/-- The contents of the records `rs` are the encoded parameters `ps`, the record `last` is empty,
and the chunks are all these records. -/
structure Carries (ps : List Param) (rs : List Record) (last : Record)
    (chunks : List (List UInt8)) : Prop where
  lengths : ∀ p ∈ ps, p.1.length < 2 ^ 31 ∧ p.2.length < 2 ^ 31
  params : ∀ r ∈ rs, IsParams r ∧ 0 < r.content.length
  contents : (rs.map Record.content).flatten = (ps.map encodeParam).flatten
  last_params : IsParams last
  last_empty : last.content = []
  chunks : chunks.flatten = ((rs ++ [last]).map Record.bytes).flatten

variable {ps : List Param} {rs : List Record} {last : Record} {chunks : List (List UInt8)}

lemma Carries.frames (h : Carries ps rs last chunks) :
    records.frames chunks.flatten = (rs ++ [last], []) := by
  rw [h.chunks]
  exact Framing.frames_flatten fun r _ y => nextRecord_eq_some.mpr rfl

lemma Carries.isParams (h : Carries ps rs last chunks) : ∀ r ∈ rs ++ [last], IsParams r := by
  intro r hr
  obtain hr | hr := List.mem_append.mp hr
  · exact (h.params r hr).1
  · rw [List.mem_singleton.mp hr]
    exact h.last_params

lemma Carries.view (h : Carries ps rs last chunks) :
    (rs ++ [last]).foldl View.handle new.view = { new.view with params := mapOf ps } := by
  have hframes : Fcgi.params.frames (ps.map encodeParam).flatten = (ps, []) :=
    Framing.frames_flatten fun p hp => decodeParam_encodeParam (h.lengths p hp).1 (h.lengths p hp).2
  have hstream : new.view.paramsStream ++ (ps.map encodeParam).flatten =
      (ps.map encodeParam).flatten := rfl
  rw [List.foldl_append, List.foldl_cons, List.foldl_nil, foldl_handle_contents h.params,
    View.handle_params h.last_params, h.last_empty, h.contents, if_neg (by simp),
    View.parseAllParams, hstream, hframes, ← foldl_insertParam]
  rfl

lemma parseAllParams_suffix (c : FastCgiCodec) :
    Yields c.parseAllParams fun t => t.2.paramsStream.readable <:+ c.paramsStream.readable ∧
      (t.1 = true → t.2.paramsStream.readable = []) := by
  obtain ⟨⟨b, t⟩, ht, hview⟩ := c.parseAllParams_spec
  have hflag : b = c.view.parseAllParams.1 := congrArg Prod.fst hview
  have hstream :
      t.paramsStream.readable = leftover (Fcgi.params.frames c.paramsStream.readable).2 :=
    congrArg (View.paramsStream ∘ Prod.snd) hview
  refine ⟨(b, t), ht, ?_, fun htrue => ?_⟩
  · dsimp only
    rw [hstream]
    exact (leftover_suffix _).trans (Framing.frames_suffix decodeParam_suffix _)
  · dsimp only at htrue ⊢
    have hrest : (Fcgi.params.frames c.paramsStream.readable).2 = [] :=
      of_decide_eq_true (hflag.symm.trans htrue)
    rw [hstream, hrest]
    rfl

/-- The parameters are cut into records in any way, and the records into chunks. Whatever the stream
of parameters holds, its parser comes to an end, takes bytes that are there, and adds up two lengths
without wrapping around. -/
theorem params_round_trip :
    (∀ ps rs last chunks, Carries ps rs last chunks →
      Yields (run receive connect chunks) fun s =>
        s.codec.params = mapOf ps ∧ s.codec.paramsStream.readable = [] ∧ s.buf.readable = []) ∧
    (∀ c : FastCgiCodec, Yields c.parseAllParams fun t =>
      t.2.paramsStream.readable <:+ c.paramsStream.readable ∧
        (t.1 = true → t.2.paramsStream.readable = [])) ∧
    (∀ (stream₀ stream₁ stream₂ : Buffer) (nameLen valueLen : BitVec 32),
      readLen stream₀ = .ok (nameLen, stream₁) → nameLen ≠ -1#32 →
      readLen stream₁ = .ok (valueLen, stream₂) → valueLen ≠ -1#32 →
      (nameLen + valueLen).toNat = nameLen.toNat + valueLen.toNat) := by
  refine ⟨?_, parseAllParams_suffix, ?_⟩
  · intro ps rs last chunks h
    have hparams : ∀ r ∈ (records.frames ([] ++ chunks.flatten)).1, IsParams r := by
      rw [List.nil_append, h.frames]
      exact h.isParams
    obtain ⟨s, hs, hreceived⟩ := run_receive received_connect hparams
    rw [List.nil_append] at hreceived
    have hview := hreceived.view
    rw [h.frames, h.view] at hview
    refine ⟨s, hs, congrArg View.params hview, congrArg View.paramsStream hview, ?_⟩
    rw [hreceived.buf, h.frames]
  · intro stream₀ stream₁ stream₂ nameLen valueLen hname hnameLen hvalue hvalueLen
    exact toNat_add_of_lt (readLen_lt hname hnameLen) (readLen_lt hvalue hvalueLen)

/-- Two parameters of one name in two records, in chunks that end within a header. -/
theorem params_round_trip_chunks :
    let ps : List Param := [([65], [66, 67]), ([65], [])]
    let rs : List Record := [
      ⟨1, 4, 1, [1, 2, 65, 66], [0, 0, 0, 0], 0, by decide, by decide⟩,
      ⟨1, 4, 1, [67, 1, 0, 65], [], 0, by decide, by decide⟩]
    let last : Record := ⟨1, 4, 1, [], [], 0, by decide, by decide⟩
    let chunks : List (List UInt8) := [
      [1, 4, 0], [1, 0, 4, 4, 0, 1, 2, 65, 66, 0, 0, 0, 0, 1, 4, 0, 1, 0, 4, 0, 0, 67, 1],
      [0, 65, 1, 4, 0, 1, 0, 0, 0, 0]]
    Carries ps rs last chunks ∧
      Yields (run receive connect chunks) fun s =>
        s.codec.params = mapOf ps ∧ s.codec.paramsStream.readable = [] ∧ s.buf.readable = [] := by
  intro ps rs last chunks
  have h : Carries ps rs last chunks := by
    refine ⟨?_, ?_, by decide, rfl, rfl, by decide⟩
    · simp [ps]
    · simp [rs, IsParams, FcgiType.value]
  exact ⟨h, params_round_trip.1 ps rs last chunks h⟩

end Muduo.FastCgiCodec

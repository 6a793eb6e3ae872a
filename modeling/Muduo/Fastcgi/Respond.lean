import Muduo.Fastcgi.Record

/-!
# FastCGI responses

The response is put into one `STDOUT` record, and an empty `STDOUT` record and an `END_REQUEST`
record follow. A record holds less than `2 ^ 16` bytes. A longer response gets no header at all, and
then no sequence of records that is as short has so much content.

## Main results

* `respond_wellFormed_iff`: the response is a sequence of records with the given content if, and
  only if, the content fits in one record.
-/

namespace Muduo.FastCgiCodec

open Machine

/-! ### The records of a response -/

/-- The contents of the `STDOUT` records. -/
def stdoutContent (rs : List Record) : List UInt8 :=
  ((rs.filter (·.type = FcgiType.kFcgiStdout.value)).map Record.content).flatten

/-- The bytes of a response with the given content: records of a length that is a multiple of eight,
the last two an empty `STDOUT` record and an `END_REQUEST` record. -/
def WellFormed (content out : List UInt8) : Prop :=
  ∃ rs : List Record, ∃ stdout request : Record,
    out = ((rs ++ [stdout, request]).map Record.bytes).flatten ∧
    stdoutContent (rs ++ [stdout, request]) = content ∧
    stdout.type = FcgiType.kFcgiStdout.value ∧ stdout.content = [] ∧
    request.type = FcgiType.kFcgiEndRequest.value ∧
    ∀ r ∈ rs ++ [stdout, request], 8 ∣ r.bytes.length

/-- The record of the content. -/
def stdoutRecord (content : List UInt8) (h : content.length < 2 ^ 16) : Record where
  version := 1
  type := FcgiType.kFcgiStdout.value
  id := 1
  content := content
  padding := List.replicate ((8 - content.length % 8) % 8) 0
  unused := 0
  content_lt := h
  padding_lt := by
    rw [List.length_replicate]
    omega

def endStdoutRecord : Record := stdoutRecord [] (by decide)

def endRequestRecord : Record where
  version := 1
  type := FcgiType.kFcgiEndRequest.value
  id := 1
  content := List.replicate 8 0
  padding := []
  unused := 0
  content_lt := by decide
  padding_lt := by decide

lemma dvd_length_stdoutRecord {content : List UInt8} (h : content.length < 2 ^ 16) :
    8 ∣ (stdoutRecord content h).bytes.length := by
  rw [Record.length_bytes, kRecordHeader]
  simp only [stdoutRecord, List.length_replicate]
  omega

/-! ### What respond appends -/

/-- The header is stored in network order. -/
lemma bytes_swap16 (h : RecordHeader) :
    { h with id := swap16 h.id, length := swap16 h.length }.bytes = h.wire := by
  simp only [RecordHeader.bytes, RecordHeader.wire, leBytes_swap16]

/-- The padding of the code is the one that makes the length a multiple of eight. -/
lemma subSize_and_7 {n : ℕ} (h : n < 2 ^ 16) : subSize 0 n &&& 7 = (8 - n % 8) % 8 := by
  rw [show subSize 0 n &&& 7 = subSize 0 n % 8 from Nat.and_two_pow_sub_one_eq_mod _ 3, subSize,
    sizeMod]
  omega

lemma bytes_stdoutHeader {response : Buffer} (h : response.readable.length < 2 ^ 16) :
    (stdoutHeader response).bytes = (stdoutRecord response.readable h).header.wire := by
  rw [← bytes_swap16]
  rw [Buffer.length_readable] at h
  simp only [stdoutHeader, Record.header, stdoutRecord, List.length_replicate,
    Buffer.length_readable, subSize_and_7 h]

lemma padding_stdoutHeader {response : Buffer} (h : response.readable.length < 2 ^ 16) :
    (List.replicate 8 0).take (stdoutHeader response).padding.toNat =
      (stdoutRecord response.readable h).padding := by
  have hcount : (stdoutHeader response).padding.toNat = (8 - response.readable.length % 8) % 8 := by
    rw [Buffer.length_readable] at h ⊢
    rw [stdoutHeader, subSize_and_7 h, UInt8.toNat_ofNat']
    omega
  rw [hcount, List.take_replicate, stdoutRecord]
  congr 1
  omega

lemma frameContent_spec {response : Buffer} (hprepend : kRecordHeader ≤ response.prependableBytes)
    (h : response.readable.length < 2 ^ 16) :
    Yields (frameContent response) fun out =>
      out.readable = (stdoutRecord response.readable h).bytes := by
  have hroom : (stdoutHeader response).bytes.length ≤ response.prependableBytes := by
    rw [bytes_stdoutHeader h, RecordHeader.length_wire]
    exact hprepend
  obtain ⟨framed, hframed, hreadable⟩ := Buffer.prepend_spec hroom
  obtain ⟨out, hout, hreadable'⟩ :=
    framed.append_spec ((List.replicate 8 0).take (stdoutHeader response).padding.toNat)
  rw [hreadable, bytes_stdoutHeader h, padding_stdoutHeader h, List.append_assoc] at hreadable'
  rw [frameContent, if_pos ⟨by rwa [Buffer.length_readable] at h, hprepend⟩]
  dsimp only
  rw [hframed, ok_bind]
  exact ⟨out, hout, hreadable'⟩

lemma frameContent_of_ge {response : Buffer} (h : 2 ^ 16 ≤ response.readable.length) :
    frameContent response = .ok response := by
  rw [Buffer.length_readable] at h
  exact if_neg fun hlt => absurd hlt.1 (by omega)

lemma endStdout_spec (buf : Buffer) :
    Yields (endStdout buf) fun out => out.readable = buf.readable ++ endStdoutRecord.bytes := by
  exact buf.append_spec _

lemma endRequest_spec (buf : Buffer) :
    Yields (endRequest buf) fun out => out.readable = buf.readable ++ endRequestRecord.bytes := by
  obtain ⟨buf₁, hbuf₁, hreadable₁⟩ := buf.append_spec endRequestRecord.header.wire
  obtain ⟨buf₂, hbuf₂, hreadable₂⟩ := buf₁.append_spec (Buffer.networkBytes 4 0)
  obtain ⟨buf₃, hbuf₃, hreadable₃⟩ := buf₂.append_spec (Buffer.networkBytes 4 0)
  rw [hreadable₂, hreadable₁, List.append_assoc, List.append_assoc] at hreadable₃
  refine ⟨buf₃, ?_, hreadable₃⟩
  rw [endRequest]
  change buf.append endRequestRecord.header.wire >>= _ = _
  rw [hbuf₁, ok_bind]
  change buf₁.append (Buffer.networkBytes 4 0) >>= _ = _
  rw [hbuf₂, ok_bind]
  exact hbuf₃

/-! ### Well-formed responses -/

lemma wellFormed_stdoutRecord {content : List UInt8} (h : content.length < 2 ^ 16) :
    WellFormed content
      ((stdoutRecord content h).bytes ++ (endStdoutRecord.bytes ++ endRequestRecord.bytes)) := by
  refine ⟨[stdoutRecord content h], endStdoutRecord, endRequestRecord, ?_, ?_, rfl, rfl, rfl, ?_⟩
  · simp
  · have hrequest : endRequestRecord.type ≠ FcgiType.kFcgiStdout.value := by decide
    simp [stdoutContent, stdoutRecord, endStdoutRecord, hrequest]
  · intro r hr
    simp only [List.cons_append, List.nil_append, List.mem_cons, List.not_mem_nil, or_false] at hr
    obtain rfl | rfl | rfl := hr
    · exact dvd_length_stdoutRecord h
    · exact dvd_length_stdoutRecord _
    · decide

/-- A record has a header, and holds less than `2 ^ 16` bytes. -/
lemma length_stdoutContent_le (rs : List Record) :
    (stdoutContent rs).length + kRecordHeader * rs.length ≤
        ((rs.map Record.bytes).flatten).length ∧
      (stdoutContent rs).length ≤ (2 ^ 16 - 1) * rs.length := by
  induction rs with
  | nil => exact ⟨le_rfl, le_rfl⟩
  | cons r rs ih =>
    obtain ⟨hbytes, hcontent⟩ := ih
    have hr := r.content_lt
    have hcons : (stdoutContent (r :: rs)).length ≤
        r.content.length + (stdoutContent rs).length := by
      rw [stdoutContent, List.filter_cons]
      split
      · simp [stdoutContent]
      · exact Nat.le_add_left ..
    simp only [List.map_cons, List.flatten_cons, List.length_append, List.length_cons,
      r.length_bytes]
    constructor
    · rw [Nat.mul_succ]
      omega
    · omega

/-- Two records for the content and two at the end have four headers. -/
lemma not_wellFormed {content tail : List UInt8} (h : 2 ^ 16 ≤ content.length)
    (htail : tail.length < 4 * kRecordHeader) : ¬ WellFormed content (content ++ tail) := by
  rintro ⟨rs, stdout, request, hout, hcontent, -, hstdout, hrequest, -⟩
  have htype : request.type ≠ FcgiType.kFcgiStdout.value := by
    rw [hrequest]
    decide
  have hends : stdoutContent (rs ++ [stdout, request]) = stdoutContent rs := by
    simp [stdoutContent, List.filter_cons, htype, hstdout, apply_ite]
  obtain ⟨-, hmany⟩ := length_stdoutContent_le rs
  obtain ⟨hlong, -⟩ := length_stdoutContent_le (rs ++ [stdout, request])
  rw [← hends, hcontent] at hmany
  rw [← hout, hcontent] at hlong
  simp only [List.length_append, List.length_cons, List.length_nil] at hlong
  unfold kRecordHeader at hlong htail
  omega

lemma respond_spec (response : Buffer) {framed : List UInt8}
    (h : Yields (frameContent response) fun out => out.readable = framed) :
    Yields (respond response) fun out =>
      out.readable = framed ++ (endStdoutRecord.bytes ++ endRequestRecord.bytes) := by
  obtain ⟨buf₁, hbuf₁, hreadable₁⟩ := h
  obtain ⟨buf₂, hbuf₂, hreadable₂⟩ := endStdout_spec buf₁
  obtain ⟨buf₃, hbuf₃, hreadable₃⟩ := endRequest_spec buf₂
  rw [hreadable₂, hreadable₁, List.append_assoc] at hreadable₃
  refine ⟨buf₃, ?_, hreadable₃⟩
  rw [respond, hbuf₁, ok_bind, hbuf₂, ok_bind, hbuf₃]

/-- A response that is too long is sent without a header. -/
lemma respond_not_wellFormed {response : Buffer} (h : 2 ^ 16 ≤ response.readable.length) :
    Yields (respond response) fun out => ¬ WellFormed response.readable out.readable := by
  obtain ⟨out, hout, hreadable⟩ := respond_spec response ⟨response, frameContent_of_ge h, rfl⟩
  refine ⟨out, hout, ?_⟩
  dsimp only
  rw [hreadable]
  exact not_wellFormed h (by decide)

theorem respond_wellFormed_iff (response : Buffer)
    (h : kRecordHeader ≤ response.prependableBytes) :
    Yields (respond response) fun out =>
      WellFormed response.readable out.readable ↔ response.readableBytes < 65536 := by
  rw [← Buffer.length_readable]
  rcases Nat.lt_or_ge response.readable.length (2 ^ 16) with hlt | hge
  · obtain ⟨out, hout, hreadable⟩ := respond_spec response (frameContent_spec h hlt)
    refine ⟨out, hout, iff_of_true ?_ hlt⟩
    rw [hreadable]
    exact wellFormed_stdoutRecord hlt
  · obtain ⟨out, hout, hnot⟩ := respond_not_wellFormed hge
    exact ⟨out, hout, iff_of_false hnot (by omega)⟩

/-- A response of two bytes, which are padded to eight. -/
theorem respond_wellFormed_iff_hi :
    let response : Buffer :=
      ⟨List.replicate 8 0 ++ [72, 105], 8, 10, by decide, by decide, by decide⟩
    response.readable = [72, 105] ∧
      Yields (respond response) fun out =>
        out.readable.length = 40 ∧ WellFormed [72, 105] out.readable := by
  intro response
  obtain ⟨out, hout, hiff⟩ := respond_wellFormed_iff response (by decide)
  have hlength : Yields (respond response) fun out => out.readable.length = 40 := by decide +kernel
  exact ⟨by decide, out, hout, hlength.safe.of_ok hout, hiff.mpr (by decide)⟩

/-- A response of 65536 bytes. -/
theorem respond_not_wellFormed_long :
    ∃ response : Buffer, kRecordHeader ≤ response.prependableBytes ∧
      response.readable = List.replicate 65536 0 ∧
      Yields (respond response) fun out => ¬ WellFormed response.readable out.readable := by
  obtain ⟨response, hresponse, hreadable, hprepend⟩ := (Buffer.holds_new kInitialSize).append
    (List.replicate 65536 0)
  rw [List.nil_append] at hreadable
  refine ⟨response, hprepend, hreadable, respond_not_wellFormed ?_⟩
  rw [hreadable, List.length_replicate]
  norm_num

end Muduo.FastCgiCodec

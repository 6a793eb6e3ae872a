import Muduo.Machine.Frames
import Muduo.Machine.Text
import Muduo.Protorpc.ProtobufCodecLite

/-!
# The frames of the codec

What the codec gets out of a stream of bytes does not depend on the chunks in which the stream
arrives: it is what `decode` finds in the whole of it. And what is encoded is decoded again.

## Main results

* `decoding_ignores_chunks`: the messages delivered are those of the stream, and after a frame that
  is rejected there are none.
* `frames_round_trip`: the messages of encoded frames are delivered, and no error is reported.
-/

namespace Muduo.ProtobufCodecLite

open Machine

variable {M : Type}

/-! ### The decoder of a whole stream -/

/-- The first frame of a stream: a length in network order that is within the limits, and as many
bytes as it says, which `parse` accepts. -/
def frame (c : ProtobufCodecLite M) (stream : List UInt8) : Option (M × List UInt8) :=
  let len := ofBeBytes (stream.take kHeaderLen)
  let rest := stream.drop kHeaderLen
  if kHeaderLen ≤ stream.length ∧ c.kMinMessageLen ≤ len ∧ len ≤ kMaxMessageLen ∧
      len ≤ rest.length then
    match c.parse (rest.take len) with
    | .ok m => some (m, rest.drop len)
    | .error _ => none
  else
    none

variable {c : ProtobufCodecLite M} {stream rest : List UInt8} {m : M}

lemma frame_eq_some : c.frame stream = some (m, rest) ↔
    ∃ header body, stream = header ++ (body ++ rest) ∧ header.length = kHeaderLen ∧
      ofBeBytes header = body.length ∧ c.kMinMessageLen ≤ body.length ∧
      body.length ≤ kMaxMessageLen ∧ c.parse body = .ok m := by
  constructor
  · intro h
    unfold frame at h
    dsimp only at h
    split at h
    · next hlen =>
      obtain ⟨hheader, hmin, hmax, hbody⟩ := hlen
      have hlen : ((stream.drop kHeaderLen).take (ofBeBytes (stream.take kHeaderLen))).length =
          ofBeBytes (stream.take kHeaderLen) := by
        rw [List.length_take]
        omega
      split at h
      · next hparse =>
        cases h
        refine ⟨stream.take kHeaderLen, _, ?_, ?_, hlen.symm, ?_, ?_, hparse⟩
        · rw [List.take_append_drop, List.take_append_drop]
        · rw [List.length_take]
          omega
        · rwa [hlen]
        · rwa [hlen]
      · cases h
    · cases h
  · rintro ⟨header, body, rfl, hheader, hlen, hmin, hmax, hparse⟩
    unfold frame
    dsimp only
    rw [List.take_append_of_le_length hheader.ge, List.take_of_length_le hheader.le,
      List.drop_append_of_le_length hheader.ge, List.drop_of_length_le hheader.le,
      List.nil_append, hlen, List.take_left, List.drop_left, hparse, if_pos]
    refine ⟨?_, hmin, hmax, ?_⟩
    · rw [List.length_append]
      omega
    · rw [List.length_append]
      omega

/-- The frames of the codec. -/
def framing (c : ProtobufCodecLite M) : Framing M UInt8 where
  next := c.frame
  shorter := by
    intro x m rest h
    obtain ⟨header, body, rfl, hheader, -⟩ := frame_eq_some.mp h
    have hpos : 0 < header.length := by
      rw [hheader]
      decide
    simp only [List.length_append]
    omega
  next_append := by
    intro x m rest y h
    obtain ⟨header, body, rfl, hframe⟩ := frame_eq_some.mp h
    refine frame_eq_some.mpr ⟨header, body, ?_, hframe⟩
    simp only [List.append_assoc]

/-- The messages of a stream, and the stream from the first frame on that is incomplete or
rejected. -/
def decode (c : ProtobufCodecLite M) (stream : List UInt8) : List M × List UInt8 :=
  c.framing.frames stream

/-! ### A call of onMessage -/

/-- The error callback does not consume the buffer. -/
def KeepsInput (c : ProtobufCodecLite M) : Prop :=
  ∀ code buf, Yields (c.errorCallback code buf) fun buf' => buf'.readable = buf.readable

/-- The code tests the length as an `int32_t`. -/
lemma invalidLength_iff {n : ℕ} (hn : n < 2 ^ 32) :
    (kMaxMessageLen < (BitVec.ofNat 32 n).toInt ∨ (BitVec.ofNat 32 n).toInt < c.kMinMessageLen) ↔
      ¬ (c.kMinMessageLen ≤ n ∧ n ≤ kMaxMessageLen) := by
  have hmax : kMaxMessageLen = 2 ^ 26 := by decide
  have hn' : (BitVec.ofNat 32 n).toNat = n := Nat.mod_eq_of_lt hn
  rw [BitVec.toInt_eq_toNat_cond, hn', hmax]
  split <;> omega

/-- A stream with a header is rejected if no frame is taken from it, whatever follows. -/
lemma rejected_of_header (hheader : kHeaderLen ≤ stream.length)
    (hframe : ∀ y, c.frame (stream ++ y) = none) : c.framing.Rejected stream := by
  constructor
  · rintro rfl
    exact absurd hheader (by decide)
  · exact hframe

/-- A length that is out of the limits stays so. -/
lemma rejected_of_length (hheader : kHeaderLen ≤ stream.length)
    (hlen : ¬ (c.kMinMessageLen ≤ ofBeBytes (stream.take kHeaderLen) ∧
      ofBeBytes (stream.take kHeaderLen) ≤ kMaxMessageLen)) : c.framing.Rejected stream := by
  refine rejected_of_header hheader fun y => ?_
  unfold frame
  dsimp only
  rw [List.take_append_of_le_length hheader]
  exact if_neg fun h => hlen ⟨h.2.1, h.2.2.1⟩

/-- And so does a body that `parse` does not accept. -/
lemma rejected_of_body {code : ErrorCode} (hheader : kHeaderLen ≤ stream.length)
    (hbody : ofBeBytes (stream.take kHeaderLen) ≤ (stream.drop kHeaderLen).length)
    (hparse : c.parse ((stream.drop kHeaderLen).take (ofBeBytes (stream.take kHeaderLen))) =
      .error code) : c.framing.Rejected stream := by
  refine rejected_of_header hheader fun y => ?_
  unfold frame
  dsimp only
  rw [List.take_append_of_le_length hheader, List.drop_append_of_le_length hheader,
    List.take_append_of_le_length hbody, hparse]
  exact ite_self _

variable {s s' : Input M}

/-- The loop stops at `s'`, where no frame is taken, and has reported an error if the frame there is
rejected. -/
def Stops (c : ProtobufCodecLite M) (s s' : Input M) : Prop :=
  c.frame s.buf.readable = none ∧ s'.buf.readable = s.buf.readable ∧
    (s'.calls = s.calls ∨ c.framing.Rejected s.buf.readable ∧
      ∃ code, s'.calls = s.calls ++ [.error code])

/-- The loop goes on with `s'`, after a frame. -/
def Takes (c : ProtobufCodecLite M) (s s' : Input M) : Prop :=
  ∃ m, c.frame s.buf.readable = some (m, s'.buf.readable) ∧ s'.calls = s.calls ++ [.message m]

lemma reject_spec {code : ErrorCode}
    (herr : c.framing.Rejected s.buf.readable → c.KeepsInput)
    (h : c.framing.Rejected s.buf.readable) :
    Yields (c.reject s code) (Round.Leaves (c.Stops s) (c.Takes s)) := by
  obtain ⟨buf, hbuf, hread⟩ := herr h code s.buf
  have hnext := h.2 []
  rw [List.append_nil] at hnext
  unfold reject
  rw [hbuf]
  exact ⟨_, rfl, hnext, hread, .inr ⟨h, code, rfl⟩⟩

lemma takeFrame_spec (hraw : c.rawCb = none)
    (herr : c.framing.Rejected s.buf.readable → c.KeepsInput) {header body rest : List UInt8}
    (hstream : s.buf.readable = header ++ (body ++ rest)) (hheader : header.length = kHeaderLen)
    (hlen : ofBeBytes header = body.length) (hmin : c.kMinMessageLen ≤ body.length)
    (hmax : body.length ≤ kMaxMessageLen) :
    Yields (c.takeFrame s body.length) (Round.Leaves (c.Stops s) (c.Takes s)) := by
  have hdrop : s.buf.readable.drop kHeaderLen = body ++ rest := by
    rw [hstream, ← hheader, List.drop_left]
  have htake : s.buf.readable.take kHeaderLen = header := by
    rw [hstream, ← hheader, List.take_left]
  have hle : kHeaderLen + body.length ≤ s.buf.readable.length := by
    simp only [hstream, List.length_append]
    omega
  unfold takeFrame raw
  rw [hraw, hdrop, List.take_left]
  dsimp only
  rw [if_neg Bool.false_ne_true]
  match hparse : c.parse body with
  | .ok m =>
    obtain ⟨buf, hbuf, hread⟩ := Buffer.retrieve_spec hle
    rw [← List.drop_drop, hdrop, List.drop_left] at hread
    dsimp only
    rw [hbuf]
    refine ⟨_, rfl, m, ?_, rfl⟩
    rw [hread]
    exact frame_eq_some.mpr ⟨header, body, hstream, hheader, hlen, hmin, hmax, hparse⟩
  | .error code =>
    have hbody : (body ++ rest).take (ofBeBytes header) = body := by rw [hlen, List.take_left]
    have hparse' : c.parse ((s.buf.readable.drop kHeaderLen).take
        (ofBeBytes (s.buf.readable.take kHeaderLen))) = .error code := by
      rw [htake, hdrop, hbody, hparse]
    change Yields (c.reject s code) _
    refine reject_spec herr (rejected_of_body (by omega) ?_ hparse')
    rw [htake, hdrop, hlen, List.length_append]
    omega

/-- A frame is in the stream as a whole. -/
lemma length_of_frame (h : c.frame stream = some (m, rest)) :
    c.kMinMessageLen ≤ ofBeBytes (stream.take kHeaderLen) ∧
      kHeaderLen + ofBeBytes (stream.take kHeaderLen) ≤ stream.length := by
  obtain ⟨header, body, rfl, hheader, hlen, hmin, -⟩ := frame_eq_some.mp h
  rw [← hheader, List.take_left, hlen]
  refine ⟨hmin, ?_⟩
  simp only [List.length_append]
  omega

lemma stops_of_incomplete (h : s.buf.readable.length < c.kMinMessageLen + kHeaderLen ∨
    s.buf.readable.length < kHeaderLen + ofBeBytes (s.buf.readable.take kHeaderLen)) :
    c.Stops s s := by
  refine ⟨?_, rfl, .inl rfl⟩
  rw [Option.eq_none_iff_forall_ne_some]
  rintro ⟨m, rest⟩ hframe
  obtain ⟨hmin, hlen⟩ := length_of_frame hframe
  omega

/-- What one round does. -/
lemma round_spec (hraw : c.rawCb = none)
    (herr : c.framing.Rejected s.buf.readable → c.KeepsInput) :
    Yields (c.round s) (Round.Leaves (c.Stops s) (c.Takes s)) := by
  have hreadable := s.buf.length_readable
  unfold round
  by_cases henough : c.kMinMessageLen + kHeaderLen ≤ s.buf.readableBytes
  · obtain ⟨header, tail, hstream, hheader⟩ : ∃ header tail,
        s.buf.readable = header ++ tail ∧ header.length = kHeaderLen := by
      refine ⟨_, _, (List.take_append_drop kHeaderLen _).symm, ?_⟩
      rw [List.length_take]
      omega
    have htake : s.buf.readable.take kHeaderLen = header := by
      rw [hstream, ← hheader, List.take_left]
    have hlt : ofBeBytes header < 2 ^ 32 := by
      have := ofBeBytes_lt header
      rwa [hheader] at this
    have hle : kHeaderLen ≤ s.buf.readable.length := by omega
    have hpeek : s.buf.peekInt32 = .ok (BitVec.ofNat 32 (ofBeBytes header)) := by
      rw [← htake]
      exact Buffer.peekInt32_spec hle
    have htoNat : (BitVec.ofNat 32 (ofBeBytes header)).toNat = ofBeBytes header :=
      Nat.mod_eq_of_lt hlt
    rw [if_pos henough, hpeek, ok_bind, htoNat]
    by_cases hlen : c.kMinMessageLen ≤ ofBeBytes header ∧ ofBeBytes header ≤ kMaxMessageLen
    · rw [if_neg fun h => (invalidLength_iff hlt).mp h hlen]
      by_cases hwhole : kHeaderLen + ofBeBytes header ≤ s.buf.readableBytes
      · have hbody : (tail.take (ofBeBytes header)).length = ofBeBytes header := by
          rw [hstream, List.length_append] at hreadable
          rw [List.length_take]
          omega
        rw [← List.take_append_drop (ofBeBytes header) tail] at hstream
        rw [← hbody] at hlen
        rw [if_pos hwhole, ← hbody]
        exact takeFrame_spec hraw herr hstream hheader hbody.symm hlen.1 hlen.2
      · rw [if_neg hwhole]
        refine ⟨_, rfl, stops_of_incomplete (.inr ?_)⟩
        rw [htake]
        omega
    · rw [if_pos ((invalidLength_iff hlt).mpr hlen)]
      rw [← htake] at hlen
      exact reject_spec herr (rejected_of_length hle hlen)
  · rw [if_neg henough]
    exact ⟨_, rfl, stops_of_incomplete (.inl (by omega))⟩

/-- Each round takes bytes from the buffer, whatever the callbacks do. -/
lemma round_lt (h : c.round s = .ok (.again s')) : s'.buf.readableBytes < s.buf.readableBytes := by
  have hreject : ∀ (s : Input M) code, c.reject s code ≠ .ok (.again s') := by
    intro s code h
    obtain ⟨buf, -, h⟩ := bind_eq_ok.mp h
    cases h
  have hpos : ∀ len, 0 < kHeaderLen + len := fun len => Nat.add_pos_left (by decide) len
  unfold round at h
  split at h
  · obtain ⟨len, -, h⟩ := bind_eq_ok.mp h
    split at h
    · exact absurd h (hreject s _)
    · split at h
      · unfold takeFrame at h
        dsimp only at h
        split at h
        · obtain ⟨buf, hbuf, h⟩ := bind_eq_ok.mp h
          cases h
          exact Buffer.retrieve_lt hbuf (hpos _)
        · split at h
          · obtain ⟨buf, hbuf, h⟩ := bind_eq_ok.mp h
            cases h
            exact Buffer.retrieve_lt hbuf (hpos _)
          · exact absurd h (hreject _ _)
      · cases h
  · cases h

/-- A call takes the frames that are there, and reports an error if the next one is rejected. -/
lemma onMessage_spec (hraw : c.rawCb = none)
    (herr : c.framing.Rejected (c.decode s.buf.readable).2 → c.KeepsInput) :
    Yields (c.onMessage s) fun s' =>
      s'.buf.readable = (c.decode s.buf.readable).2 ∧
      ∃ errors : List ErrorCode,
        s'.calls = s.calls ++ (c.decode s.buf.readable).1.map .message ++ errors.map .error ∧
        (errors ≠ [] → c.framing.Rejected s'.buf.readable) := by
  -- what a state of the loop has still to take
  let I (t : Input M) : Prop := ∃ ms, c.decode s.buf.readable =
    (ms ++ (c.decode t.buf.readable).1, (c.decode t.buf.readable).2) ∧
      t.calls = s.calls ++ ms.map .message
  refine loop_yields (I := I) (fun _ _ => round_lt) ?_ ⟨[], rfl, (List.append_nil _).symm⟩
  rintro t ⟨ms, hms, hcalls⟩
  have herr' : c.framing.Rejected t.buf.readable → c.KeepsInput := by
    intro h
    have hunread : (c.decode t.buf.readable).2 = t.buf.readable := congrArg Prod.snd h.frames
    refine herr ?_
    rw [hms, hunread]
    exact h
  obtain ⟨r, hr, hround⟩ := round_spec hraw herr' (s := t)
  refine ⟨r, hr, ?_⟩
  match r, hround with
  | .stop t', ⟨hnone, hread, hreport⟩ =>
    have hrest : c.decode t.buf.readable = ([], t.buf.readable) := Framing.frames_of_none hnone
    rw [hrest, List.append_nil] at hms
    rw [hms]
    refine ⟨hread, ?_⟩
    obtain hsame | ⟨hrejected, code, hcode⟩ := hreport
    · exact ⟨[], by rw [hsame, hcalls, List.map_nil, List.append_nil], absurd rfl⟩
    · refine ⟨[code], by rw [hcode, hcalls]; rfl, fun _ => ?_⟩
      rw [hread]
      exact hrejected
  | .again t', ⟨m, hsome, hcall⟩ =>
    have hrest : c.decode t.buf.readable = (m :: _, _) := Framing.frames_of_some hsome
    refine ⟨ms ++ [m], ?_, ?_⟩
    · rw [hms, hrest, List.append_assoc]
      rfl
    · rw [hcall, hcalls, List.map_append, List.append_assoc]
      rfl

/-! ### A stream in chunks -/

/-- The state after the bytes of `stream`. -/
def Decoded (c : ProtobufCodecLite M) (stream : List UInt8) (s : Input M) : Prop :=
  s.buf.readable = (c.decode stream).2 ∧
  ∃ errors : List ErrorCode,
    s.calls = (c.decode stream).1.map .message ++ errors.map .error ∧
    (errors ≠ [] → c.framing.Rejected s.buf.readable)

lemma Decoded.receive (hraw : c.rawCb = none) {chunk : List UInt8}
    (herr : c.framing.Rejected (c.decode (stream ++ chunk)).2 → c.KeepsInput)
    (h : c.Decoded stream s) : Yields (c.receive s chunk) (c.Decoded (stream ++ chunk)) := by
  obtain ⟨hread, errors, hcalls, hrejected⟩ := h
  obtain ⟨buf, hbuf, hbuf'⟩ := s.buf.append_spec chunk
  have hdecode : c.decode (stream ++ chunk) =
      ((c.decode stream).1 ++ (c.decode buf.readable).1, (c.decode buf.readable).2) := by
    rw [hbuf', hread]
    exact Framing.frames_append stream chunk
  rw [hdecode] at herr
  obtain ⟨s', hs', hread', errors', hcalls', hrejected'⟩ :=
    onMessage_spec (s := ⟨buf, s.calls⟩) hraw herr
  dsimp only at hread' hcalls'
  refine ⟨s', ?_, ?_, ?_⟩
  · rw [ProtobufCodecLite.receive, hbuf]
    exact hs'
  · rw [hread', hdecode]
  · rw [hdecode, hcalls', hcalls]
    by_cases hfirst : errors = []
    · refine ⟨errors', ?_, hrejected'⟩
      rw [hfirst, List.map_nil, List.append_nil, List.map_append]
    · -- the buffer begins with a frame that was rejected before
      have hbad : c.framing.Rejected buf.readable := hbuf' ▸ (hrejected hfirst).append chunk
      have hnone : c.decode buf.readable = ([], buf.readable) := hbad.frames
      rw [hnone] at hread' ⊢
      refine ⟨errors ++ errors', ?_, fun _ => hread' ▸ hbad⟩
      rw [List.map_nil, List.append_nil, List.append_nil, List.map_append, List.append_assoc]

lemma run_receive (hraw : c.rawCb = none) {chunks : List (List UInt8)}
    (herr : c.framing.Rejected (c.decode (stream ++ chunks.flatten)).2 → c.KeepsInput)
    (h : c.Decoded stream s) :
    Yields (run c.receive s chunks) (c.Decoded (stream ++ chunks.flatten)) := by
  induction chunks generalizing stream s with
  | nil =>
    rw [List.flatten_nil, List.append_nil]
    exact ⟨s, rfl, h⟩
  | cons chunk chunks ih =>
    rw [List.flatten_cons, ← List.append_assoc] at herr ⊢
    obtain ⟨s', hs', h'⟩ := h.receive hraw fun hrejected => herr (hrejected.frames_append _)
    rw [run_cons, hs', ok_bind]
    exact ih herr h'

lemma decoded_nil (c : ProtobufCodecLite M) {buf : Buffer} (h : buf.readable = []) :
    c.Decoded [] ⟨buf, []⟩ := by
  have hnil : c.decode [] = ([], []) := Framing.frames_of_none Framing.next_nil
  unfold Decoded
  rw [hnil]
  exact ⟨h, [], rfl, absurd rfl⟩

lemma messages_of_calls (ms : List M) (errors : List ErrorCode) :
    messages (ms.map .message ++ errors.map .error) = ms := by
  simp [messages, List.filterMap_append, List.filterMap_map]

/-- Behind the first error there are only errors. -/
lemma messages_after {ms : List M} {errors : List ErrorCode} {before after : List (Callback M)}
    {code : ErrorCode}
    (h : ms.map .message ++ errors.map .error = before ++ .error code :: after) :
    messages after = [] ∧ errors ≠ [] := by
  induction ms generalizing before with
  | nil =>
    rw [List.map_nil, List.nil_append] at h
    constructor
    · rw [messages, List.filterMap_eq_nil_iff]
      intro call hcall
      have hmem : call ∈ errors.map Callback.error := by
        rw [h]
        exact List.mem_append_right _ (List.mem_cons_of_mem _ hcall)
      obtain ⟨code, -, rfl⟩ := List.mem_map.mp hmem
      rfl
    · rintro rfl
      cases before <;> cases h
  | cons m ms ih =>
    cases before with
    | nil => cases h
    | cons call before =>
      rw [List.map_cons, List.cons_append, List.cons_append] at h
      exact ih (List.cons.inj h).2

/-- However a stream is cut into chunks, its messages are delivered up to the first frame that is
incomplete or rejected, the input from there on is left unread, and what is called after a frame was
rejected is the error callback only. -/
theorem decoding_ignores_chunks (c : ProtobufCodecLite M) (hraw : c.rawCb = none)
    (herr : c.KeepsInput) (buf : Buffer) (hbuf : buf.readable = []) (chunks : List (List UInt8)) :
    Yields (run c.receive ⟨buf, []⟩ chunks) fun s =>
      messages s.calls = (c.decode chunks.flatten).1 ∧
      s.buf.readable = (c.decode chunks.flatten).2 ∧
      ∀ before code after, s.calls = before ++ .error code :: after →
        messages after = [] ∧ c.framing.Rejected s.buf.readable := by
  obtain ⟨s, hs, hread, errors, hcalls, hrejected⟩ :
      Yields (run c.receive ⟨buf, []⟩ chunks) (c.Decoded ([] ++ chunks.flatten)) :=
    run_receive hraw (fun _ => herr) (c.decoded_nil hbuf)
  rw [List.nil_append] at hread hcalls
  refine ⟨s, hs, ?_, hread, ?_⟩
  · rw [hcalls, messages_of_calls]
  · intro before code after h
    rw [hcalls] at h
    obtain ⟨hafter, herrors⟩ := messages_after h
    exact ⟨hafter, hrejected herrors⟩

/-! ### The codec of the test

Messages that are their own payload stand for those of the library. `rpcCodec` has the tag and the
checksum of `RpcCodec_test.cc`, and `wire` is the frame that the test expects. -/

/-- `adler32` of zlib. -/
def zlibAdler32 (bytes : List UInt8) : UInt32 :=
  let sums : ℕ × ℕ := bytes.foldl (fun p byte =>
    ((p.1 + byte.toNat) % 65521, (p.2 + p.1 + byte.toNat) % 65521)) (1, 0)
  .ofNat (65536 * sums.2 + sums.1)

def rpcCodec : ProtobufCodecLite (List UInt8) where
  prototype := ⟨fun _ => true, List.length, id, some⟩
  adler32 := zlibAdler32
  tag := ascii "RPC0"
  tag_fits := by decide
  rawCb := none
  errorCallback := defaultErrorCallback

def payload : List UInt8 := [8, 1, 17, 2, 0, 0, 0, 0, 0, 0, 0]

def wire : List UInt8 := [0, 0, 0, 19] ++ ascii "RPC0" ++ payload ++ [0x0f, 0xef, 0x01, 0x32]

lemma rpcCodec_keepsInput : rpcCodec.KeepsInput := fun _ buf => ⟨buf, rfl, rfl⟩

/-- A frame in two pieces, a length that is too small, and a frame behind it. -/
theorem decoding_ignores_chunks_rpc :
    Yields (run rpcCodec.receive ⟨.new 0, []⟩ [wire.take 9, wire.drop 9 ++ [0, 0], [0, 7] ++ wire])
      fun s => messages s.calls = [payload] ∧ s.buf.readable = [0, 0, 0, 7] ++ wire := by
  obtain ⟨s, hs, hmessages, hread, -⟩ := decoding_ignores_chunks rpcCodec rfl rpcCodec_keepsInput
    (.new 0) (Buffer.readable_new 0) [wire.take 9, wire.drop 9 ++ [0, 0], [0, 7] ++ wire]
  exact ⟨s, hs, hmessages.trans (by decide +kernel), hread.trans (by decide +kernel)⟩

/-! ### Encoding -/

/-- The tag and the payload of a frame. -/
def content (c : ProtobufCodecLite M) (m : M) : List UInt8 :=
  c.tag ++ c.prototype.serializeWithCachedSizesToArray m

/-- What follows the length. -/
def body (c : ProtobufCodecLite M) (m : M) : List UInt8 :=
  c.content m ++ beBytes 4 (c.checksum (c.content m)).toNat

/-- The frame of a message. -/
def encode (c : ProtobufCodecLite M) (m : M) : List UInt8 :=
  beBytes 4 (c.body m).length ++ c.body m

lemma length_body (c : ProtobufCodecLite M) (m : M) :
    (c.body m).length = (c.content m).length + kChecksumLen := by
  rw [body, List.length_append, length_beBytes]
  rfl

lemma asInt32_beBytes (x : BitVec 32) : asInt32 (beBytes 4 x.toNat) = x := by
  have hlen : (beBytes 4 x.toNat).length = 4 := length_beBytes 4 x.toNat
  have hlt : x.toNat < 256 ^ 4 := x.isLt
  rw [asInt32, List.take_of_length_le hlen.le, byteSwap_beBytes, Nat.mod_eq_of_lt hlt,
    BitVec.ofNat_toNat, BitVec.setWidth_eq]

lemma validateChecksum_append (c : ProtobufCodecLite M) (x : List UInt8) :
    c.validateChecksum (x ++ beBytes 4 (c.checksum x).toNat) = true := by
  have hlen : (x ++ beBytes 4 (c.checksum x).toNat).length - kChecksumLen = x.length := by
    rw [List.length_append, length_beBytes]
    exact Nat.add_sub_cancel ..
  rw [validateChecksum, hlen, List.drop_left, List.take_left, asInt32_beBytes]
  exact decide_eq_true rfl

lemma parse_body (h : c.prototype.parseFromArray
      (c.prototype.serializeWithCachedSizesToArray m) = some m) : c.parse (c.body m) = .ok m := by
  have hlen : (c.body m).length - kChecksumLen = (c.content m).length := by
    rw [length_body, Nat.add_sub_cancel]
  have hvalid : c.validateChecksum (c.body m) = true := c.validateChecksum_append (c.content m)
  have htag : (c.body m).take c.tag.length = c.tag := by
    rw [body, content, List.append_assoc, List.take_left]
  have hdata : ((c.body m).drop c.tag.length).take ((c.content m).length - c.tag.length) =
      c.prototype.serializeWithCachedSizesToArray m := by
    rw [body, content, List.append_assoc, List.drop_left, List.length_append,
      Nat.add_sub_cancel_left, List.take_left]
  rw [parse, if_pos hvalid, if_pos htag, hlen]
  dsimp only
  rw [hdata, parseFromBuffer, h]

/-- The library writes as many bytes as it says. -/
lemma length_content (hbytes : c.prototype.byteSize m =
    (c.prototype.serializeWithCachedSizesToArray m).length) :
    (c.content m).length = c.tag.length + c.prototype.byteSize m := by
  rw [content, List.length_append, hbytes]

section

variable (hinit : c.prototype.isInitialized m = true)
  (hbytes : c.prototype.byteSize m = (c.prototype.serializeWithCachedSizesToArray m).length)
  (hsize : c.prototype.byteSize m + kChecksumLen < 2 ^ 31)
include hinit hbytes hsize

lemma serializeToBuffer_spec {buf : Buffer} {x : List UInt8} (hbuf : buf.Holds x) :
    Yields (c.serializeToBuffer m buf) fun p => p.1 = c.prototype.byteSize m ∧
      p.2.Holds (x ++ c.prototype.serializeWithCachedSizesToArray m) := by
  obtain ⟨⟨buf', hroom⟩, hbuf', hholds⟩ :=
    hbuf.ensureWritableBytes (c.prototype.byteSize m + kChecksumLen)
  have hfits : (c.prototype.serializeWithCachedSizesToArray m).length ≤ buf'.writableBytes := by
    omega
  obtain ⟨buf'', hbuf'', hholds'⟩ := hholds.write hfits
  refine ⟨(c.prototype.byteSize m, buf''), ?_, rfl, hholds'⟩
  rw [serializeToBuffer, check_of hinit, ok_bind]
  dsimp only
  rw [check_of hsize, ok_bind, hbuf', ok_bind]
  dsimp only
  rw [dif_pos hfits, check_of hbytes.symm, ok_bind, hbytes, hbuf'']
  rfl

/-- The frame is written into a fresh buffer, and no assertion fails. -/
lemma fillEmptyBuffer_spec (n : ℕ) :
    Yields (c.fillEmptyBuffer (Buffer.new n) m) fun buf => buf.readable = c.encode m := by
  have htag := c.tag_fits
  have hempty : (Buffer.new n).readableBytes = 0 := Nat.sub_self _
  obtain ⟨b₁, hb₁, hholds₁⟩ := (Buffer.holds_new n).append c.tag
  obtain ⟨⟨_, b₂⟩, hb₂, rfl, hholds₂⟩ := serializeToBuffer_spec hinit hbytes hsize hholds₁
  have hcontent : b₂.readable = c.content m := hholds₂.1
  obtain ⟨b₃, hb₃, hholds₃⟩ : Yields (b₂.appendInt32 (c.checksum b₂.readable)) _ :=
    hholds₂.append _
  have hbody : b₃.readable = c.body m := by
    rw [hholds₃.1, Buffer.networkBytes_eq, hcontent]
    rfl
  have hlen : b₃.readableBytes = c.tag.length + c.prototype.byteSize m + kChecksumLen := by
    rw [← b₃.length_readable, hbody, length_body, length_content hbytes]
  have hheader : Buffer.networkBytes 4 (BitVec.ofNat 32 b₃.readableBytes) =
      beBytes 4 (c.body m).length := by
    have htoNat : (BitVec.ofNat 32 b₃.readableBytes).toNat = b₃.readableBytes :=
      Nat.mod_eq_of_lt (by omega)
    rw [Buffer.networkBytes_eq, htoNat, ← b₃.length_readable, hbody]
  have hroom : (Buffer.networkBytes 4 (BitVec.ofNat 32 b₃.readableBytes)).length ≤
      b₃.prependableBytes := by
    rw [hheader, length_beBytes]
    exact le_trans (by decide) hholds₃.2
  obtain ⟨b₄, hb₄, hread⟩ := Buffer.prepend_spec hroom
  refine ⟨b₄, ?_, hread.trans (by rw [hheader, hbody, encode])⟩
  rw [fillEmptyBuffer, check_of hempty, ok_bind, hb₁, ok_bind, hb₂, ok_bind]
  dsimp only
  rw [hb₃, ok_bind, check_of hlen, ok_bind, hb₄]

end

variable (hlib : c.prototype.Lawful)
include hlib

lemma frame_encode
    (hlen : c.tag.length + c.prototype.byteSize m + kChecksumLen ≤ kMaxMessageLen)
    (y : List UInt8) : c.framing.next (c.encode m ++ y) = some (m, y) := by
  have hbody : (c.body m).length = c.tag.length + c.prototype.byteSize m + kChecksumLen := by
    rw [length_body, length_content (hlib.byteSize m)]
  have hmax : kMaxMessageLen < 256 ^ 4 := by decide
  refine frame_eq_some.mpr ⟨beBytes 4 (c.body m).length, c.body m, List.append_assoc .., rfl, ?_,
    ?_, ?_, parse_body (hlib.parse_serialize m)⟩
  · rw [ofBeBytes_beBytes, Nat.mod_eq_of_lt (by omega)]
  · rw [hbody, kMinMessageLen]
    omega
  · omega

/-- Each of the messages in a buffer of its own. -/
lemma fillEmptyBuffers_spec (n : ℕ) {ms : List M} (hlen : ∀ m ∈ ms,
      c.tag.length + c.prototype.byteSize m + kChecksumLen ≤ kMaxMessageLen) :
    Yields (ms.mapM (c.fillEmptyBuffer (Buffer.new n))) fun bufs =>
      bufs.map Buffer.readable = ms.map c.encode := by
  induction ms with
  | nil => exact ⟨[], rfl, rfl⟩
  | cons m ms ih =>
    have hmax : kMaxMessageLen < 2 ^ 31 := by decide
    have hsize := hlen m (List.mem_cons_self ..)
    obtain ⟨buf, hbuf, hread⟩ := fillEmptyBuffer_spec
      (hlib.isInitialized _ _ (hlib.parse_serialize m)) (hlib.byteSize m) (by omega) n
    obtain ⟨bufs, hbufs, hreads⟩ := ih fun m' hm' => hlen m' (List.mem_cons_of_mem m hm')
    refine ⟨buf :: bufs, ?_, ?_⟩
    · rw [List.mapM_cons, hbuf, ok_bind, hbufs]
      rfl
    · change (buf :: bufs).map Buffer.readable = (m :: ms).map c.encode
      rw [List.map_cons, List.map_cons, hread, hreads]

omit hlib

/-- The frames of a list of messages, however they arrive, are decoded to these messages. -/
theorem frames_round_trip (c d : ProtobufCodecLite M) (htag : d.tag = c.tag)
    (hprototype : d.prototype = c.prototype) (hadler32 : d.adler32 = c.adler32)
    (hlib : c.prototype.Lawful) (hraw : d.rawCb = none) (n : ℕ) (ms : List M)
    (hlen : ∀ m ∈ ms, c.tag.length + c.prototype.byteSize m + kChecksumLen ≤ kMaxMessageLen)
    (buf : Buffer) (hbuf : buf.readable = []) :
    Yields (ms.mapM (c.fillEmptyBuffer (Buffer.new n))) fun bufs =>
      ∀ chunks : List (List UInt8), chunks.flatten = (bufs.map Buffer.readable).flatten →
        Yields (run d.receive ⟨buf, []⟩ chunks) fun s =>
          s.calls = ms.map .message ∧ s.buf.readable = [] := by
  obtain ⟨bufs, hbufs, hreads⟩ := fillEmptyBuffers_spec hlib n hlen
  refine ⟨bufs, hbufs, ?_⟩
  intro chunks hchunks
  have hencode : c.encode = d.encode := by
    funext m
    simp only [encode, body, content, checksum, htag, hprototype, hadler32]
  have hdecode : d.decode chunks.flatten = (ms, []) := by
    rw [hchunks, hreads, hencode]
    refine Framing.frames_flatten fun m hm y => ?_
    rw [← hprototype] at hlib
    refine frame_encode hlib ?_ y
    rw [htag, hprototype]
    exact hlen m hm
  -- nothing is left that could have been rejected
  have hnone : ¬ d.framing.Rejected (d.decode ([] ++ chunks.flatten)).2 := by
    rw [List.nil_append, hdecode]
    exact fun h => h.1 rfl
  obtain ⟨s, hs, hread, errors, hcalls, hrejected⟩ :=
    run_receive hraw (absurd · hnone) (d.decoded_nil hbuf)
  have herrors : errors = [] := by
    by_contra h
    exact hnone (hread ▸ hrejected h)
  rw [List.nil_append, hdecode] at hread hcalls
  refine ⟨s, hs, ?_, hread⟩
  rw [hcalls, herrors, List.map_nil, List.append_nil]

example : Buffer.readable <$> rpcCodec.fillEmptyBuffer .new payload = .ok wire := by decide +kernel

/-- Two messages through buffers that have to grow, one of them empty. -/
theorem frames_round_trip_rpc :
    Yields ([payload, []].mapM (rpcCodec.fillEmptyBuffer (.new 3))) fun bufs =>
      Yields (run rpcCodec.receive ⟨.new 3, []⟩ [(bufs.map Buffer.readable).flatten]) fun s =>
        s.calls = [.message payload, .message []] ∧ s.buf.readable = [] := by
  obtain ⟨bufs, hbufs, h⟩ := frames_round_trip rpcCodec rpcCodec rfl rfl rfl
    ⟨fun _ => rfl, fun _ => rfl, fun _ _ _ => rfl⟩ rfl 3 [payload, []] (by decide) (.new 3)
    (Buffer.readable_new 3)
  exact ⟨bufs, hbufs, h _ (List.append_nil _)⟩

end Muduo.ProtobufCodecLite

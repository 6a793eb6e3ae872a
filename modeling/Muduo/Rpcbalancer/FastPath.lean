import Muduo.Rpcbalancer.RawMessage

/-!
# Forwarding without parsing

`balancer_raw.cc` forwards a message by writing another id into its frame, and parses it only where
that does not work. The two ways come to the same bytes for every message. For a frame that is no
message's they may not: one that is too short for an id and a checksum is accepted all the same, and
then the checksum is written over a part of the id.

## Main results

* `patch_faithful`: a frame that was accepted can be given any id, if and only if its id ends before
  its checksum.
* `fast_path_agrees`: the frame of a request or a response becomes the frame of the same message
  with the new id, and other messages are left to the slow path.
-/

namespace Muduo

open Machine
open ProtobufCodecLite (rpcCodec)

variable {M : Type}

namespace RawMessage

variable {c : ProtobufCodecLite M} {m : RawMessage} {bytes : List UInt8} {x : BitVec 64}

/-! ### Giving a frame another id -/

/-- The frame with the id `x`. -/
def patched (c : ProtobufCodecLite M) (m : RawMessage) (x : BitVec 64) : List UInt8 :=
  ((m.setId x).updateId c).message

/-- The patched frame is read with the new id, has the right checksum, and is the old frame outside
the eight bytes of the id and the last four bytes. -/
structure PatchedTo (c : ProtobufCodecLite M) (m : RawMessage) (x : BitVec 64) : Prop where
  id : (parse c (patched c m x)).map RawMessage.id = some x
  checksum : c.validateChecksum ((patched c m x).drop kHeaderLen) = true
  length : (patched c m x).length = m.message.length
  others : ∀ i, (i < m.loc ∨ m.loc + 8 ≤ i) → i + kChecksumLen < m.message.length →
    (patched c m x)[i]? = m.message[i]?

lemma parse_eq_some (h : parse c bytes = some m) : m.message = bytes ∧
    m.loc = kHeaderLen + c.tag.length + 3 ∧ kHeaderLen + c.tag.length + 3 + 8 ≤ bytes.length := by
  unfold parse at h
  dsimp only at h
  split at h
  · next hbody =>
    obtain ⟨-, -, hlen⟩ := hbody
    rw [List.length_drop] at hlen
    split at h
    · cases h
      exact ⟨rfl, rfl, by omega⟩
    · cases h
  · cases h

section

variable (hloc : m.loc + 8 ≤ m.message.length)
include hloc

/-- All of the patched frame but the last four bytes is the frame with the id written into it. -/
lemma patched_eq (x : BitVec 64) :
    let kept := (copyAt m.message m.loc (leBytes 8 x.toNat)).take (m.message.length - kChecksumLen)
    patched c m x = kept ++ beBytes 4 (c.checksum (kept.drop kHeaderLen)).toNat := by
  intro kept
  have hfour : kHeaderLen = 4 ∧ kChecksumLen = 4 := ⟨rfl, rfl⟩
  let written := copyAt m.message m.loc (leBytes 8 x.toNat)
  have hlen : written.length = m.message.length := length_copyAt (by rwa [length_leBytes])
  have hbody : (written.drop kHeaderLen).take ((written.drop kHeaderLen).length - kChecksumLen) =
      kept.drop kHeaderLen := by
    rw [List.drop_take, List.length_drop, hlen, Nat.sub_right_comm]
  have hend : kHeaderLen + (written.drop kHeaderLen).length - kChecksumLen =
      m.message.length - kChecksumLen := by
    rw [List.length_drop, hlen]
    omega
  have hsum : m.message.length - kChecksumLen +
      (beBytes 4 (c.checksum (kept.drop kHeaderLen)).toNat).length = written.length := by
    rw [hlen, length_beBytes]
    omega
  change copyAt written (kHeaderLen + (written.drop kHeaderLen).length - kChecksumLen)
    (Buffer.networkBytes 4 (c.checksum ((written.drop kHeaderLen).take
      ((written.drop kHeaderLen).length - kChecksumLen)))) = _
  rw [hbody, hend, Buffer.networkBytes_eq, copyAt_to_end hsum]

lemma length_patched (x : BitVec 64) : (patched c m x).length = m.message.length := by
  have hfour : kChecksumLen = 4 := rfl
  have hlen : (copyAt m.message m.loc (leBytes 8 x.toNat)).length = m.message.length :=
    length_copyAt (by rwa [length_leBytes])
  rw [patched_eq hloc, List.length_append, List.length_take, length_beBytes, hlen]
  omega

/-- The checksum is right in any case. -/
lemma validateChecksum_patched (hheader : kHeaderLen ≤ m.loc) (x : BitVec 64) :
    c.validateChecksum ((patched c m x).drop kHeaderLen) = true := by
  have hfour : kChecksumLen = 4 := rfl
  have hlen : (copyAt m.message m.loc (leBytes 8 x.toNat)).length = m.message.length :=
    length_copyAt (by rwa [length_leBytes])
  rw [patched_eq hloc, List.drop_append_of_le_length]
  · exact c.validateChecksum_append _
  · rw [List.length_take, hlen]
    omega

/-- And so are the bytes that were not to be changed. -/
lemma getElem?_patched {i : ℕ} (hi : i < m.loc ∨ m.loc + 8 ≤ i)
    (hend : i + kChecksumLen < m.message.length) (x : BitVec 64) :
    (patched c m x)[i]? = m.message[i]? := by
  have hlen : (leBytes 8 x.toNat).length = 8 := length_leBytes ..
  have hkept : i < ((copyAt m.message m.loc (leBytes 8 x.toNat)).take
      (m.message.length - kChecksumLen)).length := by
    rw [List.length_take, length_copyAt (by omega)]
    omega
  rw [patched_eq hloc, List.getElem?_append_left hkept,
    List.getElem?_take_of_lt (by omega), getElem?_copyAt (by omega) (by omega)]

/-- If the checksum begins in the id, then the last byte of the id is lost. -/
lemma patched_congr {y : BitVec 64} (hshort : m.message.length < m.loc + 8 + kChecksumLen)
    (hxy : (leBytes 8 x.toNat).take 7 = (leBytes 8 y.toNat).take 7) :
    patched c m x = patched c m y := by
  have hfour : kChecksumLen = 4 := rfl
  have hkept : ∀ z : BitVec 64, (copyAt m.message m.loc (leBytes 8 z.toNat)).take
      (m.message.length - kChecksumLen) =
        (m.message.take m.loc ++ (leBytes 8 z.toNat).take 7).take
          (m.message.length - kChecksumLen) := by
    intro z
    have htake : (m.message.take m.loc).length = m.loc := List.length_take_of_le (by omega)
    have hlen : (leBytes 8 z.toNat).length = 8 := length_leBytes ..
    rw [copyAt, List.take_append_of_le_length (by rw [List.length_append]; omega),
      List.take_append, List.take_append, List.take_take, htake, List.take_take,
      min_eq_left (show m.message.length - kChecksumLen - m.loc ≤ 7 by omega)]
  rw [patched_eq hloc, patched_eq hloc, hkept, hkept, hxy]

end

/-- A frame that `parse` accepts is patched faithfully, whatever the new id is, if and only if it
has room for the id and the checksum. -/
theorem patch_faithful (c : ProtobufCodecLite M) (bytes : List UInt8) (m : RawMessage)
    (h : parse c bytes = some m) :
    (∀ x, PatchedTo c m x) ↔
      kHeaderLen + c.tag.length + 3 + 8 + kChecksumLen ≤ bytes.length := by
  obtain ⟨rfl, hloc, hlen⟩ := parse_eq_some h
  have hend : m.loc + 8 ≤ m.message.length := by omega
  have hheader : kHeaderLen ≤ m.loc := by omega
  constructor
  · intro hall
    by_contra hshort
    -- two ids that differ in their last byte only
    have hsame : patched c m 0 = patched c m (BitVec.ofNat 64 (2 ^ 56)) :=
      patched_congr hend (by omega) (by decide)
    have hzero := (hall 0).id
    rw [hsame, (hall _).id] at hzero
    exact absurd hzero (by decide)
  · intro hroom x
    obtain ⟨hframed, -⟩ := framed_of_parse h hroom
    refine ⟨?_, validateChecksum_patched hend hheader x, length_patched hend x,
      fun i hi hlast => getElem?_patched hend hi hlast x⟩
    rw [patched, parse_updateId (hframed.setId x), Option.map_some]
    rfl

/-- The request of the test, with another id. -/
theorem patch_faithful_rpc :
    PatchedTo rpcCodec ⟨ProtobufCodecLite.wire, 2, 11⟩ (BitVec.ofNat 64 (2 ^ 56)) :=
  (patch_faithful rpcCodec ProtobufCodecLite.wire ⟨ProtobufCodecLite.wire, 2, 11⟩
    (by decide +kernel)).mpr (by decide) _

/-- The shortest frame that `parse` accepts. The upper half of its id is the checksum, which
replaces that of the new id. -/
theorem short_frame_loses_id :
    let short := sealed rpcCodec [0, 0, 0, 15] 0x01 [0, 0, 0, 0] []
    (parse rpcCodec short).isSome = true ∧
      rpcCodec.tag.length + 4 ≤ (short.drop kHeaderLen).length ∧
      ∀ m ∈ parse rpcCodec short, ¬ PatchedTo rpcCodec m 5 := by
  refine ⟨by decide +kernel, by decide, ?_⟩
  intro m hm h
  have hid : ((parse rpcCodec (sealed rpcCodec [0, 0, 0, 15] 0x01 [0, 0, 0, 0] [])).all fun m =>
      (parse rpcCodec (patched rpcCodec m 5)).map RawMessage.id ≠ some 5) = true := by
    decide +kernel
  rw [hm, Option.all_some, decide_eq_true_eq] at hid
  exact hid h.id

end RawMessage

/-! ### The fast path and the slow path -/

def MessageType.number : MessageType → UInt8
  | .REQUEST => 1
  | .RESPONSE => 2
  | .ERROR => 3

/-- The messages are those of `rpc.proto`, and the library writes their fields in the order of the
fields' numbers: the type as `08` and its number, the id as `11` and eight bytes, and `rest`, which
is all the others. Both are required fields. -/
structure RpcFields (P : Protobuf M) where
  type : M → MessageType
  id : M → BitVec 64
  setId : M → BitVec 64 → M
  rest : M → List UInt8
  type_setId : ∀ m x, type (setId m x) = type m
  id_setId : ∀ m x, id (setId m x) = x
  rest_setId : ∀ m x, rest (setId m x) = rest m
  isInitialized : ∀ m, P.isInitialized m = true
  byteSize : ∀ m, P.byteSize m = (P.serializeWithCachedSizesToArray m).length
  serialize : ∀ m, P.serializeWithCachedSizesToArray m =
    [0x08, (type m).number, 0x11] ++ (leBytes 8 (id m).toNat ++ rest m)

namespace RpcFields

variable {c : ProtobufCodecLite M} (F : RpcFields c.prototype) {m : M} {x : BitVec 64}

/-- The id has a fixed length. -/
lemma byteSize_setId (m : M) (x : BitVec 64) :
    c.prototype.byteSize (F.setId m x) = c.prototype.byteSize m := by
  rw [F.byteSize, F.byteSize, F.serialize, F.serialize, F.type_setId, F.rest_setId]
  simp only [List.length_append, length_leBytes]

lemma length_body_setId (m : M) (x : BitVec 64) :
    (c.body (F.setId m x)).length = (c.body m).length := by
  have hlength : ∀ m, (c.body m).length = c.tag.length + c.prototype.byteSize m + kChecksumLen := by
    intro m
    rw [ProtobufCodecLite.length_body, ProtobufCodecLite.length_content (F.byteSize m)]
  rw [hlength, hlength, F.byteSize_setId]

lemma number_of_ne (h : F.type m ≠ .ERROR) :
    (F.type m).number = 0x01 ∨ (F.type m).number = 0x02 := by
  cases htype : F.type m with
  | REQUEST => exact .inl rfl
  | RESPONSE => exact .inr rfl
  | ERROR => exact absurd htype h

lemma parse_encode_error (h : F.type m = .ERROR) : RawMessage.parse c (c.encode m) = none := by
  have hheader : (beBytes 4 (c.body m).length).length = kHeaderLen := length_beBytes ..
  rw [RawMessage.encode_eq_sealed (F.serialize m),
    RawMessage.parse_sealed_eq hheader (length_leBytes ..), h]
  rfl

/-- The frame of a request or a response is read, and patching it makes the frame of the message
with the new id. -/
lemma patch_encode (h : F.type m ≠ .ERROR) (x : BitVec 64) :
    ∃ raw, RawMessage.parse c (c.encode m) = some raw ∧ raw.id = F.id m ∧
      ((raw.setId x).updateId c).message = c.encode (F.setId m x) := by
  have hlt : (F.id m).toNat < 256 ^ 8 := (F.id m).isLt
  rw [RawMessage.encode_eq_sealed (F.serialize m),
    RawMessage.encode_eq_sealed (F.serialize (F.setId m x)), F.type_setId, F.rest_setId,
    F.id_setId, F.length_body_setId]
  refine ⟨_, RawMessage.parse_sealed (length_beBytes ..) (F.number_of_ne h) (length_leBytes ..),
    ?_, ?_⟩
  · dsimp only
    rw [ofLeBytes_leBytes, Nat.mod_eq_of_lt hlt, BitVec.ofNat_toNat, BitVec.setWidth_eq]
  · rw [RawMessage.updateId_eq rfl rfl (length_beBytes ..) (length_leBytes ..)
      (length_beBytes ..)]
    rfl

/-- Patching the frame of a request or a response is the same as parsing it, setting the id and
serialising it again. The frames of other messages are not accepted. -/
theorem fast_path_agrees (c : ProtobufCodecLite M) (F : RpcFields c.prototype) (n : ℕ) (m : M)
    (hsize : c.prototype.byteSize m + kChecksumLen < 2 ^ 31) (x : BitVec 64) :
    Yields (c.fillEmptyBuffer (Buffer.new n) m) fun frame =>
      (F.type m = .REQUEST ∨ F.type m = .RESPONSE →
        ∃ raw, RawMessage.parse c frame.readable = some raw ∧ raw.id = F.id m ∧
          Yields (c.fillEmptyBuffer (Buffer.new n) (F.setId m x)) fun frame' =>
            ((raw.setId x).updateId c).message = frame'.readable) ∧
      (F.type m ≠ .REQUEST → F.type m ≠ .RESPONSE →
        RawMessage.parse c frame.readable = none) := by
  obtain ⟨frame, hframe, hread⟩ :=
    ProtobufCodecLite.fillEmptyBuffer_spec (F.isInitialized m) (F.byteSize m) hsize n
  obtain ⟨frame', hframe', hread'⟩ := ProtobufCodecLite.fillEmptyBuffer_spec
    (F.isInitialized (F.setId m x)) (F.byteSize _) (by rwa [F.byteSize_setId]) n
  refine ⟨frame, hframe, ?_, ?_⟩
  · intro htype
    have hne : F.type m ≠ .ERROR := by
      rintro heq
      rw [heq] at htype
      rcases htype with h | h <;> cases h
    obtain ⟨raw, hraw, hid, hpatch⟩ := F.patch_encode hne x
    exact ⟨raw, by rw [hread, hraw], hid, frame', hframe', hpatch.trans hread'.symm⟩
  · intro hrequest hresponse
    have htype : F.type m = .ERROR := by
      cases heq : F.type m with
      | REQUEST => exact absurd heq hrequest
      | RESPONSE => exact absurd heq hresponse
      | ERROR => rfl
    rw [hread, F.parse_encode_error htype]

/-- Messages whose other fields are kept as they are serialised. -/
def rpcMessages : Protobuf (MessageType × BitVec 64 × List UInt8) where
  isInitialized _ := true
  byteSize m := 11 + m.2.2.length
  serializeWithCachedSizesToArray m :=
    [0x08, m.1.number, 0x11] ++ (leBytes 8 m.2.1.toNat ++ m.2.2)
  parseFromArray bytes :=
    match bytes with
    | 0x08 :: t :: 0x11 :: l =>
      if 8 ≤ l.length then
        ([MessageType.REQUEST, .RESPONSE, .ERROR].find? fun type => type.number = t).map
          fun type => (type, BitVec.ofNat 64 (ofLeBytes (l.take 8)), l.drop 8)
      else
        none
    | _ => none

def rpcMessageCodec : ProtobufCodecLite (MessageType × BitVec 64 × List UInt8) where
  prototype := rpcMessages
  adler32 := ProtobufCodecLite.zlibAdler32
  tag := ascii "RPC0"
  tag_fits := rpcCodec.tag_fits
  rawCb := none
  errorCallback := ProtobufCodecLite.defaultErrorCallback

def rpcMessageFields : RpcFields rpcMessageCodec.prototype where
  type m := m.1
  id m := m.2.1
  setId m x := (m.1, x, m.2.2)
  rest m := m.2.2
  type_setId _ _ := rfl
  id_setId _ _ := rfl
  rest_setId _ _ := rfl
  isInitialized _ := rfl
  byteSize m := by
    change 11 + m.2.2.length = ([0x08, m.1.number, 0x11] ++ (leBytes 8 m.2.1.toNat ++ m.2.2)).length
    simp only [List.length_append, length_leBytes, ← Nat.add_assoc]
    rfl
  serialize _ := rfl

/-- A response with a field behind its id, which goes back under the id of its request. -/
theorem fast_path_agrees_response :
    Yields (rpcMessageCodec.fillEmptyBuffer (.new 3) (.RESPONSE, 7, [0x32, 1, 0])) fun frame =>
      ∃ raw, RawMessage.parse rpcMessageCodec frame.readable = some raw ∧ raw.id = 7 ∧
        Yields (rpcMessageCodec.fillEmptyBuffer (.new 3) (.RESPONSE, 2, [0x32, 1, 0])) fun frame' =>
          ((raw.setId 2).updateId rpcMessageCodec).message = frame'.readable := by
  obtain ⟨frame, hframe, hpatch, -⟩ := fast_path_agrees rpcMessageCodec rpcMessageFields 3
    (.RESPONSE, 7, [0x32, 1, 0]) (by decide) 2
  exact ⟨frame, hframe, hpatch (.inr rfl)⟩

end RpcFields

end Muduo

import Muduo.Machine.Memory
import Muduo.Protorpc.Framing
import Muduo.Rpcbalancer.Balancer

/-!
# Messages that stay in their frames

`RawMessage` of `protobuf/rpcbalancer/balancer_raw.cc`. The balancer finds the id of a message in
the frame in which it arrives, writes another one over it and makes the checksum right again,
without parsing the message.

`parse` does not ask for more than the tag, the type and the id, so that the checksum of a very
short frame may lie in its id. No message has so short a frame: `Framed` says that the checksum
comes behind the id.

## Main results

* `parse_updateId`: the frame that is sent has the new id.
-/

namespace Muduo

open Machine
open ProtobufCodecLite (rpcCodec)

variable {M : Type}

/-- `loc` is an index into `message`. -/
structure RawMessage where
  message : List UInt8
  id : BitVec 64
  loc : ℕ
  deriving DecidableEq, Repr

namespace RawMessage

def setId (m : RawMessage) (x : BitVec 64) : RawMessage := { m with id := x }

def parse (c : ProtobufCodecLite M) (message : List UInt8) : Option RawMessage :=
  let body := message.drop kHeaderLen
  let bodylen := body.length
  let taglen := c.tag.length
  if c.validateChecksum body = true ∧ body.take taglen = c.tag ∧ taglen + 3 + 8 ≤ bodylen then
    let p := body.drop taglen
    if p[0]? = some 0x08 ∧ (p[1]? = some 0x01 ∨ p[1]? = some 0x02) ∧ p[2]? = some 0x11 then
      some ⟨message, BitVec.ofNat 64 (ofLeBytes ((p.drop 3).take 8)), kHeaderLen + taglen + 3⟩
    else
      none
  else
    none

def updateId (c : ProtobufCodecLite M) (m : RawMessage) : RawMessage :=
  let message := copyAt m.message m.loc (leBytes 8 m.id.toNat)
  let body := message.drop kHeaderLen
  let checkSum := c.checksum (body.take (body.length - kChecksumLen))
  { m with
    message := copyAt message (kHeaderLen + body.length - kChecksumLen)
      (Buffer.networkBytes 4 checkSum) }

/-! ### The place of the id -/

/-- Tag and payload of a frame whose message has this type and this id. -/
def content (c : ProtobufCodecLite M) (type : UInt8) (id rest : List UInt8) : List UInt8 :=
  c.tag ++ ([0x08, type, 0x11] ++ (id ++ rest))

/-- The id is in its place, and the checksum is behind it. -/
def Framed (c : ProtobufCodecLite M) (m : RawMessage) : Prop :=
  m.loc = kHeaderLen + c.tag.length + 3 ∧
    ∃ header type id rest sum, m.message = header ++ (content c type id rest ++ sum) ∧
      header.length = kHeaderLen ∧ (type = 0x01 ∨ type = 0x02) ∧ id.length = 8 ∧
      sum.length = kChecksumLen

variable {c : ProtobufCodecLite M} {m : RawMessage} {header id rest : List UInt8} {type : UInt8}

lemma Framed.setId (h : m.Framed c) (x : BitVec 64) : (m.setId x).Framed c := h

/-- A frame with this content, and with its checksum. -/
def sealed (c : ProtobufCodecLite M) (header : List UInt8) (type : UInt8) (id rest : List UInt8) :
    List UInt8 :=
  header ++ (content c type id rest ++ beBytes 4 (c.checksum (content c type id rest)).toNat)

lemma length_content (c : ProtobufCodecLite M) (type : UInt8) (id rest : List UInt8) :
    (content c type id rest).length = c.tag.length + (3 + (id.length + rest.length)) := by
  rw [content, List.length_append, List.length_append, List.length_append]
  rfl

/-- A frame with its checksum and its tag is read by its type. -/
lemma parse_sealed_eq (hheader : header.length = kHeaderLen) (hid : id.length = 8) :
    parse c (sealed c header type id rest) =
      if type = 0x01 ∨ type = 0x02 then
        some ⟨sealed c header type id rest, BitVec.ofNat 64 (ofLeBytes id),
          kHeaderLen + c.tag.length + 3⟩
      else none := by
  let sum := beBytes 4 (c.checksum (content c type id rest)).toNat
  have hbody : (sealed c header type id rest).drop kHeaderLen = content c type id rest ++ sum :=
    List.drop_left' hheader
  have htag : (content c type id rest ++ sum).take c.tag.length = c.tag := by
    rw [content, List.append_assoc, List.take_left]
  have hpayload : (content c type id rest ++ sum).drop c.tag.length =
      0x08 :: type :: 0x11 :: (id ++ (rest ++ sum)) := by
    rw [content, List.append_assoc, List.drop_left, List.append_assoc, List.append_assoc]
    rfl
  have hlen : c.tag.length + 3 + 8 ≤ (content c type id rest ++ sum).length := by
    rw [List.length_append, length_content]
    omega
  have hread : (id ++ (rest ++ sum)).take 8 = id := List.take_left' hid
  rw [parse]
  dsimp only
  rw [hbody, if_pos ⟨c.validateChecksum_append _, htag, hlen⟩, hpayload]
  refine ite_congr ?_ (fun _ => ?_) fun _ => rfl
  · simp
  · exact congrArg (fun l => some (RawMessage.mk _ (BitVec.ofNat 64 (ofLeBytes l)) _)) hread

lemma parse_sealed (hheader : header.length = kHeaderLen) (htype : type = 0x01 ∨ type = 0x02)
    (hid : id.length = 8) : parse c (sealed c header type id rest) =
      some ⟨sealed c header type id rest, BitVec.ofNat 64 (ofLeBytes id),
        kHeaderLen + c.tag.length + 3⟩ := by
  rw [parse_sealed_eq hheader hid, if_pos htype]

/-- The id and the checksum are written over the old ones. -/
lemma updateId_eq {sum : List UInt8} (hloc : m.loc = kHeaderLen + c.tag.length + 3)
    (hmessage : m.message = header ++ (content c type id rest ++ sum))
    (hheader : header.length = kHeaderLen) (hid : id.length = 8)
    (hsum : sum.length = kChecksumLen) :
    updateId c m = ⟨sealed c header type (leBytes 8 m.id.toNat) rest, m.id,
      kHeaderLen + c.tag.length + 3⟩ := by
  let new := content c type (leBytes 8 m.id.toNat) rest
  have hplace : ∀ l, header ++ (content c type l rest ++ sum) =
      (header ++ (c.tag ++ [0x08, type, 0x11])) ++ (l ++ (rest ++ sum)) := by
    intro l
    simp only [content, List.append_assoc]
  have hwrite : copyAt m.message m.loc (leBytes 8 m.id.toNat) = header ++ (new ++ sum) := by
    rw [hmessage, hplace, hplace]
    refine copyAt_append ?_ ?_
    · rw [hloc, List.length_append, List.length_append, hheader, ← Nat.add_assoc]
      rfl
    · rw [length_leBytes, hid]
  have hbody : (header ++ (new ++ sum)).drop kHeaderLen = new ++ sum := List.drop_left' hheader
  have hlen : (new ++ sum).length - kChecksumLen = new.length := by
    rw [List.length_append, hsum, Nat.add_sub_cancel]
  have hend : kHeaderLen + (new ++ sum).length - kChecksumLen = (header ++ new).length := by
    rw [List.length_append, List.length_append, hsum, hheader, ← Nat.add_assoc, Nat.add_sub_cancel]
  rw [updateId, hwrite, hbody, hlen, List.take_left, hend, Buffer.networkBytes_eq, hloc,
    ← List.append_assoc header, ← List.append_nil sum,
    copyAt_append rfl (by rw [length_beBytes, hsum]; rfl), List.append_nil, List.append_assoc]
  rfl

lemma updateId_framed (h : m.Framed c) : ∃ header type rest, header.length = kHeaderLen ∧
    (type = 0x01 ∨ type = 0x02) ∧
    updateId c m = ⟨sealed c header type (leBytes 8 m.id.toNat) rest, m.id,
      kHeaderLen + c.tag.length + 3⟩ := by
  obtain ⟨hloc, header, type, id, rest, sum, hmessage, hheader, htype, hid, hsum⟩ := h
  exact ⟨header, type, rest, hheader, htype, updateId_eq hloc hmessage hheader hid hsum⟩

lemma parse_updateId (h : m.Framed c) :
    parse c (updateId c m).message = some (updateId c m) := by
  obtain ⟨header, type, rest, hheader, htype, heq⟩ := updateId_framed h
  have hid : BitVec.ofNat 64 (ofLeBytes (leBytes 8 m.id.toNat)) = m.id := by
    have hlt : m.id.toNat < 256 ^ 8 := m.id.isLt
    rw [ofLeBytes_leBytes, Nat.mod_eq_of_lt hlt, BitVec.ofNat_toNat, BitVec.setWidth_eq]
  rw [heq]
  dsimp only
  rw [parse_sealed hheader htype (length_leBytes 8 _), hid]

lemma exists_payload {p : List UInt8} (h : p[0]? = some 0x08 ∧
    (p[1]? = some 0x01 ∨ p[1]? = some 0x02) ∧ p[2]? = some 0x11) :
    ∃ type q, (type = 0x01 ∨ type = 0x02) ∧ p = 0x08 :: type :: 0x11 :: q := by
  match p, h with
  | a :: type :: b :: q, ⟨ha, htype, hb⟩ =>
    cases ha
    cases hb
    exact ⟨type, q, htype.imp Option.some.inj Option.some.inj, rfl⟩

/-- What `parse` accepts has its id in its place, unless the frame is too short for the checksum. -/
lemma framed_of_parse {bytes : List UInt8} (h : parse c bytes = some m)
    (hlen : kHeaderLen + c.tag.length + 3 + 8 + kChecksumLen ≤ bytes.length) :
    m.Framed c ∧ m.message = bytes := by
  unfold parse at h
  dsimp only at h
  split at h
  · next hbody =>
    obtain ⟨-, htag, -⟩ := hbody
    split at h
    · next hpayload =>
      cases h
      obtain ⟨type, q, htype, hq⟩ := exists_payload hpayload
      have hbytes : bytes = bytes.take kHeaderLen ++ (c.tag ++ (0x08 :: type :: 0x11 :: q)) := by
        conv_lhs => rw [← List.take_append_drop kHeaderLen bytes,
          ← List.take_append_drop c.tag.length (bytes.drop kHeaderLen), htag, hq]
      have hheader : (bytes.take kHeaderLen).length = kHeaderLen := by
        rw [List.length_take]
        omega
      have hlength : 8 + kChecksumLen ≤ q.length := by
        rw [hbytes, List.length_append, List.length_append, hheader] at hlen
        simp only [List.length_cons] at hlen
        omega
      let rest := q.drop 8
      have hrest : kChecksumLen ≤ rest.length := by
        rw [List.length_drop]
        omega
      refine ⟨⟨rfl, bytes.take kHeaderLen, type, q.take 8, rest.take (rest.length - kChecksumLen),
        rest.drop (rest.length - kChecksumLen), ?_, hheader, htype, ?_, ?_⟩, rfl⟩
      · change bytes = _
        conv_lhs => rw [hbytes]
        rw [content, List.append_assoc, List.append_assoc, List.append_assoc,
          List.take_append_drop, List.take_append_drop]
        rfl
      · rw [List.length_take]
        omega
      · rw [List.length_drop]
        omega
    · cases h
  · cases h

lemma encode_eq_sealed {message : M} (hbytes : c.prototype.serializeWithCachedSizesToArray message =
      [0x08, type, 0x11] ++ (id ++ rest)) :
    c.encode message = sealed c (beBytes 4 (c.body message).length) type id rest := by
  have hcontent : c.content message = content c type id rest := by
    rw [ProtobufCodecLite.content, hbytes]
    rfl
  rw [ProtobufCodecLite.encode, ProtobufCodecLite.body, hcontent]
  rfl

end RawMessage

/-- The raw messages of a codec. -/
def RawFrame (c : ProtobufCodecLite M) : Type := { m : RawMessage // m.Framed c }

/-- A raw message is sent as the bytes of its frame, and read again at the other end. -/
instance (c : ProtobufCodecLite M) : Carrier (RawFrame c) (List UInt8) where
  id m := m.1.id
  setId m x := ⟨m.1.setId x, m.2.setId x⟩
  sendTo m := (m.1.updateId c).message
  wireId bytes := (RawMessage.parse c bytes).map RawMessage.id
  wireId_sendTo m x := by
    rw [RawMessage.parse_updateId (m.2.setId x), Option.map_some]
    rfl

/-- The balancer handles what it can as a raw message, and parses what it cannot. -/
instance {N W V : Type} [Carrier M W] [Carrier N V] : Carrier (M ⊕ N) (W ⊕ V) where
  id := Sum.elim Carrier.id Carrier.id
  setId m x := m.map (Carrier.setId · x) (Carrier.setId · x)
  sendTo := Sum.map Carrier.sendTo Carrier.sendTo
  wireId := Sum.elim (Carrier.wireId (M := M)) (Carrier.wireId (M := N))
  wireId_sendTo m x := by
    cases m with
    | inl m => exact Carrier.wireId_sendTo m x
    | inr m => exact Carrier.wireId_sendTo m x

end Muduo

import Muduo.ProtobufCodec.Basic
import Muduo.Protorpc.Framing

/-!
# Reading what was written

Whatever bytes arrive as a frame, `parse` stays within them, and what `fillEmptyBuffer` has written
it reads again.

## Main results

* `parse_inverts_fillEmptyBuffer`: `parse` reads no byte outside the frame, accepts only what has
  the right checksum and a name that fits, and gives back the message that a frame was made of.
-/

namespace Muduo

open Machine

/-- The library as it is documented: it writes as many bytes as it says, no type is without a name,
and a message without missing fields is read by a message of its type. -/
structure MessageLibrary.Lawful {D M : Type} (L : MessageLibrary D M) : Prop where
  byteSize : ∀ m, L.byteSize m = (L.serializeWithCachedSizesToArray m).length
  typeName_ne_nil : ∀ m, L.getTypeName m ≠ []
  parse_serialize : ∀ m p, L.isInitialized m = true → L.getTypeName p = L.getTypeName m →
    L.parseFromArray p (L.serializeWithCachedSizesToArray m) = (true, m)

namespace ProtobufCodec

open ProtobufCodecLite (asInt32 asInt32_beBytes)

variable {D M : Type} {c : ProtobufCodec D M} {buf : List UInt8} {m : M}

/-! ### The parts of a frame -/

/-- The checksum at the end is that of what comes before it. -/
def ValidChecksum (c : ProtobufCodec D M) (buf : List UInt8) : Prop :=
  (c.adler32 (buf.take (buf.length - kHeaderLen))).toBitVec =
    asInt32 (buf.drop (buf.length - kHeaderLen))

instance (c : ProtobufCodec D M) (buf : List UInt8) : Decidable (c.ValidChecksum buf) :=
  inferInstanceAs (Decidable (_ = _))

/-- The length of the name, as the frame gives it. -/
def nameLen (buf : List UInt8) : ℤ := (asInt32 buf).toInt

/-- The name fits between its length and the checksum. -/
def ValidName (buf : List UInt8) : Prop :=
  2 ≤ nameLen buf ∧ nameLen buf ≤ buf.length - 2 * kHeaderLen

instance (buf : List UInt8) : Decidable (ValidName buf) := inferInstanceAs (Decidable (_ ∧ _))

/-- The name without the zero behind it. -/
def typeName (buf : List UInt8) : List UInt8 :=
  slice buf kHeaderLen (kHeaderLen + (nameLen buf).toNat - 1)

/-- What is between the name and the checksum. -/
def payload (buf : List UInt8) : List UInt8 :=
  slice buf (kHeaderLen + (nameLen buf).toNat) (buf.length - kHeaderLen)

lemma bytesAt_eq {i n : ℤ} (hi : 0 ≤ i) (hn : 0 ≤ n) (h : i + n ≤ buf.length) :
    bytesAt buf i n = .ok (slice buf i.toNat (i + n).toNat) := by
  rw [bytesAt, check_of ⟨hi, hn, h⟩]
  rfl

lemma asInt32_append {x : List UInt8} (hx : x.length = 4) (y : List UInt8) :
    asInt32 (x ++ y) = asInt32 x := by
  rw [asInt32, asInt32, List.take_append_of_le_length hx.ge]

/-! ### Parsing -/

lemma parseData_eq (hname : ValidName buf) (p : M) :
    c.parseData buf (nameLen buf) p =
      .ok ⟨some (c.library.parseFromArray p (payload buf)).2,
        if (c.library.parseFromArray p (payload buf)).1 then .kNoError else .kParseError,
        some (kHeaderLen + nameLen buf, buf.length - nameLen buf - 2 * kHeaderLen)⟩ := by
  obtain ⟨hlow, hhigh⟩ := hname
  have hstart : (kHeaderLen + nameLen buf).toNat = kHeaderLen + (nameLen buf).toNat := by
    omega
  have hstop : (kHeaderLen + nameLen buf + (buf.length - nameLen buf - 2 * kHeaderLen)).toNat =
      buf.length - kHeaderLen := by
    omega
  rw [parseData]
  dsimp only
  rw [bytesAt_eq (by omega) (by omega) (by omega), ok_bind, hstart, hstop]
  rfl

/-- All that `parse` does, on a frame that is long enough. -/
lemma parse_eq (hlen : kMinMessageLen ≤ buf.length) :
    c.parse buf =
      if c.ValidChecksum buf then
        if ValidName buf then
          match c.createMessage (typeName buf) with
          | some message => c.parseData buf (nameLen buf) message
          | none => .ok ⟨none, .kUnknownMessageType, none⟩
        else .ok ⟨none, .kInvalidNameLen, none⟩
      else .ok ⟨none, .kCheckSumError, none⟩ := by
  have hmin : kMinMessageLen = 10 := rfl
  have hheader : kHeaderLen = 4 := rfl
  have hsum : bytesAt buf (buf.length - kHeaderLen) 4 =
      .ok (buf.drop (buf.length - kHeaderLen)) := by
    rw [bytesAt_eq (by omega) (by omega) (by omega)]
    have hstart : ((buf.length : ℤ) - kHeaderLen).toNat = buf.length - kHeaderLen := by omega
    have hstop : ((buf.length : ℤ) - kHeaderLen + 4).toNat = buf.length := by omega
    rw [hstart, hstop, slice, List.take_length]
  have hcontent : bytesAt buf 0 (buf.length - kHeaderLen) =
      .ok (buf.take (buf.length - kHeaderLen)) := by
    rw [bytesAt_eq (by omega) (by omega) (by omega)]
    have hstop : ((0 : ℤ) + (buf.length - kHeaderLen)).toNat = buf.length - kHeaderLen := by omega
    rw [hstop]
    rfl
  have hnameLen : bytesAt buf 0 4 = .ok (buf.take 4) := bytesAt_eq (by omega) (by omega) (by omega)
  have htake : asInt32 (buf.take 4) = asInt32 buf := by
    rw [asInt32, asInt32, List.take_take, Nat.min_self]
  rw [parse, hsum, hcontent, hnameLen]
  simp only [Functor.map, Except.map, ok_bind, htake]
  refine ite_congr rfl (fun _ => ?_) fun _ => rfl
  refine ite_congr rfl (fun hname => ?_) fun _ => rfl
  obtain ⟨hlow, hhigh⟩ : ValidName buf := hname
  have hstop : (kHeaderLen + (nameLen buf - 1)).toNat =
      kHeaderLen + (nameLen buf).toNat - 1 := by
    omega
  change bytesAt buf kHeaderLen (nameLen buf - 1) >>= _ = _
  rw [bytesAt_eq (by omega) (by omega) (by omega), ok_bind, hstop]
  rfl

/-- The reads stay in the frame, and what is handed to the library is what is between the name and
the checksum. -/
lemma parse_spec (hlen : kMinMessageLen ≤ buf.length) : Yields (c.parse buf) fun r =>
    (∀ data dataLen, r.span = some (data, dataLen) → 0 ≤ dataLen ∧
      data = kHeaderLen + nameLen buf ∧ data + dataLen = buf.length - kHeaderLen) ∧
    (r.error = .kNoError → c.ValidChecksum buf ∧ ValidName buf) := by
  rw [parse_eq hlen]
  by_cases hsum : c.ValidChecksum buf
  · rw [if_pos hsum]
    by_cases hname : ValidName buf
    · rw [if_pos hname]
      cases c.createMessage (typeName buf) with
      | none => exact ⟨_, rfl, nofun, nofun⟩
      | some p =>
        dsimp only
        rw [parseData_eq hname]
        refine ⟨_, rfl, ?_, fun _ => ⟨hsum, hname⟩⟩
        rintro data dataLen ⟨⟩
        obtain ⟨-, hhigh⟩ := hname
        refine ⟨by omega, rfl, by omega⟩
    · rw [if_neg hname]
      exact ⟨_, rfl, nofun, nofun⟩
  · rw [if_neg hsum]
    exact ⟨_, rfl, nofun, nofun⟩

/-! ### Encoding -/

/-- What the checksum of a frame is made of. -/
def content (c : ProtobufCodec D M) (m : M) : List UInt8 :=
  beBytes 4 ((c.library.getTypeName m).length + 1) ++
    (c.library.getTypeName m ++ 0 :: c.library.serializeWithCachedSizesToArray m)

/-- What follows the length. -/
def body (c : ProtobufCodec D M) (m : M) : List UInt8 :=
  c.content m ++ beBytes 4 (c.adler32 (c.content m)).toNat

/-- The length of the body. -/
def frameLength (c : ProtobufCodec D M) (m : M) : ℕ :=
  4 + ((c.library.getTypeName m).length + 1) + c.library.byteSize m + 4

/-- `createMessage` knows the type of the message. -/
def Registered (c : ProtobufCodec D M) (m : M) : Prop :=
  ∃ p, c.createMessage (c.library.getTypeName m) = some p ∧
    c.library.getTypeName p = c.library.getTypeName m

lemma length_content (hlib : c.library.Lawful) : (c.content m).length + 4 = c.frameLength m := by
  rw [content, frameLength, hlib.byteSize]
  simp only [List.length_append, length_beBytes, List.length_cons]
  omega

lemma length_body (hlib : c.library.Lawful) : (c.body m).length = c.frameLength m := by
  rw [body, List.length_append, length_beBytes, length_content hlib]

lemma body_eq (c : ProtobufCodec D M) (m : M) : c.body m =
    beBytes 4 ((c.library.getTypeName m).length + 1) ++ (c.library.getTypeName m ++
      (0 :: (c.library.serializeWithCachedSizesToArray m ++
        beBytes 4 (c.adler32 (c.content m)).toNat))) := by
  rw [body]
  generalize beBytes 4 (c.adler32 (c.content m)).toNat = sum
  rw [content, List.append_assoc, List.append_assoc, List.cons_append]

lemma validChecksum_body (c : ProtobufCodec D M) (m : M) : c.ValidChecksum (c.body m) := by
  have hlen : (c.body m).length - kHeaderLen = (c.content m).length := by
    rw [body, List.length_append, length_beBytes]
    exact Nat.add_sub_cancel ..
  unfold ValidChecksum
  rw [hlen, body, List.take_left, List.drop_left]
  exact (asInt32_beBytes _).symm

section

variable (hlen : c.frameLength m ≤ kMaxMessageLen)
include hlen

lemma nameLen_body : nameLen (c.body m) = (c.library.getTypeName m).length + 1 := by
  have hmax : kMaxMessageLen = 2 ^ 26 := by decide
  have hlt : (c.library.getTypeName m).length + 1 < 2 ^ 31 := by
    unfold frameLength at hlen
    omega
  have hword : (BitVec.ofNat 32 ((c.library.getTypeName m).length + 1)).toNat =
      (c.library.getTypeName m).length + 1 := Nat.mod_eq_of_lt (by omega)
  rw [nameLen, body_eq, asInt32_append (length_beBytes ..)]
  conv_lhs => rw [← hword, asInt32_beBytes, BitVec.toInt_eq_toNat_cond, hword]
  rw [if_pos (by omega)]
  rfl

lemma toNat_nameLen_body :
    (nameLen (c.body m)).toNat = (c.library.getTypeName m).length + 1 := by
  rw [nameLen_body hlen]
  rfl

lemma typeName_body : typeName (c.body m) = c.library.getTypeName m := by
  have hstop : kHeaderLen + ((c.library.getTypeName m).length + 1) - 1 =
      kHeaderLen + (c.library.getTypeName m).length := rfl
  have hheader : (beBytes 4 ((c.library.getTypeName m).length + 1)).length = kHeaderLen := rfl
  rw [typeName, toNat_nameLen_body hlen, hstop, slice, List.drop_take, body_eq,
    List.drop_left' hheader, Nat.add_sub_cancel_left, List.take_left]

lemma payload_body :
    payload (c.body m) = c.library.serializeWithCachedSizesToArray m := by
  have hstart : kHeaderLen + ((c.library.getTypeName m).length + 1) =
      (beBytes 4 ((c.library.getTypeName m).length + 1) ++
        (c.library.getTypeName m ++ [0])).length := by
    simp only [List.length_append, length_beBytes, List.length_singleton]
    rfl
  have hsplit : c.content m = beBytes 4 ((c.library.getTypeName m).length + 1) ++
      (c.library.getTypeName m ++ [0]) ++ c.library.serializeWithCachedSizesToArray m := by
    rw [content]
    simp only [List.append_assoc, List.cons_append, List.nil_append]
  have hstop : (c.body m).length - kHeaderLen = (c.content m).length := by
    rw [body, List.length_append, length_beBytes]
    exact Nat.add_sub_cancel ..
  rw [payload, toNat_nameLen_body hlen, hstop, slice, body, List.take_left, hstart, hsplit,
    List.drop_left]

variable (hlib : c.library.Lawful)
include hlib

lemma validName_body : ValidName (c.body m) := by
  have hpos := List.length_pos_of_ne_nil (hlib.typeName_ne_nil m)
  have hheader : kHeaderLen = 4 := rfl
  unfold ValidName
  rw [nameLen_body hlen, length_body hlib, frameLength]
  omega

lemma parse_body (hreg : c.Registered m) (hinit : c.library.isInitialized m = true) :
    Yields (c.parse (c.body m)) fun r => r.message = some m ∧ r.error = .kNoError := by
  obtain ⟨p, hp, htype⟩ := hreg
  have hname := validName_body hlen hlib
  have hmin : kMinMessageLen ≤ (c.body m).length := by
    have := hname.1.trans hname.2
    have hheader : kHeaderLen = 4 := rfl
    have hmin : kMinMessageLen = 10 := rfl
    omega
  have hparse := hlib.parse_serialize m p hinit htype
  rw [parse_eq hmin, if_pos (c.validChecksum_body m), if_pos hname, typeName_body hlen, hp]
  dsimp only
  rw [parseData_eq hname, payload_body hlen, hparse]
  exact ⟨_, rfl, rfl, rfl⟩

/-- The frame is written into a fresh buffer, and no assertion fails. -/
lemma fillEmptyBuffer_spec (hinit : c.library.isInitialized m = true) (n : ℕ) :
    Yields (c.fillEmptyBuffer (Buffer.new n) m) fun buf =>
      buf.readable = beBytes 4 (c.frameLength m) ++ c.body m := by
  have hmax : kMaxMessageLen = 2 ^ 26 := by decide
  have hsizes := hlen
  unfold frameLength at hsizes
  have hbytes := hlib.byteSize m
  have hempty : (Buffer.new n).readableBytes = 0 := Nat.sub_self _
  have hname : (c.library.getTypeName m).length + 1 < 2 ^ 31 := by omega
  have hint : c.library.byteSize m < 2 ^ 31 := by omega
  have hword : (BitVec.ofNat 32 ((c.library.getTypeName m).length + 1)).toNat =
      (c.library.getTypeName m).length + 1 := Nat.mod_eq_of_lt (by omega)
  obtain ⟨b₁, hb₁, hholds₁⟩ : Yields ((Buffer.new n).appendInt32
      (BitVec.ofNat 32 ((c.library.getTypeName m).length + 1))) _ :=
    (Buffer.holds_new n).append _
  obtain ⟨b₂, hb₂, hholds₂⟩ := hholds₁.append (c.library.getTypeName m ++ [0])
  obtain ⟨⟨b₃, hroom₃⟩, hb₃, hholds₃⟩ := hholds₂.ensureWritableBytes (c.library.byteSize m)
  have hfits : (c.library.serializeWithCachedSizesToArray m).length ≤ b₃.writableBytes := by omega
  obtain ⟨b₄, hb₄, hholds₄⟩ := hholds₃.write hfits
  have hserialize : c.serializeToBuffer b₂ m = .ok (c.library.byteSize m, b₄) := by
    rw [serializeToBuffer, check_of hinit, ok_bind]
    dsimp only
    rw [check_of hint, ok_bind, hb₃, ok_bind]
    dsimp only
    rw [dif_pos hfits, check_of hbytes.symm, ok_bind, hbytes, hb₄]
    rfl
  have hcontent : b₄.readable = c.content m := by
    rw [hholds₄.1, Buffer.networkBytes_eq, hword, content]
    simp only [List.nil_append, List.append_assoc, List.cons_append]
  obtain ⟨b₅, hb₅, hholds₅⟩ : Yields (b₄.appendInt32 (c.adler32 b₄.readable).toBitVec) _ :=
    hholds₄.append _
  have hbody : b₅.readable = c.body m := by
    rw [hholds₅.1, ← hholds₄.1, Buffer.networkBytes_eq, hcontent]
    rfl
  have hsize : b₅.readableBytes = c.frameLength m := by
    rw [← b₅.length_readable, hbody, length_body hlib]
  have hheader : Buffer.networkBytes 4 (BitVec.ofNat 32 b₅.readableBytes) =
      beBytes 4 (c.frameLength m) := by
    have htoNat : (BitVec.ofNat 32 b₅.readableBytes).toNat = b₅.readableBytes :=
      Nat.mod_eq_of_lt (by omega)
    rw [Buffer.networkBytes_eq, htoNat, hsize]
  have hroom : (Buffer.networkBytes 4 (BitVec.ofNat 32 b₅.readableBytes)).length ≤
      b₅.prependableBytes := by
    rw [hheader, length_beBytes]
    exact le_trans (by decide) hholds₅.2
  obtain ⟨b₆, hb₆, hread⟩ := Buffer.prepend_spec hroom
  refine ⟨b₆, ?_, hread.trans (by rw [hheader, hbody])⟩
  rw [fillEmptyBuffer, check_of hempty, ok_bind]
  dsimp only
  rw [check_of hname, ok_bind, hb₁, ok_bind, hb₂, ok_bind, hserialize, ok_bind]
  dsimp only
  rw [hb₅, ok_bind]
  exact (congrArg (· >>= _) (check_of hsize)).trans hb₆

end

/-- On any bytes that are long enough for a frame, `parse` reads within them, hands to the library
what is between the name and the checksum, and accepts nothing without a matching checksum and a
name that fits. And it reads the frame of a message as that message. -/
theorem parse_inverts_fillEmptyBuffer (c : ProtobufCodec D M) (hlib : c.library.Lawful) :
    (∀ buf : List UInt8, kMinMessageLen ≤ buf.length → Yields (c.parse buf) fun r =>
      (∀ data dataLen, r.span = some (data, dataLen) → 0 ≤ dataLen ∧
        data = kHeaderLen + nameLen buf ∧ data + dataLen = buf.length - kHeaderLen) ∧
      (r.error = .kNoError →
        c.ValidChecksum buf ∧ 2 ≤ nameLen buf ∧ nameLen buf ≤ buf.length - 8)) ∧
    ∀ (n : ℕ) (m : M), c.Registered m → c.library.isInitialized m = true →
      c.frameLength m ≤ kMaxMessageLen →
      Yields (c.fillEmptyBuffer (Buffer.new n) m) fun frame =>
        Yields (c.parse (frame.readable.drop kHeaderLen)) fun r =>
          r.message = some m ∧ r.error = .kNoError := by
  refine ⟨fun buf hlen => parse_spec hlen, ?_⟩
  intro n m hreg hinit hlen
  obtain ⟨frame, hframe, hread⟩ := fillEmptyBuffer_spec hlen hlib hinit n
  refine ⟨frame, hframe, ?_⟩
  have hheader : (beBytes 4 (c.frameLength m)).length = kHeaderLen := rfl
  dsimp only
  rw [hread, List.drop_left' hheader]
  exact parse_body hlen hlib hreg hinit

/-! ### The types of the test

`Query`, `Answer` and `Empty` of `query.proto`. A message that is its own payload stands for those
of the library. -/

inductive QueryType where
  | Query
  | Answer
  | Empty
  deriving DecidableEq, Repr

def QueryType.fullName : QueryType → List UInt8
  | .Query => ascii "muduo.Query"
  | .Answer => ascii "muduo.Answer"
  | .Empty => ascii "muduo.Empty"

def queryLibrary : MessageLibrary QueryType (QueryType × List UInt8) where
  getTypeName m := m.1.fullName
  isInitialized _ := true
  byteSize m := m.2.length
  serializeWithCachedSizesToArray m := m.2
  findMessageTypeByName name :=
    [QueryType.Query, .Answer, .Empty].find? fun type => type.fullName = name
  getPrototype type := some (type, [])
  parseFromArray m bytes := (true, (m.1, bytes))

def queryCodec : ProtobufCodec QueryType (QueryType × List UInt8) where
  library := queryLibrary
  adler32 := ProtobufCodecLite.zlibAdler32
  errorCallback := defaultErrorCallback

lemma queryLibrary_lawful : queryLibrary.Lawful where
  byteSize _ := rfl
  typeName_ne_nil m := by
    rcases m with ⟨_ | _ | _, bytes⟩ <;> exact List.cons_ne_nil _ _
  parse_serialize m p _ h := by
    have hinj : ∀ t u : QueryType, t.fullName = u.fullName → t = u := by
      intro t u
      cases t <;> cases u <;> decide
    exact congrArg (fun t => (true, (t, m.2))) (hinj p.1 m.1 h)

/-- Ten bytes with a name that is too long, and a frame. -/
theorem parse_inverts_fillEmptyBuffer_query :
    Yields (queryCodec.parse [0, 0, 0, 3, 0, 0, 0, 14, 0, 4]) (fun r => r.error ≠ .kNoError) ∧
    Yields (queryCodec.fillEmptyBuffer (.new 3) (.Answer, [8, 1, 18, 0])) fun frame =>
      Yields (queryCodec.parse (frame.readable.drop kHeaderLen)) fun r =>
        r.message = some (.Answer, [8, 1, 18, 0]) ∧ r.error = .kNoError := by
  obtain ⟨hbounds, htrip⟩ := parse_inverts_fillEmptyBuffer queryCodec queryLibrary_lawful
  constructor
  · obtain ⟨r, hr, -, herror⟩ := hbounds [0, 0, 0, 3, 0, 0, 0, 14, 0, 4] (by decide)
    exact ⟨r, hr, fun h => absurd (herror h).2.2 (by decide)⟩
  · exact htrip 3 (.Answer, [8, 1, 18, 0]) ⟨(.Answer, []), rfl, rfl⟩ rfl (by decide)

end ProtobufCodec

end Muduo

import Muduo.Fastcgi.FastCgiCodec
import Muduo.Machine.Frames

/-!
# FastCGI records

A record is a header, as much content as the header says, and as much padding. `Record` is a record
that can be sent: its lengths fit in the fields of the header. A stream of bytes begins with at most
one record (`nextRecord_eq_some`), so that the records are the frames of the stream.
-/

namespace Muduo

open Machine

/-! ### The order of the bytes -/

lemma leBytes_swap16 (x : UInt16) : leBytes 2 (swap16 x).toNat = beBytes 2 x.toNat := by
  have hlt : byteSwap 2 x.toNat < 2 ^ 16 := by
    have := ofLeBytes_lt (leBytes 2 x.toNat).reverse
    rwa [List.length_reverse, length_leBytes] at this
  rw [swap16, UInt16.toNat_ofNat', Nat.mod_eq_of_lt hlt, leBytes_byteSwap]

lemma swap16_ofLeBytes {l : List UInt8} (h : l.length = 2) :
    (swap16 (UInt16.ofNat (ofLeBytes l))).toNat = ofBeBytes l := by
  have hle : ofLeBytes l < 2 ^ 16 := by simpa [h] using ofLeBytes_lt l
  have hbe : ofBeBytes l < 2 ^ 16 := by simpa [h] using ofBeBytes_lt l
  have hswap := byteSwap_ofLeBytes l
  rw [h] at hswap
  rw [swap16, UInt16.toNat_ofNat', UInt16.toNat_ofNat', Nat.mod_eq_of_lt hle, hswap,
    Nat.mod_eq_of_lt hbe]

/-! ### Headers -/

namespace RecordHeader

/-- The header on the wire. -/
def wire (h : RecordHeader) : List UInt8 :=
  [h.version, h.type] ++ beBytes 2 h.id.toNat ++ beBytes 2 h.length.toNat ++ [h.padding, h.unused]

@[simp] lemma length_wire (h : RecordHeader) : h.wire.length = FastCgiCodec.kRecordHeader := by
  simp [wire, FastCgiCodec.kRecordHeader]

lemma wire_ofNetwork {l : List UInt8} (h : l.length = FastCgiCodec.kRecordHeader) :
    (ofNetwork l).wire = l := by
  have hfield (a b : UInt8) :
      beBytes 2 (swap16 (UInt16.ofNat (ofLeBytes [a, b]))).toNat = [a, b] := by
    rw [swap16_ofLeBytes rfl]
    exact beBytes_ofBeBytes rfl
  match l, h with
  | [version, type, id, id', length, length', padding, unused], _ =>
    change [version, type] ++ beBytes 2 (swap16 (UInt16.ofNat (ofLeBytes [id, id']))).toNat ++
      beBytes 2 (swap16 (UInt16.ofNat (ofLeBytes [length, length']))).toNat ++ [padding, unused] = _
    rw [hfield, hfield]
    rfl

lemma ofNetwork_wire (h : RecordHeader) : ofNetwork h.wire = h := by
  have hfield : ∀ {x : UInt16} {a b : UInt8}, beBytes 2 x.toNat = [a, b] →
      swap16 (UInt16.ofNat (ofLeBytes [a, b])) = x := by
    intro x a b hx
    rw [← UInt16.toNat_inj, swap16_ofLeBytes rfl, ← hx, ofBeBytes_beBytes]
    exact Nat.mod_eq_of_lt x.toNat_lt
  obtain ⟨id, id', hid⟩ := List.length_eq_two.mp (length_beBytes 2 h.id.toNat)
  obtain ⟨length, length', hlength⟩ := List.length_eq_two.mp (length_beBytes 2 h.length.toNat)
  have hofNetwork : ofNetwork h.wire = { h with
      id := swap16 (UInt16.ofNat (ofLeBytes [id, id']))
      length := swap16 (UInt16.ofNat (ofLeBytes [length, length'])) } := by
    rw [wire, hid, hlength]
    rfl
  rw [hofNetwork, hfield hid, hfield hlength]

end RecordHeader

/-! ### Records -/

@[ext]
structure Record where
  version : UInt8
  type : UInt8
  id : UInt16
  content : List UInt8
  padding : List UInt8
  unused : UInt8
  content_lt : content.length < 2 ^ 16
  padding_lt : padding.length < 2 ^ 8

namespace Record

def header (r : Record) : RecordHeader where
  version := r.version
  type := r.type
  id := r.id
  length := UInt16.ofNat r.content.length
  padding := UInt8.ofNat r.padding.length
  unused := r.unused

def bytes (r : Record) : List UInt8 := r.header.wire ++ (r.content ++ r.padding)

variable {r : Record} {l rest : List UInt8}

lemma length_header (r : Record) : r.header.length.toNat = r.content.length :=
  (UInt16.toNat_ofNat' ..).trans (Nat.mod_eq_of_lt r.content_lt)

lemma padding_header (r : Record) : r.header.padding.toNat = r.padding.length :=
  (UInt8.toNat_ofNat' ..).trans (Nat.mod_eq_of_lt r.padding_lt)

lemma length_bytes (r : Record) :
    r.bytes.length = FastCgiCodec.kRecordHeader + r.content.length + r.padding.length := by
  simp [bytes, add_assoc]

/-- The record with the header `h` and the content and padding at the front of `tail`. -/
def ofHeader (h : RecordHeader) (tail : List UInt8) : Record where
  version := h.version
  type := h.type
  id := h.id
  content := tail.take h.length.toNat
  padding := (tail.drop h.length.toNat).take h.padding.toNat
  unused := h.unused
  content_lt := (List.length_take_le ..).trans_lt h.length.toNat_lt
  padding_lt := (List.length_take_le ..).trans_lt h.padding.toNat_lt

lemma ofHeader_header (r : Record) (rest : List UInt8) :
    ofHeader r.header (r.content ++ (r.padding ++ rest)) = r := by
  refine Record.ext rfl rfl rfl ?_ ?_ rfl
  · change List.take _ _ = _
    rw [r.length_header, List.take_left]
  · change List.take _ (List.drop _ _) = _
    rw [r.length_header, r.padding_header, List.drop_left, List.take_left]

lemma header_ofHeader {h : RecordHeader} {tail : List UInt8}
    (hle : h.length.toNat + h.padding.toNat ≤ tail.length) : (ofHeader h tail).header = h := by
  have hlength : (tail.take h.length.toNat).length = h.length.toNat := by
    rw [List.length_take]
    omega
  have hpadding : ((tail.drop h.length.toNat).take h.padding.toNat).length = h.padding.toNat := by
    rw [List.length_take, List.length_drop]
    omega
  simp only [header, ofHeader, hlength, hpadding, UInt16.ofNat_toNat, UInt8.ofNat_toNat]

end Record

open FastCgiCodec (kRecordHeader)

/-- The record at the front of a stream, if it is there as a whole. -/
def nextRecord (l : List UInt8) : Option (Record × List UInt8) :=
  let h := RecordHeader.ofNetwork (l.take kRecordHeader)
  let tail := l.drop kRecordHeader
  if kRecordHeader ≤ l.length ∧ h.length.toNat + h.padding.toNat ≤ tail.length then
    some (.ofHeader h tail, tail.drop (h.length.toNat + h.padding.toNat))
  else
    none

variable {r : Record} {l rest : List UInt8}

lemma take_bytes (r : Record) (rest : List UInt8) :
    (r.bytes ++ rest).take kRecordHeader = r.header.wire := by
  rw [Record.bytes, ← r.header.length_wire, List.append_assoc, List.take_left]

lemma drop_bytes (r : Record) (rest : List UInt8) :
    (r.bytes ++ rest).drop kRecordHeader = r.content ++ (r.padding ++ rest) := by
  rw [Record.bytes, ← r.header.length_wire, List.append_assoc, List.drop_left, List.append_assoc]

/-- A stream begins with at most one record. -/
theorem nextRecord_eq_some : nextRecord l = some (r, rest) ↔ l = r.bytes ++ rest := by
  constructor
  · intro h
    unfold nextRecord at h
    dsimp only at h
    split at h
    · next hlen =>
      obtain ⟨hlen, htail⟩ := hlen
      have hwire : (RecordHeader.ofNetwork (l.take kRecordHeader)).wire = l.take kRecordHeader :=
        RecordHeader.wire_ofNetwork (by rw [List.length_take]; omega)
      generalize RecordHeader.ofNetwork (l.take kRecordHeader) = header at h htail hwire
      cases h
      rw [Record.bytes, Record.header_ofHeader htail, hwire]
      simp only [Record.ofHeader]
      rw [List.append_assoc, List.append_assoc, ← List.drop_drop, List.take_append_drop,
        List.take_append_drop, List.take_append_drop]
    · cases h
  · rintro rfl
    unfold nextRecord
    simp only [take_bytes, drop_bytes, RecordHeader.ofNetwork_wire, Record.ofHeader_header,
      r.length_header, r.padding_header]
    rw [if_pos, ← List.drop_drop, List.drop_left, List.drop_left]
    constructor
    · rw [List.length_append, r.length_bytes]
      omega
    · simp only [List.length_append]
      omega

/-- The records of a stream. -/
def records : Framing Record UInt8 where
  next := nextRecord
  shorter := by
    intro l r rest h
    rw [nextRecord_eq_some.mp h, List.length_append, r.length_bytes, kRecordHeader]
    omega
  next_append := by
    intro l r rest y h
    rw [nextRecord_eq_some.mp h, List.append_assoc]
    exact nextRecord_eq_some.mpr rfl

/-- Without a record at the front, the header is missing or part of what it announces. -/
lemma nextRecord_eq_none :
    nextRecord l = none ↔ l.length < kRecordHeader ∨
      l.length < kRecordHeader + (RecordHeader.ofNetwork (l.take kRecordHeader)).length.toNat +
        (RecordHeader.ofNetwork (l.take kRecordHeader)).padding.toNat := by
  unfold nextRecord
  dsimp only
  rw [ite_eq_right_iff, imp_iff_not (by simp), List.length_drop]
  omega

end Muduo

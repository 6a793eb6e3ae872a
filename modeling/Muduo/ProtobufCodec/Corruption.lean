import Muduo.Machine.RunningSums
import Muduo.ProtobufCodec.Parse

/-!
# Corrupted frames

One byte of a frame that is replaced by another one shows in the checksum: in the first of its two
sums if the byte is one of those that are added up, and in the number that the sums are compared
with otherwise.

## Main results

* `corruption_detected`: both codecs report `kCheckSumError`.
-/

namespace Muduo

open Machine
open ProtobufCodecLite (asInt32 zlibAdler32)

variable {D M N : Type} {a b : UInt8} {x y content sum : List UInt8}

/-! ### The sums -/

lemma zlibAdler32_eq (bytes : List UInt8) : zlibAdler32 bytes =
    .ofNat (65536 * (bytes.foldl (addRunning 65521 UInt8.toNat) (1, 0)).2 +
      (bytes.foldl (addRunning 65521 UInt8.toNat) (1, 0)).1) := rfl

lemma toNat_zlibAdler32_mod (bytes : List UInt8) : (zlibAdler32 bytes).toNat % 65536 =
    (bytes.foldl (addRunning 65521 UInt8.toNat) (1, 0)).1 := by
  have hlt := @running_lt UInt8 65521 UInt8.toNat (1, 0) (by decide) bytes
  rw [zlibAdler32_eq, UInt32.toNat_ofNat']
  omega

lemma zlibAdler32_ne (hne : a ≠ b) (x y : List UInt8) :
    zlibAdler32 (x ++ a :: y) ≠ zlibAdler32 (x ++ b :: y) := by
  intro heq
  have hbyte : ∀ c : UInt8, c.toNat < 65521 := fun c => c.toNat_lt.trans (by decide)
  refine running_fst_ne (hbyte a) (hbyte b) (fun h => hne (UInt8.toNat_inj.mp h)) (1, 0) x y ?_
  rw [← toNat_zlibAdler32_mod, ← toNat_zlibAdler32_mod, heq]

/-! ### The number they are compared with -/

lemma asInt32_injective {x y : List UInt8} (hx : x.length = 4) (hy : y.length = 4)
    (h : asInt32 x = asInt32 y) : x = y := by
  have hvalue : ∀ l : List UInt8, l.length = 4 → (asInt32 l).toNat = ofLeBytes l.reverse := by
    intro l hl
    have hlt := ofLeBytes_lt l.reverse
    rw [List.length_reverse, hl] at hlt
    have hswap := byteSwap_ofLeBytes l
    rw [hl, ← ofLeBytes_reverse] at hswap
    rw [asInt32, List.take_of_length_le hl.le, hswap]
    exact Nat.mod_eq_of_lt hlt
  have hrev : ofLeBytes x.reverse = ofLeBytes y.reverse := by
    rw [← hvalue x hx, ← hvalue y hy, h]
  have hbytes : ∀ l : List UInt8, l.length = 4 → leBytes 4 (ofLeBytes l.reverse) = l.reverse := by
    intro l hl
    have := leBytes_ofLeBytes l.reverse
    rwa [List.length_reverse, hl] at this
  have := hbytes x hx
  rw [hrev, hbytes y hy] at this
  exact (List.reverse_injective this).symm

/-! ### The checksum of a frame -/

/-- The last four bytes are the checksum of the others. -/
def Checked (body : List UInt8) : Prop :=
  (zlibAdler32 (body.take (body.length - 4))).toBitVec = asInt32 (body.drop (body.length - 4))

lemma checked_append (hsum : sum.length = 4) :
    Checked (content ++ sum) ↔ (zlibAdler32 content).toBitVec = asInt32 sum := by
  have hlen : (content ++ sum).length - 4 = content.length := by
    rw [List.length_append, hsum, Nat.add_sub_cancel]
  unfold Checked
  rw [hlen, List.take_left, List.drop_left]

/-- A byte that is summed up. -/
lemma not_checked_content (hne : a ≠ b) (hsum : sum.length = 4)
    (h : Checked (x ++ a :: (y ++ sum))) : ¬ Checked (x ++ b :: (y ++ sum)) := by
  rw [← List.cons_append, ← List.append_assoc, checked_append hsum] at h ⊢
  intro h'
  exact zlibAdler32_ne hne x y (UInt32.toBitVec_inj.mp (h.trans h'.symm))

/-- A byte of the checksum. -/
lemma not_checked_sum (hne : a ≠ b) (hlen : (x ++ a :: y).length = 4)
    (h : Checked (content ++ (x ++ a :: y))) : ¬ Checked (content ++ (x ++ b :: y)) := by
  have hlen' : (x ++ b :: y).length = 4 := by
    rw [List.length_append, List.length_cons] at hlen ⊢
    exact hlen
  rw [checked_append hlen] at h
  rw [checked_append hlen']
  intro h'
  have heq := asInt32_injective hlen hlen' (h.symm.trans h')
  exact hne (List.cons.inj (List.append_cancel_left heq)).1

lemma not_checked (hne : a ≠ b) (hlen : 4 ≤ (x ++ a :: y).length) (h : Checked (x ++ a :: y)) :
    ¬ Checked (x ++ b :: y) := by
  rcases Nat.lt_or_ge y.length 4 with hlt | hle
  · -- the checksum begins in `x`
    rw [List.length_append, List.length_cons] at hlen
    rw [← List.take_append_drop (x.length - (3 - y.length)) x, List.append_assoc] at h ⊢
    refine not_checked_sum hne ?_ h
    rw [List.length_append, List.length_cons, List.length_drop]
    omega
  · rw [← List.take_append_drop (y.length - 4) y] at h ⊢
    refine not_checked_content hne ?_ h
    rw [List.length_drop]
    omega

/-- A frame that passes the test of its checksum does not pass it with another byte in the place of
one of its bytes, wherever that is. -/
theorem corruption_detected (lite : ProtobufCodecLite N) (hlite : lite.adler32 = zlibAdler32)
    (c : ProtobufCodec D M) (hc : c.adler32 = zlibAdler32) (x y : List UInt8) (a b : UInt8)
    (hne : a ≠ b) :
    (kChecksumLen ≤ (x ++ a :: y).length → lite.validateChecksum (x ++ a :: y) = true →
      lite.parse (x ++ b :: y) = .error .kCheckSumError) ∧
    (ProtobufCodec.kMinMessageLen ≤ (x ++ a :: y).length → c.ValidChecksum (x ++ a :: y) →
      Yields (c.parse (x ++ b :: y)) fun r =>
        r.error = .kCheckSumError ∧ r.message = none) := by
  constructor
  · intro hlen hvalid
    have hchecked : ∀ body, lite.validateChecksum body = true ↔ Checked body := by
      intro body
      rw [ProtobufCodecLite.validateChecksum, ProtobufCodecLite.checksum, hlite]
      exact decide_eq_true_iff
    have hbad := not_checked hne hlen ((hchecked _).mp hvalid)
    rw [ProtobufCodecLite.parse, if_neg fun h => hbad ((hchecked _).mp h)]
  · intro hlen hvalid
    have hchecked : ∀ body, c.ValidChecksum body ↔ Checked body := by
      intro body
      rw [ProtobufCodec.ValidChecksum, hc]
      exact Iff.rfl
    have hmin : ProtobufCodec.kMinMessageLen = 10 := rfl
    have hlen' : (x ++ b :: y).length = (x ++ a :: y).length := by
      rw [List.length_append, List.length_append, List.length_cons, List.length_cons]
    have hbad := not_checked hne (by omega) ((hchecked _).mp hvalid)
    rw [ProtobufCodec.parse_eq (by omega), if_neg fun h => hbad ((hchecked _).mp h)]
    exact ⟨_, rfl, rfl, rfl⟩

/-- A bit of the tag of one frame, and a bit of the checksum of another. -/
theorem corruption_detected_query :
    ProtobufCodecLite.rpcCodec.parse (0x53 :: ProtobufCodecLite.wire.drop 5) =
      .error .kCheckSumError ∧
    Yields (ProtobufCodec.queryCodec.parse
        ((ProtobufCodec.queryCodec.body (.Empty, [])).dropLast ++ [0])) fun r =>
      r.error = .kCheckSumError ∧ r.message = none := by
  have htag := (corruption_detected ProtobufCodecLite.rpcCodec rfl ProtobufCodec.queryCodec rfl []
    (ProtobufCodecLite.wire.drop 5) 0x52 0x53 (by decide)).1 (by decide) (by decide +kernel)
  have hsum := (corruption_detected ProtobufCodecLite.rpcCodec rfl ProtobufCodec.queryCodec rfl
    (ProtobufCodec.queryCodec.body (.Empty, [])).dropLast [] 116 0 (by decide)).2 (by decide)
    (by decide +kernel)
  exact ⟨htag, hsum⟩

end Muduo

import Muduo.Fastcgi.Record

/-!
# FastCGI parameters

A parameter is a name and a value behind their lengths. The parameters are frames of the stream that
the contents of the `PARAMS` records make up.
-/

namespace Muduo

open Machine

/-! ### Lengths -/

namespace Fcgi

/-- One byte for a length below 128, and else four bytes, with the top bit set. -/
def encodeLen (n : ℕ) : List UInt8 :=
  if n < 128 then [UInt8.ofNat n] else beBytes 4 (2 ^ 31 + n)

def decodeLen : List UInt8 → Option (ℕ × List UInt8)
  | [] => none
  | b :: l =>
    if b.toNat < 128 then
      some (b.toNat, l)
    else if 4 ≤ (b :: l).length then
      some (ofBeBytes ((b :: l).take 4) % 2 ^ 31, (b :: l).drop 4)
    else
      none

variable {l rest : List UInt8} {n : ℕ}

lemma decodeLen_lt (h : decodeLen l = some (n, rest)) : n < 2 ^ 31 := by
  match l, h with
  | b :: l, h =>
    rw [decodeLen] at h
    split_ifs at h
    · cases h
      omega
    · cases h
      exact Nat.mod_lt _ (by decide)

lemma decodeLen_suffix (h : decodeLen l = some (n, rest)) :
    rest <:+ l ∧ rest.length < l.length := by
  match l, h with
  | b :: l, h =>
    rw [decodeLen] at h
    split_ifs at h with hbyte hlen
    · cases h
      exact ⟨List.suffix_cons b _, Nat.lt_succ_self _⟩
    · cases h
      refine ⟨List.drop_suffix 4 _, ?_⟩
      rw [List.length_drop]
      omega

lemma decodeLen_append (y : List UInt8) (h : decodeLen l = some (n, rest)) :
    decodeLen (l ++ y) = some (n, rest ++ y) := by
  match l, h with
  | b :: l, h =>
    rw [decodeLen] at h
    rw [List.cons_append, decodeLen]
    split_ifs at h with hbyte hlen
    · cases h
      rw [if_pos hbyte]
    · cases h
      rw [if_neg hbyte, if_pos (by simp only [List.length_cons, List.length_append] at *; omega),
        ← List.cons_append, List.take_append_of_le_length hlen,
        List.drop_append_of_le_length hlen]

lemma decodeLen_encodeLen (hn : n < 2 ^ 31) (rest : List UInt8) :
    decodeLen (encodeLen n ++ rest) = some (n, rest) := by
  rw [encodeLen]
  split_ifs with hbyte
  · have htoNat : (UInt8.ofNat n).toNat = n := by
      rw [UInt8.toNat_ofNat']
      omega
    rw [List.singleton_append, decodeLen, htoNat, if_pos hbyte]
  · have hvalue : ofBeBytes (beBytes 4 (2 ^ 31 + n)) = 2 ^ 31 + n := by
      rw [ofBeBytes_beBytes]
      omega
    match beBytes 4 (2 ^ 31 + n), length_beBytes 4 (2 ^ 31 + n), hvalue with
    | [a, b, c, d], _, hvalue =>
      -- The top bit is the one of the first byte.
      have htop : ¬ a.toNat < 128 := by
        have hb := b.toNat_lt
        have hc := c.toNat_lt
        have hd := d.toNat_lt
        simp only [ofBeBytes, List.foldl_cons, List.foldl_nil] at hvalue
        omega
      rw [List.cons_append, decodeLen, if_neg htop, if_pos (by simp)]
      change some (ofBeBytes [a, b, c, d] % 2 ^ 31, rest) = _
      rw [hvalue, Nat.add_mod_left, Nat.mod_eq_of_lt hn]

/-! ### Parameters -/

abbrev Param : Type := List UInt8 × List UInt8

def encodeParam (p : Param) : List UInt8 :=
  encodeLen p.1.length ++ (encodeLen p.2.length ++ (p.1 ++ p.2))

def decodeParam (l : List UInt8) : Option (Param × List UInt8) := do
  let (nameLen, l) ← decodeLen l
  let (valueLen, l) ← decodeLen l
  if nameLen + valueLen ≤ l.length then
    some ((l.take nameLen, (l.drop nameLen).take valueLen), l.drop (nameLen + valueLen))
  else
    none

variable {p : Param}

lemma decodeParam_eq_some : decodeParam l = some (p, rest) ↔
    ∃ l', decodeLen l = some (p.1.length, l') ∧
      decodeLen l' = some (p.2.length, p.1 ++ (p.2 ++ rest)) := by
  simp only [decodeParam, Option.bind_eq_bind, Option.bind_eq_some_iff, Prod.exists]
  constructor
  · rintro ⟨nameLen, l', hname, valueLen, l'', hvalue, h⟩
    split_ifs at h with hlen
    cases h
    have hnameLen : (l''.take nameLen).length = nameLen := by
      rw [List.length_take]
      omega
    have hvalueLen : ((l''.drop nameLen).take valueLen).length = valueLen := by
      rw [List.length_take, List.length_drop]
      omega
    refine ⟨l', by rw [hnameLen, hname], ?_⟩
    rw [hvalueLen, hvalue, ← List.drop_drop, List.take_append_drop, List.take_append_drop]
  · rintro ⟨l', hname, hvalue⟩
    refine ⟨_, l', hname, _, _, hvalue, ?_⟩
    rw [if_pos (by simp), List.take_left, ← List.drop_drop, List.drop_left, List.take_left,
      List.drop_left]

lemma decodeParam_encodeParam (hname : p.1.length < 2 ^ 31) (hvalue : p.2.length < 2 ^ 31)
    (rest : List UInt8) : decodeParam (encodeParam p ++ rest) = some (p, rest) := by
  rw [encodeParam, List.append_assoc, List.append_assoc, List.append_assoc]
  exact decodeParam_eq_some.mpr ⟨_, decodeLen_encodeLen hname _, decodeLen_encodeLen hvalue _⟩

/-- The parameters of a stream. -/
def params : Framing Param UInt8 where
  next := decodeParam
  shorter := by
    intro l p rest h
    obtain ⟨l', hname, hvalue⟩ := decodeParam_eq_some.mp h
    have hname' := (decodeLen_suffix hname).2
    have hvalue' := (decodeLen_suffix hvalue).2
    simp only [List.length_append] at hvalue'
    omega
  next_append := by
    intro l p rest y h
    obtain ⟨l', hname, hvalue⟩ := decodeParam_eq_some.mp h
    refine decodeParam_eq_some.mpr ⟨l' ++ y, decodeLen_append y hname, ?_⟩
    rw [decodeLen_append y hvalue, List.append_assoc, List.append_assoc]

lemma decodeParam_suffix (h : decodeParam l = some (p, rest)) : rest <:+ l := by
  obtain ⟨l', hname, hvalue⟩ := decodeParam_eq_some.mp h
  have hrest : rest <:+ p.1 ++ (p.2 ++ rest) :=
    (List.suffix_append p.2 rest).trans (List.suffix_append p.1 _)
  exact hrest.trans ((decodeLen_suffix hvalue).1.trans (decodeLen_suffix hname).1)

/-- What is left of a stream that does not begin with a parameter. -/
def leftover (l : List UInt8) : List UInt8 :=
  match decodeLen l with
  | none => l
  | some (_, l) =>
    match decodeLen l with
    | none => l
    | some (_, l) => l

lemma leftover_suffix (l : List UInt8) : leftover l <:+ l := by
  unfold leftover
  split
  · exact List.suffix_refl l
  · next hname =>
    split
    · exact (decodeLen_suffix hname).1
    · next hvalue => exact (decodeLen_suffix hvalue).1.trans (decodeLen_suffix hname).1

end Fcgi

/-! ### The loop of parseAllParams -/

namespace FastCgiCodec

open Fcgi

variable {stream : Buffer} {rest : List UInt8} {n : ℕ}

lemma and_0x80_ne_zero (b : BitVec 8) : b &&& 0x80#8 ≠ 0#8 ↔ ¬ b.toNat < 128 := by
  revert b
  decide

lemma toNat_and_0x7fffffff (len : BitVec 32) :
    (len &&& 0x7fffffff#32).toNat = len.toNat % 2 ^ 31 := by
  rw [BitVec.toNat_and]
  exact Nat.and_two_pow_sub_one_eq_mod len.toNat 31

/-- An `int8_t` whose top bit is not set is not negative. -/
lemma toNat_signExtend {b : BitVec 8} (h : b.toNat < 128) : (b.signExtend 32).toNat = b.toNat := by
  have hmsb : b.msb = false := by
    rw [BitVec.msb_eq_decide, decide_eq_false_iff_not]
    omega
  rw [BitVec.signExtend_eq_setWidth_of_msb_false hmsb, BitVec.toNat_setWidth]
  omega

lemma peekInt8_spec {b : UInt8} {l : List UInt8} (h : stream.readable = b :: l) :
    stream.peekInt 1 = .ok (BitVec.ofNat 8 b.toNat) := by
  rw [Buffer.peekInt_spec (by simp [h]), h]
  simp [ofBeBytes]

lemma toNat_ofNat_byte (b : UInt8) : (BitVec.ofNat 8 b.toNat).toNat = b.toNat :=
  Nat.mod_eq_of_lt b.toNat_lt

lemma readLen_of_some (h : decodeLen stream.readable = some (n, rest)) :
    Yields (readLen stream) fun r => r.1.toNat = n ∧ r.2.readable = rest := by
  have hreadable := stream.length_readable
  match hl : stream.readable, h with
  | b :: l, h =>
    rw [hl, List.length_cons] at hreadable
    rw [decodeLen] at h
    rw [readLen, if_pos (by omega), peekInt8_spec hl, ok_bind]
    split_ifs at h with hbyte hlen
    · cases h
      obtain ⟨⟨len, stream'⟩, hread, hlen, hrest⟩ :=
        Buffer.readInt_spec (b := stream) (n := 1) (by simp [hl])
      have hlen' : len = BitVec.ofNat 8 b.toNat := by
        refine hlen.trans ?_
        rw [hl]
        simp [ofBeBytes]
      rw [if_neg (by rw [and_0x80_ne_zero, toNat_ofNat_byte, not_not]; exact hbyte), hread, ok_bind]
      refine ⟨_, rfl, ?_, by rw [hrest, hl]; rfl⟩
      rw [hlen', toNat_signExtend (by rwa [toNat_ofNat_byte]), toNat_ofNat_byte]
    · cases h
      obtain ⟨⟨len, stream'⟩, hread, hlen', hrest⟩ :=
        Buffer.readInt_spec (b := stream) (n := 4) (by rwa [hl])
      have hlt : ofBeBytes ((b :: l).take 4) < 2 ^ 32 := by
        have := ofBeBytes_lt ((b :: l).take 4)
        rwa [List.length_take, Nat.min_eq_left hlen] at this
      rw [if_pos (by rw [and_0x80_ne_zero, toNat_ofNat_byte]; exact hbyte),
        if_pos (by rw [List.length_cons] at hlen; omega), hread, ok_bind]
      refine ⟨_, rfl, ?_, by rw [hrest, hl]⟩
      dsimp only at hlen'
      rw [toNat_and_0x7fffffff, hlen', hl]
      exact congrArg (· % 2 ^ 31) (Nat.mod_eq_of_lt hlt)

lemma readLen_of_none (h : decodeLen stream.readable = none) :
    readLen stream = .ok (-1#32, stream) := by
  have hreadable := stream.length_readable
  match hl : stream.readable, h with
  | [], _ =>
    rw [hl] at hreadable
    rw [readLen, if_neg (by simp only [List.length_nil] at hreadable; omega)]
    rfl
  | b :: l, h =>
    rw [hl] at hreadable
    rw [decodeLen] at h
    split_ifs at h with hbyte hlen
    rw [readLen, if_pos (by rw [List.length_cons] at hreadable; omega), peekInt8_spec hl, ok_bind,
      if_pos (by rw [and_0x80_ne_zero, toNat_ofNat_byte]; exact hbyte), if_neg (by omega)]
    rfl

/-- What `readLen` returns is a length, or `-1`. -/
lemma readLen_lt {stream' : Buffer} {len : BitVec 32} (h : readLen stream = .ok (len, stream'))
    (hlen : len ≠ -1#32) : len.toNat < 2 ^ 31 := by
  match hdecode : decodeLen stream.readable with
  | none =>
    rw [readLen_of_none hdecode] at h
    cases h
    exact absurd rfl hlen
  | some (n, rest) =>
    obtain ⟨hn, -⟩ := (readLen_of_some hdecode).safe.of_ok h
    dsimp only at hn
    rw [hn]
    exact decodeLen_lt hdecode

/-- The sum of two lengths does not wrap around. -/
lemma toNat_add_of_lt {nameLen valueLen : BitVec 32} (hname : nameLen.toNat < 2 ^ 31)
    (hvalue : valueLen.toNat < 2 ^ 31) :
    (nameLen + valueLen).toNat = nameLen.toNat + valueLen.toNat := by
  rw [BitVec.toNat_add, Nat.mod_eq_of_lt (by omega)]

lemma ne_neg_one_of_lt {len : BitVec 32} (h : len.toNat < 2 ^ 31) : len ≠ -1#32 := by
  rintro rfl
  exact absurd h (by decide)

/-- What the codec means to its clients: the bytes of its buffers. -/
structure View where
  gotRequest : Bool
  keepConn : Bool
  stdin : List UInt8
  paramsStream : List UInt8
  params : List UInt8 → Option (List UInt8)

def view (c : FastCgiCodec) : View where
  gotRequest := c.gotRequest
  keepConn := c.keepConn
  stdin := c.stdin.readable
  paramsStream := c.paramsStream.readable
  params := c.params

def insertParam (m : List UInt8 → Option (List UInt8)) (p : Param) :
    List UInt8 → Option (List UInt8) :=
  Function.update m p.1 (some p.2)

/-- The parameters at the front of the stream go to the map. -/
def View.parseAllParams (v : View) : Bool × View :=
  (decide ((Fcgi.params.frames v.paramsStream).2 = []),
    { v with
      paramsStream := leftover (Fcgi.params.frames v.paramsStream).2
      params := (Fcgi.params.frames v.paramsStream).1.foldl insertParam v.params })

variable {c : FastCgiCodec} {b : Bool}

/-- The loop takes the parameter at the front. -/
def TakesParam (c : FastCgiCodec) (t : Bool × FastCgiCodec) : Prop :=
  ∃ p rest, decodeParam c.paramsStream.readable = some (p, rest) ∧ t.1 = true ∧
    t.2.view = { c.view with paramsStream := rest, params := insertParam c.params p }

/-- The loop stops, since there is no parameter at the front. -/
def StopsParams (c : FastCgiCodec) (t : Bool × FastCgiCodec) : Prop :=
  decodeParam c.paramsStream.readable = none ∧ t.1 = decide (c.paramsStream.readable = []) ∧
    t.2.view = { c.view with paramsStream := leftover c.paramsStream.readable }

lemma stopsParams_of_none {stream : Buffer} (h : decodeParam c.paramsStream.readable = none)
    (hne : c.paramsStream.readable ≠ [])
    (hleft : stream.readable = leftover c.paramsStream.readable) :
    c.StopsParams (false, { c with paramsStream := stream }) := by
  refine ⟨h, (decide_eq_false hne).symm, ?_⟩
  rw [← hleft]
  rfl

/-- The names and the values are there as a whole, or the loop stops. -/
lemma takeParam_spec {stream : Buffer} {nameLen valueLen : BitVec 32}
    (h : nameLen.toNat + valueLen.toNat ≤ stream.readable.length) :
    Yields (do
        let (name, stream) ← stream.retrieveAsString nameLen.toNat
        let (value, stream) ← stream.retrieveAsString valueLen.toNat
        return .again (true, { c with
          paramsStream := stream
          params := Function.update c.params name (some value) }) :
        Code (Round (Bool × FastCgiCodec)))
      fun r => ∃ t, r = .again (true, t) ∧ t.view = { c.view with
        paramsStream := stream.readable.drop (nameLen.toNat + valueLen.toNat)
        params := insertParam c.params (stream.readable.take nameLen.toNat,
          (stream.readable.drop nameLen.toNat).take valueLen.toNat) } := by
  obtain ⟨⟨name, stream₁⟩, hname, hname', hstream₁⟩ :=
    Buffer.retrieveAsString_spec (b := stream) (Nat.le_of_add_right_le h)
  dsimp only at hname' hstream₁
  have hrest : valueLen.toNat ≤ stream₁.readable.length := by
    rw [hstream₁, List.length_drop]
    omega
  obtain ⟨⟨value, stream₂⟩, hvalue, hvalue', hstream₂⟩ := Buffer.retrieveAsString_spec hrest
  dsimp only at hvalue' hstream₂
  rw [hname, ok_bind]
  dsimp only
  rw [hvalue, ok_bind]
  refine ⟨_, rfl, _, rfl, ?_⟩
  rw [← List.drop_drop, ← hstream₁, ← hstream₂, ← hname', ← hvalue']
  rfl

lemma paramRound_spec (b : Bool) (c : FastCgiCodec) :
    Yields (paramRound (b, c)) (Round.Leaves c.StopsParams c.TakesParam) := by
  rw [paramRound]
  dsimp only
  by_cases hempty : c.paramsStream.readable = []
  · rw [if_neg (by rw [Buffer.readable_eq_nil] at hempty; omega)]
    refine ⟨_, rfl, by rw [hempty]; rfl, (decide_eq_true hempty).symm, ?_⟩
    have hleft : leftover c.paramsStream.readable = c.paramsStream.readable := by
      rw [hempty]
      rfl
    rw [hleft]
    rfl
  · rw [if_pos (by rw [Buffer.readable_eq_nil] at hempty; omega)]
    match hname : decodeLen c.paramsStream.readable with
    | none =>
      rw [readLen_of_none hname, ok_bind]
      exact ⟨_, rfl, stopsParams_of_none (by simp [decodeParam, hname]) hempty
        (by simp [leftover, hname])⟩
    | some (n, l) =>
      obtain ⟨⟨nameLen, stream⟩, hread, rfl, rfl⟩ := readLen_of_some hname
      have hlt := decodeLen_lt hname
      dsimp only at hname hlt
      rw [hread, ok_bind]
      dsimp only
      rw [if_neg (ne_neg_one_of_lt hlt)]
      match hvalue : decodeLen stream.readable with
      | none =>
        rw [readLen_of_none hvalue, ok_bind]
        exact ⟨_, rfl, stopsParams_of_none (by simp [decodeParam, hname, hvalue]) hempty
          (by simp [leftover, hname, hvalue])⟩
      | some (m, l) =>
        obtain ⟨⟨valueLen, stream'⟩, hread', rfl, rfl⟩ := readLen_of_some hvalue
        have hlt' := decodeLen_lt hvalue
        dsimp only at hvalue hlt'
        rw [hread', ok_bind]
        dsimp only
        rw [if_neg (ne_neg_one_of_lt hlt'), toNat_add_of_lt hlt hlt', ← Buffer.length_readable]
        by_cases hlen : nameLen.toNat + valueLen.toNat ≤ stream'.readable.length
        · rw [if_pos hlen]
          obtain ⟨r, hr, t, rfl, ht⟩ := takeParam_spec (c := c) hlen
          refine ⟨_, hr, _, _, ?_, rfl, ht⟩
          simp [decodeParam, hname, hvalue, hlen]
        · rw [if_neg hlen]
          exact ⟨_, rfl, stopsParams_of_none (by simp [decodeParam, hname, hvalue, hlen]) hempty
            (by simp [leftover, hname, hvalue])⟩

lemma paramRound_lt (s t : Bool × FastCgiCodec) (h : paramRound s = .ok (.again t)) :
    t.2.paramsStream.readableBytes < s.2.paramsStream.readableBytes := by
  obtain ⟨p, rest, hdecode, -, hview⟩ := (paramRound_spec s.1 s.2).safe.of_ok h
  have hlt := Fcgi.params.shorter hdecode
  have hstream : t.2.paramsStream.readable = rest := congrArg View.paramsStream hview
  rwa [← Buffer.length_readable, ← Buffer.length_readable, hstream]

/-- For any content. -/
theorem parseAllParams_spec (c : FastCgiCodec) :
    Yields c.parseAllParams fun r => (r.1, r.2.view) = c.view.parseAllParams := by
  refine loop_yields paramRound_lt
    (I := fun s => s.1 = true ∧ s.2.view.parseAllParams = c.view.parseAllParams) ?_ ⟨rfl, rfl⟩
  rintro ⟨b, t⟩ ⟨-, ht⟩
  obtain ⟨r, hr, hround⟩ := paramRound_spec b t
  refine ⟨r, hr, ?_⟩
  match r, hround with
  | .stop u, ⟨hdecode, hflag, hview⟩ =>
    have hframes : Fcgi.params.frames t.view.paramsStream = ([], t.view.paramsStream) :=
      Framing.frames_of_none hdecode
    change (u.1, u.2.view) = _
    rw [← ht, View.parseAllParams, hframes, hflag, hview]
    rfl
  | .again u, ⟨p, rest, hdecode, hflag, hview⟩ =>
    have hframes : Fcgi.params.frames t.view.paramsStream = (p :: _, _) :=
      Framing.frames_of_some hdecode
    refine ⟨hflag, ?_⟩
    rw [← ht, View.parseAllParams, View.parseAllParams, hframes, hview]
    rfl

end FastCgiCodec

end Muduo

import Muduo.Memcached.Segmentation
import Muduo.Memcached.Tokens

/-!
# Setting and getting a value

A value that is set over the wire comes back from a get, byte by byte, under every key but one:
`noreply` is taken for the suffix that turns replies off.

## Main results

* `set_get_round_trip`: a set and a get answer with the value, if and only if the key is not
  `noreply`.
-/

namespace Muduo.Memcached

open Machine Item

/-! ### Numbers -/

section

variable {n : ℕ} {rest : List Token}

lemma not_isSpace_of_isDigit {b : UInt8} (h : isDigit b = true) :
    isSpace b = false ∧ b ≠ 45 ∧ b ≠ 43 ∧ b ≠ 32 ∧ b ≠ 13 ∧ b ≠ 121 := by
  have hall : ∀ n : Fin 256, isDigit (UInt8.ofFin n) = true →
      isSpace (UInt8.ofFin n) = false ∧ UInt8.ofFin n ≠ 45 ∧ UInt8.ofFin n ≠ 43 ∧
      UInt8.ofFin n ≠ 32 ∧ UInt8.ofFin n ≠ 13 ∧ UInt8.ofFin n ≠ 121 := by decide +kernel
  exact hall b.toFin h

/-- `strtoull` on the digits of a number, after a sign. -/
lemma strtoull_eq {l ds : List UInt8} {negative : Bool} (hspace : l.dropWhile isSpace = l)
    (hsign : sign l = (negative, ds)) (hne : ds ≠ []) (hds : ∀ b ∈ ds, isDigit b = true)
    (hlen : ds.length ≤ l.length) :
    strtoull l = (if 2 ^ 64 ≤ ofDigits ds then 2 ^ 64 - 1
      else if negative then (2 ^ 64 - ofDigits ds) % 2 ^ 64 else ofDigits ds, l.length) := by
  have htake : ds.takeWhile isDigit = ds := List.takeWhile_eq_self_iff.mpr hds
  unfold strtoull
  rw [hspace, hsign]
  dsimp only
  rw [htake, if_neg hne, Nat.sub_add_cancel hlen]

lemma dropWhile_isSpace_decimal (n : ℕ) : (decimal n).dropWhile isSpace = decimal n := by
  obtain ⟨b, bs, hb⟩ := List.exists_cons_of_ne_nil (decimal_ne_nil n)
  have hdigit : isDigit b = true := isDigit_of_mem_decimal b (hb ▸ List.mem_cons_self ..)
  rw [hb, List.dropWhile_cons_of_neg (by simp [(not_isSpace_of_isDigit hdigit).1])]

lemma sign_decimal (n : ℕ) : sign (decimal n) = (false, decimal n) := by
  obtain ⟨b, bs, hb⟩ := List.exists_cons_of_ne_nil (decimal_ne_nil n)
  have hdigit : isDigit b = true := isDigit_of_mem_decimal b (hb ▸ List.mem_cons_self ..)
  obtain ⟨-, h45, h43, -⟩ := not_isSpace_of_isDigit hdigit
  rw [hb, sign, if_neg h45, if_neg h43]

lemma strtoull_decimal (hn : n < 2 ^ 64) : strtoull (decimal n) = (n, (decimal n).length) := by
  rw [strtoull_eq (dropWhile_isSpace_decimal n) (sign_decimal n) (decimal_ne_nil n)
    isDigit_of_mem_decimal (le_refl _), ofDigits_decimal, if_neg (by omega)]
  rfl

lemma read_decimal (hn : n < 2 ^ 64) : read (decimal n :: rest) = some (n, rest) := by
  rw [read, strtoull_decimal hn]
  exact if_pos rfl

/-- Every integer is read, whatever comes out of it. -/
lemma read_decimalInt (z : ℤ) : ∃ x, read (decimalInt z :: rest) = some (x, rest) := by
  obtain ⟨x, hx⟩ : ∃ x, strtoull (decimalInt z) = (x, (decimalInt z).length) := by
    unfold decimalInt
    split
    · have hspace : (45 :: decimal z.natAbs).dropWhile isSpace = 45 :: decimal z.natAbs :=
        List.dropWhile_cons_of_neg (by decide)
      exact ⟨_, strtoull_eq hspace rfl (decimal_ne_nil _) isDigit_of_mem_decimal
        (Nat.le_succ _)⟩
    · exact ⟨_, strtoull_eq (dropWhile_isSpace_decimal _) (sign_decimal _) (decimal_ne_nil _)
        isDigit_of_mem_decimal (le_refl _)⟩
  refine ⟨x, ?_⟩
  rw [read, hx]
  exact if_pos rfl

lemma mem_decimalInt {z : ℤ} {b : UInt8} (h : b ∈ decimalInt z) : b ≠ 32 ∧ b ≠ 13 := by
  unfold decimalInt at h
  have hdecimal : ∀ b ∈ decimal z.natAbs, b ≠ 32 ∧ b ≠ 13 := by
    intro b hb
    obtain ⟨-, -, -, h32, h13, -⟩ := not_isSpace_of_isDigit (isDigit_of_mem_decimal b hb)
    exact ⟨h32, h13⟩
  split at h
  · rcases List.mem_cons.mp h with rfl | h
    · decide
    · exact hdecimal b h
  · exact hdecimal b h

lemma decimalInt_ne_nil (z : ℤ) : decimalInt z ≠ [] := by
  unfold decimalInt
  split
  · exact List.cons_ne_nil _ _
  · exact decimal_ne_nil _

end

/-! ### The two lines -/

/-- What a key may be. -/
structure KeyOk (key : List UInt8) : Prop where
  pos : 1 ≤ key.length
  le : key.length ≤ 250
  bytes : ∀ b ∈ key, b ≠ 32 ∧ b ≠ 13 ∧ b ≠ 10 ∧ b ≠ 0

/-- `set <key> <flags> <exptime> <length>`. -/
def setLine (key : List UInt8) (flags : UInt32) (exptime : ℤ) (len : ℕ) : List UInt8 :=
  ascii "set " ++ key ++ ascii " " ++ decimal flags.toNat ++ ascii " " ++ decimalInt exptime ++
    ascii " " ++ decimal len

/-- `get <key>`. -/
def getLine (key : List UInt8) : List UInt8 := ascii "get " ++ key

section

variable {key l : List UInt8} {flags : UInt32} {exptime : ℤ} {len : ℕ}

lemma KeyOk.ne_nil (h : KeyOk key) : key ≠ [] := List.ne_nil_of_length_pos h.pos

lemma KeyOk.space (h : KeyOk key) : (32 : UInt8) ∉ key := fun hb => (h.bytes 32 hb).1 rfl

lemma setLine_eq (key : List UInt8) (flags : UInt32) (exptime : ℤ) (len : ℕ) :
    setLine key flags exptime len = ascii "set" ++ 32 :: (key ++ 32 :: (decimal flags.toNat ++
      32 :: (decimalInt exptime ++ 32 :: decimal len))) := by
  have hset : ascii "set " = ascii "set" ++ [32] := by decide
  have hspace : ascii " " = [32] := by decide
  rw [setLine, hset, hspace]
  simp only [List.append_assoc, List.cons_append, List.nil_append]

lemma decimal_space (n : ℕ) : (32 : UInt8) ∉ decimal n := fun hb =>
  (not_isSpace_of_isDigit (isDigit_of_mem_decimal 32 hb)).2.2.2.1 rfl

lemma tokens_setLine (hkey : KeyOk key) : tokens (setLine key flags exptime len) =
    [ascii "set", key, decimal flags.toNat, decimalInt exptime, decimal len] := by
  rw [setLine_eq, tokens_append (by decide) (by decide), tokens_append hkey.ne_nil hkey.space,
    tokens_append (decimal_ne_nil _) (decimal_space _),
    tokens_append (decimalInt_ne_nil _) (fun hb => (mem_decimalInt hb).1 rfl),
    tokens_singleton (decimal_ne_nil _) (decimal_space _)]

/-- A line that does not end with the last letter of `noreply`. -/
lemma stripNoreply_of_getLast {b : UInt8} (h : l.getLast? = some b) (hb : b ≠ 121) :
    stripNoreply l = (false, l) := by
  unfold stripNoreply
  rw [if_neg]
  rintro ⟨hlen, hdrop⟩
  have hlast : (l.drop (l.length - 8)).getLast? = some b := by
    rw [List.getLast?_drop, if_neg (by omega), h]
  rw [hdrop] at hlast
  exact hb (Option.some.inj hlast).symm

lemma stripNoreply_setLine : stripNoreply (setLine key flags exptime len) =
    (false, setLine key flags exptime len) := by
  obtain ⟨b, hb⟩ : ∃ b, (decimal len).getLast? = some b :=
    ⟨_, List.getLast?_eq_some_getLast (decimal_ne_nil len)⟩
  have hlast : (setLine key flags exptime len).getLast? = some b := by
    rw [setLine, List.getLast?_append, hb]
    rfl
  have hdigit := isDigit_of_mem_decimal b (List.mem_of_getLast? hb)
  exact stripNoreply_of_getLast hlast (not_isSpace_of_isDigit hdigit).2.2.2.2.2

/-- The only space of `get <key>` is the one before the key. -/
lemma stripNoreply_getLine (hkey : KeyOk key) (hne : key ≠ ascii "noreply") :
    stripNoreply (getLine key) = (false, getLine key) := by
  unfold stripNoreply
  rw [if_neg]
  rintro ⟨hlen, hdrop⟩
  have hlen' : (getLine key).length = 4 + key.length := by
    rw [getLine, List.length_append]
    rfl
  have hspace : (getLine key)[(getLine key).length - 8]? = some 32 := by
    rw [← Nat.add_zero ((getLine key).length - 8), ← List.getElem?_drop, hdrop]
    rfl
  have hget : (ascii "get ").length = 4 := rfl
  rw [hlen'] at hdrop hspace
  generalize hi : 4 + key.length - 8 = i at hdrop hspace
  rcases Nat.lt_or_ge i 4 with hlt | hle
  · rw [getLine, List.getElem?_append_left (by omega)] at hspace
    obtain rfl : i = 3 := by
      have hall : ∀ j : Fin 4, (ascii "get ")[(j : ℕ)]? = some 32 → j = 3 := by decide
      exact congrArg Fin.val (hall ⟨i, hlt⟩ hspace)
    have heq : ascii " " ++ key = ascii " " ++ ascii "noreply" := hdrop
    exact hne (List.append_cancel_left heq)
  · rw [getLine, List.getElem?_append_right (by omega)] at hspace
    exact hkey.space (List.mem_of_getElem? hspace)

lemma tokens_getLine (hkey : KeyOk key) : tokens (getLine key) = [ascii "get", key] := by
  have hget : getLine key = ascii "get" ++ 32 :: key := rfl
  rw [hget, tokens_append (by decide) (by decide), tokens_singleton hkey.ne_nil hkey.space]

/-- The numbers of the set line. -/
lemma readFields_setLine (hkey : KeyOk key) (hlen : len ≤ 2 ^ 20) :
    ∃ exptime', readFields .kSet key [decimal flags.toNat, decimalInt exptime, decimal len] =
      some ⟨flags, exptime', len, 0⟩ := by
  obtain ⟨x, hx⟩ : ∃ x, read [decimalInt exptime, decimal len] = some (x, [decimal len]) :=
    read_decimalInt exptime
  refine ⟨toTime x, ?_⟩
  have hflags : read [decimal flags.toNat, decimalInt exptime, decimal len] =
      some (flags.toNat, [decimalInt exptime, decimal len]) :=
    read_decimal (flags.toNat_lt.trans (by norm_num))
  have hbytes : read [decimal len] = some (len, []) := read_decimal (by omega)
  have hlen' : toInt len = len := Int.bmod_eq_of_le (by norm_num) (by norm_num; omega)
  have hkey' : key.length ≤ kLongestKeySize := hkey.le
  simp [readFields, hkey', hflags, hx, hbytes, hlen']

end

/-! ### The output of an item -/

lemma output_eq (item : Item) : item.output false =
    ascii "VALUE " ++ item.key ++ (ascii " " ++ decimal item.flags.toNat ++ ascii " " ++
      decimal (item.valuelen - 2) ++ ascii "\r\n") ++ item.value.take item.valuelen := by
  have htwo := item.two_le_valuelen
  have htotal := item.total_lt
  have hvalue : (item.valuelen : ℤ) - 2 = ((item.valuelen - 2 : ℕ) : ℤ) := by omega
  have hflags : (decimal item.flags.toNat).length ≤ 10 :=
    length_decimal_le (item.flags.toNat_lt.trans (by norm_num))
  have hlen : (decimal (item.valuelen - 2)).length ≤ 10 := length_decimal_le (by omega)
  have hspace : (ascii " ").length = 1 := rfl
  have hcrlf : (ascii "\r\n").length = 2 := rfl
  -- the stream has room for all of it
  have hroom : kMaxNumericSize + 100 ≤ kSmallBuffer := by decide
  have h₁ : LogStream.append [] (ascii " ") = ascii " " := LogStream.append_eq (by decide)
  have h₂ : LogStream.formatInteger (ascii " ") item.flags.toNat =
      ascii " " ++ decimal item.flags.toNat := by
    rw [LogStream.formatInteger_eq (by omega), decimalInt_natCast]
  have h₃ : LogStream.append (ascii " " ++ decimal item.flags.toNat) (ascii " ") =
      ascii " " ++ decimal item.flags.toNat ++ ascii " " :=
    LogStream.append_eq (by simp only [List.length_append]; omega)
  have h₄ : LogStream.formatInteger (ascii " " ++ decimal item.flags.toNat ++ ascii " ")
      (item.valuelen - 2) = ascii " " ++ decimal item.flags.toNat ++ ascii " " ++
        decimal (item.valuelen - 2) := by
    rw [LogStream.formatInteger_eq (by simp only [List.length_append]; omega), hvalue,
      decimalInt_natCast]
  have h₅ : LogStream.append (ascii " " ++ decimal item.flags.toNat ++ ascii " " ++
      decimal (item.valuelen - 2)) (ascii "\r\n") = ascii " " ++ decimal item.flags.toNat ++
        ascii " " ++ decimal (item.valuelen - 2) ++ ascii "\r\n" :=
    LogStream.append_eq (by simp only [List.length_append]; omega)
  simp only [output, h₁, h₂, h₃, h₄, h₅, Bool.false_eq_true, if_false]

/-! ### Reading the lines and the value -/

lemma getLine_bytes {key : List UInt8} (hkey : KeyOk key) : (13 : UInt8) ∉ getLine key := by
  intro hb
  rcases List.mem_append.mp hb with hb | hb
  · exact absurd hb (by decide)
  · exact (hkey.bytes 13 hb).2.1 rfl

lemma lineOk_getLine {key : List UInt8} (hkey : KeyOk key) : LineOk (getLine key) := by
  have hcommand : ∀ beg, CommandOk (ascii "get" :: beg) := fun beg => ⟨nofun, trivial⟩
  constructor
  · have := hkey.le
    have hget : (ascii "get ").length = 4 := rfl
    rw [getLine, List.length_append]
    omega
  · by_cases hne : key = ascii "noreply"
    · rw [hne]
      decide
    · rw [stripNoreply_getLine hkey hne, tokens_getLine hkey]
      exact hcommand _

/-- The first line of a stream. -/
lemma commandLines_line {line : List UInt8} (h : (13 : UInt8) ∉ line) (rest : List UInt8) :
    commandLines [] 0 (line ++ 13 :: 10 :: rest) =
      line :: commandLines [] (valueBytes line) rest := by
  have hdrop : (line ++ 13 :: 10 :: rest).drop (line.length + 2) = rest :=
    List.drop_length_add_append 2
  have hlines : commandLines [] 0 (line ++ 13 :: 10 :: rest ++ []) = _ :=
    commandLines_of_findCRLF (findCRLF_append_crlf (findCRLF_eq_none h) rest) (by simp)
  rw [List.append_nil, List.append_nil, List.nil_append, List.take_left, hdrop] at hlines
  exact hlines

namespace Session

variable {hash : List UInt8 → ℕ} {T : Prop} {s s' : Session} {key line v rest : List UInt8}
  {flags : UInt32} {exptime : ℤ}

/-- A session that waits for a request, on a connection that is up. -/
structure Ready (s : Session) : Prop where
  state : s.state = .kNewCommand
  reset : s.IsReset
  needle : s.needle.valuelen = 2
  connected : s.conn.connected = true
  outputBuf : s.outputBuf = []

lemma onMessage_line (hstate : s.state = .kNewCommand) (hline : (13 : UInt8) ∉ line)
    (hlen : line.length ≤ 1023) {p : Bool × Session}
    (hp : s.processRequest hash line = .ok p) :
    s.onMessage hash (line ++ 13 :: 10 :: rest) = (next p).onMessage hash rest := by
  have hdrop : (line ++ 13 :: 10 :: rest).drop (line.length + 2) = rest :=
    List.drop_length_add_append 2
  have hrequest : request hash s (line ++ 13 :: 10 :: rest) line.length = .ok (next p, rest) := by
    rw [request, check_of (by omega), ok_bind, List.take_left, hp, hdrop]
    rfl
  have hcrlf := findCRLF_append_crlf (findCRLF_eq_none hline) rest
  rw [onMessage_eq, round_request hash hstate hcrlf, hrequest]
  rfl

/-- The session after a set line. -/
def receiving (s : Session) (item : Item) : Session :=
  { s with command := ascii "set", policy := .kSet, currItem := some item, state := .kReceiveValue }

/-- The set line leaves an item without its value. -/
lemma processRequest_set (h : s.Ready) (hkey : KeyOk key) (hlen : v.length ≤ 2 ^ 20) :
    ∃ item relExptime, item.Fresh key flags relExptime (v.length + 2) 0 ∧
      s.processRequest hash (setLine key flags exptime v.length) =
        .ok (false, s.receiving item) := by
  obtain ⟨exptime', hfields⟩ : ∃ exptime', readFields .kSet key
      [decimal flags.toNat, decimalInt exptime, decimal v.length] =
        some ⟨flags, exptime', v.length, 0⟩ := readFields_setLine hkey hlen
  have hsize : (v.length : ℤ) ≤ 1024 * 1024 := by omega
  obtain ⟨item, hfresh, hupdate⟩ := doUpdate_small (s := { s with command := ascii "set" }) hash rfl
    hfields (Int.natCast_nonneg _) hsize
  refine ⟨item, _, hfresh, ?_⟩
  exact (processRequest_update hash h.reset stripNoreply_setLine (tokens_setLine hkey) rfl).trans
    hupdate

/-- What is stored under the key. -/
structure Holds (a : Item) (key : List UInt8) (flags : UInt32) (v : List UInt8) : Prop where
  key : a.key = key
  flags : a.flags = flags
  value : a.value = v ++ [13, 10]
  valuelen : a.valuelen = v.length + 2

/-- The session once the value is stored. -/
def stored (hash : List UInt8 → ℕ) (s : Session) (a : Item) : Session :=
  { s.resetRequest with
    state := .kNewCommand
    owner := s.owner.put hash a
    conn := s.conn.send (ascii "STORED\r\n") }

/-- The bytes after a set line are stored. -/
lemma onMessage_value {item : Item} {relExptime : ℤ} (hstate : s.state = .kReceiveValue)
    (hpolicy : s.policy = .kSet) (hnoreply : s.noreply = false) (hitem : s.currItem = some item)
    (hfresh : item.Fresh key flags relExptime (v.length + 2) 0) (rest : List UInt8) :
    ∃ a, Holds a key flags v ∧
      s.onMessage hash (v ++ 13 :: 10 :: rest) = (stored hash s a).onMessage hash rest := by
  have hvaluelen := hfresh.valuelen
  have hneeded : item.neededBytes = v.length + 2 := by
    rw [neededBytes_eq, hfresh.value, List.length_nil]
    omega
  have hle : item.neededBytes ≤ (v ++ 13 :: 10 :: rest).length := by
    rw [hneeded]
    simp
  have htake : (v ++ 13 :: 10 :: rest).take item.neededBytes = v ++ [13, 10] := by
    rw [hneeded]
    exact List.take_length_add_append 2
  have hdrop : (v ++ 13 :: 10 :: rest).drop item.neededBytes = rest := by
    rw [hneeded]
    exact List.drop_length_add_append 2
  obtain ⟨item', hitem', -, hr⟩ := receiveValue_of_le hash hstate hitem hle
  rw [htake] at hitem'
  have hext := append_extends hitem'
  have hholds : Holds (item'.setCas s.owner.incrementAndGet.1) key flags v := by
    refine ⟨hext.key.trans hfresh.key, hext.flags.trans hfresh.flags, ?_, ?_⟩
    · rw [value_setCas, hext.value, hfresh.value, List.nil_append]
    · change item'.valuelen = _
      rw [hext.valuelen]
      omega
  refine ⟨_, hholds, ?_⟩
  have hcomplete : item'.value.length = item'.valuelen := by
    rw [show item'.value = _ from hholds.value, show item'.valuelen = _ from hholds.valuelen]
    simp
  have hcrlf := (endsWithCRLF_of_value hcomplete hholds.value).1
  have hzero : item'.neededBytes = 0 := neededBytes_eq_zero.mpr (complete_iff.mpr hcomplete)
  have hstore : s.owner.storeItem hash item' .kSet = .ok (true,
      (s.owner.lookup hash item'.key).isSome,
      s.owner.put hash (item'.setCas s.owner.incrementAndGet.1)) := by
    rw [MemcacheServer.storeItem_eq, check_of hzero]
    rfl
  have hfinish : finishValue hash { s with currItem := some item' } item' =
      .ok (stored hash s (item'.setCas s.owner.incrementAndGet.1)) := by
    unfold finishValue storeValue
    rw [if_pos hcrlf]
    dsimp only
    rw [hpolicy, hstore]
    simp [reply, hnoreply, storedReply, stored, resetRequest]
  have hbuf : v ++ 13 :: 10 :: rest ≠ [] := by simp
  rw [onMessage_eq, round_receive hash hstate hbuf, hr, hfinish, hdrop]
  rfl

/-- The text that a get sends for an item. -/
def valueText (key : List UInt8) (flags : UInt32) (v : List UInt8) : List UInt8 :=
  ascii "VALUE " ++ key ++ ascii " " ++ decimal flags.toNat ++ ascii " " ++ decimal v.length ++
    ascii "\r\n" ++ v ++ ascii "\r\n"

lemma valueText_ne_nil : valueText key flags v ≠ [] := by
  have hword : ascii "VALUE " ≠ [] := by decide
  simp only [valueText, ne_eq, List.append_eq_nil_iff, hword, false_and, not_false_eq_true]

lemma Holds.output {a : Item} (h : Holds a key flags v) :
    a.output false = valueText key flags v := by
  have hcrlf : ascii "\r\n" = [13, 10] := by decide
  have htake : (v ++ [13, 10]).take (v.length + 2) = v ++ [13, 10] :=
    List.take_of_length_le (by simp)
  rw [output_eq, h.key, h.flags, h.value, h.valuelen, htake, Nat.add_sub_cancel, valueText, hcrlf]
  simp only [List.append_assoc]

/-- The get line, as the end of the input. -/
lemma onMessage_get (hstate : s.state = .kNewCommand) (hkey : KeyOk key) {sent : List UInt8}
    (h : Yields (s.processRequest hash (getLine key)) fun p => p.1 = true ∧ p.2.conn.sent = sent) :
    Yields (s.onMessage hash (getLine key ++ [13, 10])) fun p => p.1.conn.sent = sent := by
  obtain ⟨⟨finished, s'⟩, hs', rfl, hsent⟩ := h
  rw [onMessage_line hstate (getLine_bytes hkey) (lineOk_getLine hkey).1 hs', onMessage_nil]
  exact ⟨_, rfl, hsent⟩

/-- The session at the start of a get. -/
def getting (s : Session) (noreply : Bool) : Session :=
  { s.setNoreply noreply with command := ascii "get" }

lemma Ready.getting (h : s.Ready) (noreply : Bool) :
    (s.getting noreply).conn = s.conn ∧ (s.getting noreply).owner = s.owner ∧
      (s.getting noreply).needle.valuelen = 2 ∧ (s.getting noreply).outputBuf = [] := by
  cases noreply <;> exact ⟨rfl, rfl, h.needle, h.outputBuf⟩

/-- A request that comes to a get of the given keys. -/
lemma processRequest_get {request request' : List UInt8} {noreply : Bool} {keys : List Token}
    (h : s.Ready) (hstrip : stripNoreply request = (noreply, request'))
    (htok : tokens request' = ascii "get" :: keys)
    (hkeys : ∀ key ∈ keys, key.length ≤ kLongestKeySize) :
    Yields (s.processRequest hash request) fun p => p.1 = true ∧
      p.2.conn.sent = s.conn.sent ++ (blocks hash false s.owner keys ++ ascii "END\r\n") := by
  obtain ⟨hconn, howner, hneedle, hbuf⟩ := h.getting noreply
  obtain ⟨s', hs', hsent⟩ := doGet_sent hneedle hkeys (hconn ▸ h.connected) false
  rw [hconn, howner, hbuf, List.nil_append] at hsent
  refine ⟨(true, s'), ?_, rfl, hsent⟩
  rw [processRequest_command hash h.reset hstrip htok]
  change (true, ·) <$> doGet hash (s.getting noreply) false keys = _
  rw [hs']
  rfl

lemma getLine_value (h : s.Ready) (hkey : KeyOk key) (hne : key ≠ ascii "noreply") {a : Item}
    (hitem : s.owner.lookup hash key = some a) (ha : Holds a key flags v) :
    Yields (s.onMessage hash (getLine key ++ [13, 10])) fun p =>
      p.1.conn.sent = s.conn.sent ++ (valueText key flags v ++ ascii "END\r\n") := by
  have hblocks : blocks hash false s.owner [key] = valueText key flags v := by
    rw [blocks, List.flatMap_singleton, hitem]
    exact ha.output
  rw [← hblocks]
  exact onMessage_get h.state hkey (processRequest_get h (stripNoreply_getLine hkey hne)
    (tokens_getLine hkey) (List.forall_mem_singleton.mpr hkey.le))

lemma getLine_noreply (h : s.Ready) (hkey : KeyOk (ascii "noreply")) :
    Yields (s.onMessage hash (getLine (ascii "noreply") ++ [13, 10])) fun p =>
      p.1.conn.sent = s.conn.sent ++ ascii "END\r\n" := by
  have hstrip : stripNoreply (getLine (ascii "noreply")) = (true, ascii "get") := by decide
  exact onMessage_get h.state hkey
    (processRequest_get h hstrip (tokens_singleton (by decide) (by decide)) nofun)

/-! ### The round trip -/

/-- The set line, the value and the get line. -/
def roundTrip (key : List UInt8) (flags : UInt32) (exptime : ℤ) (v : List UInt8) : List UInt8 :=
  setLine key flags exptime v.length ++ ascii "\r\n" ++ v ++ ascii "\r\n" ++ getLine key ++
    ascii "\r\n"

lemma roundTrip_eq (key : List UInt8) (flags : UInt32) (exptime : ℤ) (v : List UInt8) :
    roundTrip key flags exptime v = setLine key flags exptime v.length ++
      13 :: 10 :: (v ++ 13 :: 10 :: (getLine key ++ [13, 10])) := by
  have hcrlf : ascii "\r\n" = [13, 10] := by decide
  simp only [roundTrip, hcrlf, List.append_assoc, List.cons_append, List.nil_append]

lemma setLine_bytes (hkey : KeyOk key) (len : ℕ) :
    (13 : UInt8) ∉ setLine key flags exptime len := by
  have hdecimal : ∀ n, (13 : UInt8) ∉ decimal n := fun n hb =>
    (not_isSpace_of_isDigit (isDigit_of_mem_decimal 13 hb)).2.2.2.2.1 rfl
  have hset : (13 : UInt8) ∉ ascii "set" := by decide
  rw [setLine_eq]
  simp only [List.mem_append, List.mem_cons, not_or]
  exact ⟨hset, by decide, fun hb => (hkey.bytes 13 hb).2.1 rfl, by decide, hdecimal _, by decide,
    fun hb => (mem_decimalInt hb).2 rfl, by decide, hdecimal _⟩

lemma length_setLine (hkey : KeyOk key) (hexp : -2 ^ 63 ≤ exptime ∧ exptime < 2 ^ 63)
    {len : ℕ} (hlen : len ≤ 2 ^ 20) : (setLine key flags exptime len).length ≤ 1023 := by
  have hset : (ascii "set").length = 3 := rfl
  have hk := hkey.le
  have hf : (decimal flags.toNat).length ≤ 10 :=
    length_decimal_le (flags.toNat_lt.trans (by norm_num))
  have hl : (decimal len).length ≤ 10 := length_decimal_le (by omega)
  have hd : (decimal exptime.natAbs).length ≤ 19 := length_decimal_le (by omega)
  have he : (decimalInt exptime).length ≤ 20 := by
    unfold decimalInt
    split
    · exact Nat.succ_le_succ hd
    · omega
  rw [setLine_eq]
  simp only [List.length_append, List.length_cons]
  omega

lemma Ready.inv (h : s.Ready) : s.Inv hash False := by
  refine ⟨⟨False.elim, h.needle⟩, ?_⟩
  rw [h.state]
  exact h.reset

/-- A session after a set is ready again, and holds the value. -/
lemma onMessage_set (h : s.Ready) (hkey : KeyOk key) (hexp : -2 ^ 63 ≤ exptime ∧ exptime < 2 ^ 63)
    (hv : v.length ≤ 2 ^ 20) (rest : List UInt8) :
    ∃ (s' : Session) (a : Item), s'.Ready ∧ Holds a key flags v ∧
      s'.owner = s.owner.put hash a ∧ s'.conn.sent = s.conn.sent ++ ascii "STORED\r\n" ∧
      s.onMessage hash (setLine key flags exptime v.length ++ 13 :: 10 :: (v ++ 13 :: 10 :: rest)) =
        s'.onMessage hash rest := by
  obtain ⟨item, relExptime, hfresh, hp⟩ : ∃ item relExptime,
      item.Fresh key flags relExptime (v.length + 2) 0 ∧
      s.processRequest hash (setLine key flags exptime v.length) = .ok (false, s.receiving item) :=
    processRequest_set h hkey hv
  have hnoreply : (s.receiving item).noreply = false := h.reset.2.1
  obtain ⟨a, ha, hvalue⟩ : ∃ a, Holds a key flags v ∧
      (s.receiving item).onMessage hash (v ++ 13 :: 10 :: rest) =
        (stored hash (s.receiving item) a).onMessage hash rest :=
    onMessage_value rfl rfl hnoreply rfl hfresh rest
  refine ⟨stored hash (s.receiving item) a, a,
    ⟨rfl, ⟨rfl, rfl, rfl, rfl, rfl⟩, h.needle, ?_, h.outputBuf⟩, ha, rfl, ?_,
    (onMessage_line h.state (setLine_bytes hkey _) (length_setLine hkey hexp hv) hp).trans hvalue⟩
  · change (s.conn.send _).connected = true
    rw [Conn.send, if_pos h.connected]
    exact h.connected
  · change (s.conn.send _).sent = _
    rw [Conn.send, if_pos h.connected]

/-- The lines of a round trip, however its bytes come in. -/
lemma lineOk_roundTrip (hkey : KeyOk key) (hexp : -2 ^ 63 ≤ exptime ∧ exptime < 2 ^ 63)
    (hv : v.length ≤ 2 ^ 20) :
    ∀ line ∈ commandLines [] 0 (roundTrip key flags exptime v), LineOk line := by
  obtain ⟨exptime', hfields⟩ : ∃ exptime', readFields .kSet key
      [decimal flags.toNat, decimalInt exptime, decimal v.length] =
        some ⟨flags, exptime', v.length, 0⟩ := readFields_setLine hkey hv
  have hpolicy : policyOf (ascii "set") = some .kSet := by decide
  have hset : LineOk (setLine key flags exptime v.length) := by
    refine ⟨length_setLine hkey hexp hv, ?_⟩
    rw [stripNoreply_setLine, tokens_setLine hkey]
    refine ⟨fun _ => List.cons_ne_nil _ _, ?_⟩
    rw [hpolicy]
    intro fields h
    cases hfields.symm.trans h
    dsimp only
    omega
  have hvalue : valueBytes (setLine key flags exptime v.length) = v.length + 2 := by
    rw [valueBytes, stripNoreply_setLine, tokens_setLine hkey]
    dsimp only
    unfold updateBytes
    rw [hpolicy]
    dsimp only
    rw [hfields]
    rfl
  have hdrop : (v ++ 13 :: 10 :: (getLine key ++ [13, 10])).drop (v.length + 2) =
      getLine key ++ [13, 10] := List.drop_length_add_append 2
  rw [roundTrip_eq, commandLines_line (setLine_bytes hkey _), hvalue, commandLines_skip, hdrop,
    commandLines_line (getLine_bytes hkey)]
  intro line hline
  rcases List.mem_cons.mp hline with rfl | hline
  · exact hset
  · rw [commandLines] at hline
    rw [List.mem_singleton.mp hline]
    exact lineOk_getLine hkey

/-- A set and a get send the value back, unless the key is taken for the suffix. -/
theorem set_get_round_trip (hash : List UInt8 → ℕ) (s : Session) (hs : s.Ready)
    (key : List UInt8) (hkey : KeyOk key) (flags : UInt32) (exptime : ℤ)
    (hexp : -2 ^ 63 ≤ exptime ∧ exptime < 2 ^ 63) (v : List UInt8) (hv : v.length ≤ 2 ^ 20)
    (chunks : List (List UInt8)) (hchunks : ∀ c ∈ chunks, c ≠ [])
    (hstream : chunks.flatten = roundTrip key flags exptime v) :
    (Yields (run (receive hash) (s, []) chunks) fun p => p.1.conn.sent =
      s.conn.sent ++ (ascii "STORED\r\n" ++ valueText key flags v ++ ascii "END\r\n")) ↔
    key ≠ ascii "noreply" := by
  have hlines : ∀ line ∈ commandLines [] s.pending chunks.flatten, LineOk line := by
    rw [pending_of_new hs.state, hstream]
    exact lineOk_roundTrip hkey hexp hv
  obtain ⟨s', a, hs', ha, howner, hsent, hset⟩ : ∃ (s' : Session) (a : Item), s'.Ready ∧
      Holds a key flags v ∧ s'.owner = s.owner.put hash a ∧
      s'.conn.sent = s.conn.sent ++ ascii "STORED\r\n" ∧
      s.onMessage hash (setLine key flags exptime v.length ++
        13 :: 10 :: (v ++ 13 :: 10 :: (getLine key ++ [13, 10]))) =
          s'.onMessage hash (getLine key ++ [13, 10]) :=
    onMessage_set hs hkey hexp hv (getLine key ++ [13, 10])
  rw [run_receive hs.inv hchunks hlines, hstream, roundTrip_eq, hset]
  constructor
  · rintro ⟨p, hp, hp'⟩ rfl
    obtain ⟨q, hq, hq'⟩ := getLine_noreply hs' hkey
    cases hp.symm.trans hq
    -- the bytes sent are those of an empty value text
    have hbytes := hp'.symm.trans hq'
    simp only [hsent, List.append_assoc, List.append_cancel_left_eq, List.append_left_eq_self]
      at hbytes
    exact valueText_ne_nil hbytes
  · intro hne
    have hlookup : s'.owner.lookup hash key = some a := by
      rw [howner, MemcacheServer.lookup_put, if_pos ha.key.symm]
    obtain ⟨p, hp, hp'⟩ := getLine_value hs' hkey hne hlookup ha
    refine ⟨p, hp, hp'.trans ?_⟩
    rw [hsent]
    simp only [List.append_assoc]

/-- A value that holds a CRLF comes back from a session that has just started. -/
theorem set_get_round_trip_crlf :
    Yields (makeSession ⟨0, fun _ => .empty, 0, 0⟩) fun s =>
      Yields (run (receive List.length) (s, []) [roundTrip (ascii "k") 5 0 (ascii "a\r\nb")])
        fun p => p.1.conn.sent = s.conn.sent ++ (ascii "STORED\r\n" ++
          valueText (ascii "k") 5 (ascii "a\r\nb") ++ ascii "END\r\n") := by
  obtain ⟨s, hs, -, hstate, hreset, hneedle, hconn, hbuf⟩ :=
    makeSession_spec ⟨0, fun _ => .empty, 0, 0⟩
  have hready : s.Ready := ⟨hstate, hreset, hneedle, hconn ▸ rfl, hbuf⟩
  have hkey : KeyOk (ascii "k") := ⟨by decide +kernel, by decide +kernel, by decide +kernel⟩
  have hanswer := set_get_round_trip List.length s hready (ascii "k") hkey 5 0 (by norm_num)
    (ascii "a\r\nb") (by decide +kernel) [roundTrip (ascii "k") 5 0 (ascii "a\r\nb")]
    (by decide +kernel) (List.append_nil _)
  exact ⟨s, hs, hanswer.mpr (by decide)⟩

/-- The get of a key named after the suffix is answered without the value. -/
theorem get_noreply_loses_value :
    (do
      let s ← makeSession ⟨0, fun _ => .empty, 0, 0⟩
      let p ← run (receive List.length) (s, []) [roundTrip (ascii "noreply") 5 0 (ascii "v")]
      return p.1.conn.sent : Code (List UInt8)) = .ok (ascii "STORED\r\nEND\r\n") := by
  decide +kernel

end Session

end Muduo.Memcached

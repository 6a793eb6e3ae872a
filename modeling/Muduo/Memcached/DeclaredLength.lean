import Mathlib.Data.FinEnum
import Muduo.Memcached.Tokens

/-!
# The declared length of a value

An update line ends with the length of the value that follows. The text of that number goes through
`strtoull`, which accepts a sign and saturates, through a cast to `int`, and through an addition of
two for the CRLF. What the session does with the bytes that follow is compared here with the integer
that the text denotes.

## Main results

* `declared_length_honoured_iff`: the session takes or discards as many bytes as the line says, if
  and only if the number is not negative and its cast leaves room for the CRLF.
-/

namespace Muduo.Memcached

open Machine Item

/-! ### The integer of a token -/

/-- The integer that a text denotes: blanks, a sign and digits, and nothing else. -/
def integerOf (t : Token) : Option ℤ :=
  let (negative, ds) := sign (t.dropWhile isSpace)
  if ds ≠ [] ∧ ∀ b ∈ ds, isDigit b = true then
    some (if negative then -(ofDigits ds : ℤ) else ofDigits ds)
  else
    none

/-- What `strtoull` makes of an integer. -/
def saturated (N : ℤ) : ℕ := if 2 ^ 64 ≤ N.natAbs then 2 ^ 64 - 1 else (N % 2 ^ 64).toNat

section

variable {t : Token} {r args : List Token} {x : ℕ}

lemma length_sign_le (l : List UInt8) : (sign l).2.length ≤ l.length := by
  unfold sign
  split
  · exact le_refl _
  · split
    · exact Nat.le_succ _
    · split
      · exact Nat.le_succ _
      · exact le_refl _

/-- A text that `strtoull` uses up is that of an integer. -/
lemma integerOf_of_strtoull (ht : t ≠ []) (h : strtoull t = (x, t.length)) :
    ∃ N, integerOf t = some N ∧ x = saturated N := by
  have hlen := (length_sign_le (t.dropWhile isSpace)).trans (List.length_dropWhile_le isSpace t)
  have hpos := List.length_pos_of_ne_nil ht
  unfold strtoull at h
  unfold integerOf
  rcases hsign : sign (t.dropWhile isSpace) with ⟨negative, l⟩
  rw [hsign] at h hlen
  dsimp only at h hlen ⊢
  by_cases hds : l.takeWhile isDigit = []
  · rw [if_pos hds, Prod.mk.injEq] at h
    omega
  · rw [if_neg hds, Prod.mk.injEq] at h
    obtain ⟨rfl, hstop⟩ := h
    -- the digits reach to the end of the token
    have hall : l.takeWhile isDigit = l :=
      (List.takeWhile_prefix isDigit).eq_of_length (by omega)
    rw [hall] at hds ⊢
    rw [if_pos ⟨hds, List.takeWhile_eq_self_iff.mp hall⟩]
    refine ⟨_, rfl, ?_⟩
    cases negative with
    | false =>
      simp only [saturated, Bool.false_eq_true, if_false, Int.natAbs_natCast]
      split <;> omega
    | true =>
      simp only [saturated, if_true, Int.natAbs_neg, Int.natAbs_natCast]
      split <;> omega

lemma read_eq_some (hargs : ∀ t ∈ args, t ≠ []) (h : read args = some (x, r)) :
    ∃ t N, args = t :: r ∧ integerOf t = some N ∧ x = saturated N := by
  cases args with
  | nil => cases h
  | cons t rest =>
    rw [read] at h
    rcases hread : strtoull t with ⟨x', stop⟩
    rw [hread] at h
    dsimp only at h
    split at h
    · next hstop =>
      cases h
      obtain ⟨N, hN, hx⟩ := integerOf_of_strtoull (hargs t (List.mem_cons_self ..)) (hstop ▸ hread)
      exact ⟨t, N, rfl, hN, hx⟩
    · cases h

/-- The number of bytes is the third number of an update. -/
lemma bytes_of_readFields {policy : UpdatePolicy} {key : Token} {fields : Fields}
    (hargs : ∀ t ∈ args, t ≠ []) (h : readFields policy key args = some fields) :
    ∃ count N, args[2]? = some count ∧ integerOf count = some N ∧
      fields.bytes = toInt (saturated N) := by
  obtain ⟨x₁, r₁, x₂, r₂, x₃, r₃, h₁, h₂, h₃, hbytes⟩ := Session.readFields_eq_some h
  obtain ⟨t₁, -, rfl, -⟩ := read_eq_some hargs h₁
  have hargs₁ := fun t ht => hargs t (List.mem_cons_of_mem t₁ ht)
  obtain ⟨t₂, -, rfl, -⟩ := read_eq_some hargs₁ h₂
  have hargs₂ := fun t ht => hargs₁ t (List.mem_cons_of_mem t₂ ht)
  obtain ⟨t₃, N, rfl, hN, hx₃⟩ := read_eq_some hargs₂ h₃
  exact ⟨t₃, N, rfl, hN, hx₃ ▸ hbytes⟩

end

/-! ### Taking a number of bytes -/

namespace Session

variable {hash : List UInt8 → ℕ} {s : Session} {n : ℕ}

/-- The session throws the next `n` bytes away, and no more. -/
structure Discards (s : Session) (n : ℕ) : Prop where
  state : s.state = .kDiscardValue
  waits : ∀ x, x.length < n → ∃ s₁, s.discardValue x = .ok (s₁, []) ∧ s₁.state = .kDiscardValue ∧
    ∀ y, s.discardValue (x ++ y) = s₁.discardValue y
  ends : ∀ x rest, x.length = n →
    s.discardValue (x ++ rest) = .ok ({ s.resetRequest with state := .kNewCommand }, rest)

/-- The session has an item for a value of `n` bytes, which the next `n` bytes become. -/
structure Receives (hash : List UInt8 → ℕ) (s : Session) (n : ℕ) : Prop where
  state : s.state = .kReceiveValue
  item : ∃ item, s.currItem = some item ∧ item.valuelen = n ∧ 2 ≤ item.valuelen ∧ item.value = []
  waits : ∀ x, x.length < n → ∃ s₁, s.receiveValue hash x = .ok (s₁, []) ∧
    s₁.state = .kReceiveValue ∧ ∀ y, s.receiveValue hash (x ++ y) = s₁.receiveValue hash y
  ends : ∀ x rest, x.length = n → ∃ item, item.valuelen = n ∧ item.value = x ∧
    s.receiveValue hash (x ++ rest) =
      (·, rest) <$> finishValue hash { s with currItem := some item } item

lemma discards_iff (hstate : s.state = .kDiscardValue) (hitem : s.currItem = none) :
    s.Discards n ↔ n = s.bytesToDiscard := by
  constructor
  · intro h
    rcases Nat.lt_trichotomy n s.bytesToDiscard with hlt | heq | hgt
    · -- too few bytes do not end the value
      have hlen : (List.replicate n (0 : UInt8)).length = n := List.length_replicate
      obtain ⟨s₁, hs₁, hstate₁, -⟩ := discardValue_append hstate hitem (hlen.trans_lt hlt)
      have hends := h.ends _ [] hlen
      rw [List.append_nil, hs₁] at hends
      cases hends
      cases hstate₁
    · exact heq
    · -- the value ends before that many bytes
      have hlen : (List.replicate s.bytesToDiscard (0 : UInt8)).length = s.bytesToDiscard :=
        List.length_replicate
      obtain ⟨s₁, hs₁, hstate₁, -⟩ := h.waits _ (hlen.trans_lt hgt)
      rw [discardValue_of_le hstate hitem hlen.ge, List.drop_eq_nil_of_le hlen.le] at hs₁
      cases hs₁
      cases hstate₁
  · rintro rfl
    refine ⟨hstate, fun x hx => discardValue_append hstate hitem hx, fun x rest hx => ?_⟩
    rw [discardValue_of_le hstate hitem (by rw [List.length_append]; omega), ← hx, List.drop_left]

lemma receives_iff {item : Item} (hash : List UInt8 → ℕ) (hstate : s.state = .kReceiveValue)
    (hitem : s.currItem = some item) (hvalue : item.value = []) :
    s.Receives hash n ↔ n = item.valuelen := by
  constructor
  · intro h
    obtain ⟨item', hitem', hlen, -⟩ := h.item
    rw [hitem] at hitem'
    cases hitem'
    exact hlen.symm
  · rintro rfl
    have hneeded : item.neededBytes = item.valuelen := by
      rw [neededBytes_eq, hvalue]
      rfl
    refine ⟨hstate, ⟨item, hitem, rfl, item.two_le_valuelen, hvalue⟩, fun x hx => ?_,
      fun x rest hx => ?_⟩
    · exact receiveValue_append hash hstate hitem (hneeded ▸ hx)
    · have hle : item.neededBytes ≤ (x ++ rest).length := by
        rw [hneeded, List.length_append]
        omega
      obtain ⟨item', happend, -, hr⟩ := receiveValue_of_le hash hstate hitem hle
      rw [hneeded, ← hx, List.take_left] at happend
      rw [hneeded, ← hx, List.drop_left] at hr
      have hext := append_extends happend
      refine ⟨item', hext.valuelen, ?_, hr⟩
      rw [hext.value, hvalue, List.nil_append]

/-! ### The length of an update -/

/-- After the line, as many bytes as it declares and the CRLF are discarded or received. -/
def Honours (hash : List UInt8 → ℕ) (s : Session) (line : List UInt8) (N : ℤ) : Prop :=
  0 ≤ N ∧ Yields (s.processRequest hash line) fun p => p.1 = false ∧
    (1024 * 1024 < N ∧ p.2.Discards (N + 2).toNat ∨
      N ≤ 1024 * 1024 ∧ p.2.Receives hash (N + 2).toNat)

/-- The numbers whose cast to `int` leaves room for the CRLF; the last two overflow the `int` when
two is added, and come out right as a `size_t`. -/
def InRange (N : ℤ) : Prop :=
  0 ≤ N ∧ N ≤ 2 ^ 31 - 3 ∨ N = 2 ^ 64 - 2 ^ 31 - 2 ∨ N = 2 ^ 64 - 2 ^ 31 - 1

section

variable {N bytes : ℤ}

lemma inRange_of_small (hbytes : bytes = toInt (saturated N)) (hlow : 0 ≤ bytes)
    (hhigh : bytes ≤ 1024 * 1024) :
    0 ≤ N ∧ N ≤ 1024 * 1024 ∧ (N + 2).toNat = (bytes + 2).toNat ↔ InRange N := by
  unfold toInt saturated at hbytes
  rw [Int.bmod_def] at hbytes
  unfold InRange
  split_ifs at hbytes <;> omega

lemma inRange_of_large (hbytes : bytes = toInt (saturated N)) (hlarge : 1024 * 1024 < bytes) :
    0 ≤ N ∧ 1024 * 1024 < N ∧
      (N + 2).toNat = (Int.bmod (bytes + 2) (2 ^ 32) % 2 ^ 64).toNat ↔ InRange N := by
  unfold toInt saturated at hbytes
  rw [Int.bmod_def] at hbytes ⊢
  unfold InRange
  split_ifs at hbytes ⊢ <;> omega

lemma not_inRange_of_negative (hbytes : bytes = toInt (saturated N)) (hneg : bytes < 0) :
    ¬ InRange N := by
  unfold toInt saturated at hbytes
  rw [Int.bmod_def] at hbytes
  unfold InRange
  split_ifs at hbytes <;> omega

end

section

variable {N : ℤ} {line : List UInt8} {command key : Token} {args : List Token}
  {policy : UpdatePolicy} {fields : Fields}

/-- The session in which `doUpdate` runs. -/
lemma updating_spec (hs : s.Inv hash False) (hstate : s.state = .kNewCommand) (noreply : Bool)
    (command : Token) : ({ s.setNoreply noreply with command } : Session).needle.valuelen = 2 ∧
      ({ s.setNoreply noreply with command } : Session).currItem = none := by
  have hitem : s.currItem = none :=
    Option.isNone_iff_eq_none.mp (hs.isReset hstate).2.2.2.1
  exact ⟨(hs.rest.setNoreply noreply).needle, (currItem_setNoreply noreply).trans hitem⟩

lemma honours_of_large (hs : s.Inv hash False) (hstate : s.state = .kNewCommand)
    (htok : tokens (stripNoreply line).2 = command :: key :: args)
    (hpolicy : policyOf command = some policy) (haccept : readFields policy key args = some fields)
    (hlarge : 1024 * 1024 < fields.bytes) : s.Honours hash line N ↔ 0 ≤ N ∧ 1024 * 1024 < N ∧
      (N + 2).toNat = (Int.bmod (fields.bytes + 2) (2 ^ 32) % 2 ^ 64).toNat := by
  obtain ⟨hneedle, hitem⟩ := updating_spec hs hstate (stripNoreply line).1 command
  obtain ⟨s', hupdate, hstate', hitem', hdiscard⟩ : ∃ s', s.processRequest hash line =
      .ok (false, s') ∧ s'.state = .kDiscardValue ∧ s'.currItem = none ∧
        s'.bytesToDiscard = (Int.bmod (fields.bytes + 2) (2 ^ 32) % 2 ^ 64).toNat := by
    obtain ⟨needle, -, -, hupdate⟩ := doUpdate_large hash hneedle hpolicy haccept hlarge
    exact ⟨_, (processRequest_update hash (hs.isReset hstate) rfl htok hpolicy).trans hupdate, rfl,
      (currItem_reply _).trans hitem, rfl⟩
  rw [Honours, hupdate, ← hdiscard, ← discards_iff hstate' hitem']
  apply and_congr_right
  intro _
  constructor
  · rintro ⟨p, hp, -, h⟩
    cases hp
    rcases h with hdiscards | ⟨-, hreceives⟩
    · exact hdiscards
    · cases hstate'.symm.trans hreceives.state
  · intro hdiscards
    exact ⟨_, rfl, rfl, .inl hdiscards⟩

lemma honours_of_small (hreset : s.IsReset)
    (htok : tokens (stripNoreply line).2 = command :: key :: args)
    (hpolicy : policyOf command = some policy) (haccept : readFields policy key args = some fields)
    (hlow : 0 ≤ fields.bytes) (hsmall : fields.bytes ≤ 1024 * 1024) :
    s.Honours hash line N ↔ 0 ≤ N ∧ N ≤ 1024 * 1024 ∧
      (N + 2).toNat = (fields.bytes + 2).toNat := by
  obtain ⟨s', item, hupdate, hstate', hitem', hvalue, hlen⟩ : ∃ s' item,
      s.processRequest hash line = .ok (false, s') ∧ s'.state = .kReceiveValue ∧
        s'.currItem = some item ∧ item.value = [] ∧
          item.valuelen = (fields.bytes + 2).toNat := by
    rw [processRequest_update hash hreset rfl htok hpolicy]
    obtain ⟨item, hfresh, hupdate⟩ := doUpdate_small
      (s := { s.setNoreply (stripNoreply line).1 with command }) hash hpolicy haccept hlow hsmall
    have hlen := hfresh.valuelen
    exact ⟨_, item, hupdate, rfl, rfl, hfresh.value, by omega⟩
  rw [Honours, hupdate, ← hlen, ← receives_iff hash hstate' hitem' hvalue]
  apply and_congr_right
  intro _
  constructor
  · rintro ⟨p, hp, -, h⟩
    cases hp
    rcases h with ⟨-, hdiscards⟩ | hreceives
    · cases hstate'.symm.trans hdiscards.state
    · exact hreceives
  · intro hreceives
    exact ⟨_, rfl, rfl, .inr hreceives⟩

lemma not_honours_of_negative (hreset : s.IsReset)
    (htok : tokens (stripNoreply line).2 = command :: key :: args)
    (hpolicy : policyOf command = some policy) (haccept : readFields policy key args = some fields)
    (hneg : fields.bytes < 0) : ¬ s.Honours hash line N := by
  rintro ⟨-, p, hp, -⟩
  rw [processRequest_update hash hreset rfl htok hpolicy,
    doUpdate_negative hash hpolicy haccept hneg] at hp
  cases hp

end

/-- After an update line that is accepted, as many bytes are received or discarded as the text of
its length says, if and only if that number is in range. -/
theorem declared_length_honoured_iff (hash : List UInt8 → ℕ) (s : Session) (hs : s.Inv hash False)
    (hstate : s.state = .kNewCommand) (line : List UInt8) {command key : Token}
    {args : List Token} {policy : UpdatePolicy} {fields : Fields}
    (htok : tokens (stripNoreply line).2 = command :: key :: args)
    (hpolicy : policyOf command = some policy)
    (haccept : readFields policy key args = some fields) :
    ∃ count N, args[2]? = some count ∧ integerOf count = some N ∧
      (s.Honours hash line N ↔ InRange N) := by
  have hreset := hs.isReset hstate
  have hargs : ∀ t ∈ args, t ≠ [] := by
    intro t ht
    have htoken : t ∈ tokens (stripNoreply line).2 := by
      rw [htok]
      exact List.mem_cons_of_mem _ (List.mem_cons_of_mem _ ht)
    exact ((words_tokens _).mem htoken).1
  obtain ⟨count, N, hcount, hN, hbytes⟩ := bytes_of_readFields hargs haccept
  refine ⟨count, N, hcount, hN, ?_⟩
  rcases lt_or_ge fields.bytes 0 with hneg | hlow
  · exact iff_of_false (not_honours_of_negative hreset htok hpolicy haccept hneg)
      (not_inRange_of_negative hbytes hneg)
  rcases lt_or_ge (1024 * 1024) fields.bytes with hlarge | hsmall
  · exact (honours_of_large hs hstate htok hpolicy haccept hlarge).trans
      (inRange_of_large hbytes hlarge)
  · exact (honours_of_small hreset htok hpolicy haccept hlow hsmall).trans
      (inRange_of_small hbytes hlow hsmall)

/-- A length of one byte. -/
theorem declared_length_honoured_iff_one :
    Yields (makeSession ⟨0, fun _ => .empty, 0, 0⟩) fun s =>
      s.Honours List.length (ascii "set k 0 0 1") 1 := by
  obtain ⟨s, hs, hinv, hpending⟩ : Yields (makeSession ⟨0, fun _ => .empty, 0, 0⟩) fun s =>
    s.Inv List.length False ∧ s.pending = 0 := makeSession_inv nofun
  have hstate := hinv.state_of_pending hpending
  have htok : tokens (stripNoreply (ascii "set k 0 0 1")).2 =
      [ascii "set", ascii "k", ascii "0", ascii "0", ascii "1"] := by decide +kernel
  have hbytes : (readFields .kSet (ascii "k") [ascii "0", ascii "0", ascii "1"]).map Fields.bytes =
      some 1 := by decide +kernel
  obtain ⟨fields, haccept, -⟩ := Option.map_eq_some_iff.mp hbytes
  obtain ⟨count, N, hcount, hN, hiff⟩ :=
    declared_length_honoured_iff List.length s hinv hstate (ascii "set k 0 0 1") htok rfl haccept
  cases hcount
  have hone : integerOf (ascii "1") = some 1 := by decide +kernel
  cases hone.symm.trans hN
  exact ⟨s, hs, hiff.mpr (.inl ⟨by decide, by decide⟩)⟩

/-- A length of `2 ^ 32` is cast to zero, and the item has room for the CRLF alone. -/
theorem wrapped_length_not_honoured :
    Yields (makeSession ⟨0, fun _ => .empty, 0, 0⟩) fun s =>
      integerOf (ascii "4294967296") = some 4294967296 ∧
      (Yields (s.processRequest List.length (ascii "set k 0 0 4294967296")) fun p =>
        p.2.Receives List.length 2) ∧
      ¬ s.Honours List.length (ascii "set k 0 0 4294967296") 4294967296 := by
  obtain ⟨s, hs, -, -, hreset, -⟩ := makeSession_spec ⟨0, fun _ => .empty, 0, 0⟩
  have htok : tokens (stripNoreply (ascii "set k 0 0 4294967296")).2 =
      [ascii "set", ascii "k", ascii "0", ascii "0", ascii "4294967296"] := by decide +kernel
  have hbytes : (readFields .kSet (ascii "k") [ascii "0", ascii "0", ascii "4294967296"]).map
      Fields.bytes = some 0 := by decide +kernel
  obtain ⟨fields, haccept, hzero⟩ := Option.map_eq_some_iff.mp hbytes
  have hhonours : ∀ N, s.Honours List.length (ascii "set k 0 0 4294967296") N ↔ _ := fun N =>
    honours_of_small hreset htok rfl haccept (by omega) (by omega)
  refine ⟨s, hs, by decide +kernel, ?_, ?_⟩
  · obtain ⟨-, p, hp, -, h⟩ := (hhonours 0).mpr ⟨by decide, by decide, by rw [hzero]⟩
    rcases h with ⟨hN, -⟩ | ⟨-, hreceives⟩
    · exact absurd hN (by decide)
    · exact ⟨p, hp, hreceives⟩
  · intro h
    exact absurd ((hhonours _).mp h).2.1 (by decide)

end Session

end Muduo.Memcached

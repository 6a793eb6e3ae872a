import Muduo.Machine.Stream
import Muduo.Memcached.Session

/-!
# Sessions and segmentation

A session reads lines, values and discarded values from one stream of bytes, and it does not matter
how the stream is cut into the chunks in which it arrives, as long as no line is longer than what
the session waits for.

## Main results

* `segmentation_irrelevant`: two ways of cutting a stream leave the same session, the same store and
  the same bytes sent.
-/

namespace Muduo.Memcached

open Machine Item

/-! ### The lines of a stream -/

/-- The bytes of the value that follows a command. -/
def updateBytes (command : Token) (beg : List Token) : ℕ :=
  match policyOf command, beg with
  | some policy, key :: rest =>
    (readFields policy key rest).elim 0 fun fields => (fields.bytes + 2).toNat
  | _, _ => 0

/-- The bytes of the value that follows a request. -/
def valueBytes (request : List UInt8) : ℕ :=
  match tokens (stripNoreply request).2 with
  | [] => 0
  | command :: beg => updateBytes command beg

/-- The command lines of a stream, where `line` has been read of the first one or `skip` bytes of a
value come before it. -/
def commandLines : List UInt8 → ℕ → List UInt8 → List (List UInt8)
  | _, _, [] => []
  | line, skip + 1, _ :: bs => commandLines line skip bs
  | line, 0, b :: bs =>
    if b = 10 ∧ line.getLast? = some 13 then
      line.dropLast :: commandLines [] (valueBytes line.dropLast) bs
    else
      commandLines (line ++ [b]) 0 bs

/-- What an update has to carry: a key and, if its numbers can be read at all, a byte count that
leaves room for CRLF in an `int`. -/
def UpdateOk : Option UpdatePolicy → List Token → Prop
  | none, _ => True
  | some _, [] => False
  | some policy, key :: rest => ∀ fields ∈ readFields policy key rest,
    0 ≤ fields.bytes ∧ fields.bytes ≤ 2 ^ 31 - 3

instance : ∀ policy beg, Decidable (UpdateOk policy beg)
  | none, _ => inferInstanceAs (Decidable True)
  | some _, [] => inferInstanceAs (Decidable False)
  | some policy, key :: rest =>
    inferInstanceAs (Decidable (∀ fields ∈ readFields policy key rest,
      0 ≤ fields.bytes ∧ fields.bytes ≤ 2 ^ 31 - 3))

/-- A delete has to carry a key, too. -/
def CommandOk : List Token → Prop
  | [] => True
  | command :: beg =>
    (command = ascii "delete" → beg ≠ []) ∧ UpdateOk (policyOf command) beg

instance : ∀ toks, Decidable (CommandOk toks)
  | [] => inferInstanceAs (Decidable True)
  | _ :: _ => inferInstanceAs (Decidable (_ ∧ _))

/-- The line is not longer than what a session waits for, and its command carries what it has to. -/
def LineOk (line : List UInt8) : Prop :=
  line.length ≤ 1023 ∧ CommandOk (tokens (stripNoreply line).2)

instance : DecidablePred LineOk := fun _ => inferInstanceAs (Decidable (_ ∧ _))

section

variable {x y line : List UInt8} {c n : ℕ}

lemma commandLines_skip (n : ℕ) (x : List UInt8) :
    commandLines line n x = commandLines line 0 (x.drop n) := by
  induction x generalizing n with
  | nil => cases n <;> simp [commandLines]
  | cons b bs ih =>
    cases n with
    | zero => rfl
    | succ n => rw [commandLines, ih, List.drop_succ_cons]

/-- The first line ends at the first CRLF. -/
lemma commandLines_of_findCRLF (h : findCRLF x = some c)
    (hline : ¬ (line.getLast? = some 13 ∧ x.head? = some 10)) :
    commandLines line 0 (x ++ y) = (line ++ x.take c) ::
      commandLines [] (valueBytes (line ++ x.take c)) (x.drop (c + 2) ++ y) := by
  induction x generalizing c line with
  | nil => cases h
  | cons b bs ih =>
    have hb : ¬ (b = 10 ∧ line.getLast? = some 13) := by
      rintro ⟨rfl, hlast⟩
      exact hline ⟨hlast, rfl⟩
    rw [List.cons_append, commandLines, if_neg hb]
    rw [findCRLF_cons] at h
    split at h
    · next hcrlf =>
      cases h
      obtain ⟨rfl, hhead⟩ := hcrlf
      obtain ⟨bs', rfl⟩ := List.head?_eq_some_iff.mp hhead
      rw [List.cons_append, commandLines, if_pos (by simp)]
      simp
    · next hcrlf =>
      obtain ⟨c', hc', rfl⟩ := Option.map_eq_some_iff.mp h
      rw [ih hc' (by simpa using hcrlf)]
      simp

/-- More bytes add lines at the end. -/
lemma mem_commandLines_append {l : List UInt8} (y : List UInt8) (h : l ∈ commandLines line n x) :
    l ∈ commandLines line n (x ++ y) := by
  induction x generalizing line n with
  | nil => cases h
  | cons b bs ih =>
    cases n with
    | succ n => exact ih h
    | zero =>
      rw [List.cons_append, commandLines]
      rw [commandLines] at h
      split at h
      · next hb =>
        rw [if_pos hb]
        rcases List.mem_cons.mp h with rfl | h
        · exact List.mem_cons_self ..
        · exact List.mem_cons_of_mem _ (ih h)
      · next hb =>
        rw [if_neg hb]
        exact ih h

end

/-! ### Updates that may fail -/

/-- The assertions that an append or a prepend fails when the new item outgrows an `int`. -/
def Outgrown (a : Fault) : Prop := a = .itemValueLen ∨ a = .itemTotalLen

section

variable {hash : List UInt8 → ℕ} {server : MemcacheServer} {item oldItem : Item}
  {policy : UpdatePolicy} {cas : ℕ}

lemma concatenate_outgrown
    (hge : 2 ^ 31 ≤ item.key.length + (item.valuelen + oldItem.valuelen - 2)) :
    ∃ a, Outgrown a ∧ concatenate item oldItem policy cas = .error (.failed a) := by
  rcases Nat.lt_or_ge (item.valuelen + oldItem.valuelen - 2) (2 ^ 31) with hlt | hle
  · exact ⟨_, .inr rfl, concatenate_overflows hlt hge⟩
  · -- the sum of the lengths is negative as an `int`
    refine ⟨_, .inl rfl, ?_⟩
    have hi := item.total_lt
    have ho := oldItem.total_lt
    have hlen : Int.bmod (item.valuelen + oldItem.valuelen - 2) (2 ^ 32) < 2 := by
      rw [Int.bmod_def]
      split <;> omega
    unfold concatenate
    dsimp only
    rw [makeItem, dif_neg (by omega)]
    rfl

lemma update_upTo {old : Option Item} (hitem : item.endsWithCRLF = true)
    (hpolicy : policy ≠ .kInvalid) (hold : ∀ oldItem ∈ old, oldItem.endsWithCRLF = true) :
    SafeUpTo Outgrown (update item policy old cas) fun new =>
      ∀ a ∈ new, a.endsWithCRLF = true := by
  by_cases hfit : ∀ oldItem ∈ old, (policy = .kAppend ∨ policy = .kPrepend) →
      item.key.length + (item.valuelen + oldItem.valuelen - 2) < 2 ^ 31
  · have hspec := update_spec cas hitem hpolicy fun o ho => ⟨hold o ho, hfit o ho⟩
    exact hspec.safeUpTo.mono fun new hnew a ha => (hnew.2 a ha).2.2
  · push Not at hfit
    obtain ⟨oldItem, rfl, hp, hge⟩ := hfit
    have hconcat : ∀ p, SafeUpTo Outgrown (some <$> concatenate item oldItem p cas) fun new =>
        ∀ a ∈ new, a.endsWithCRLF = true := by
      intro p
      obtain ⟨a, ha, h⟩ : ∃ a, Outgrown a ∧ concatenate item oldItem p cas = .error (.failed a) :=
        concatenate_outgrown hge
      rw [h]
      exact ha
    rcases hp with rfl | rfl
    · exact hconcat .kAppend
    · exact hconcat .kPrepend

lemma storeItem_upTo (hterm : Terminated hash server) (hitem : item.endsWithCRLF = true)
    (hpolicy : policy ≠ .kInvalid) :
    SafeUpTo Outgrown (server.storeItem hash item policy) fun p => Terminated hash p.2.2 := by
  have hneeded : item.neededBytes = 0 := neededBytes_eq_zero.mpr (endsWithCRLF_iff.mp hitem).1
  rw [MemcacheServer.storeItem_eq, check_of hneeded, ok_bind, safeUpTo_bind]
  refine (update_upTo hitem hpolicy (hterm item.key)).mono fun new hnew => ?_
  cases new with
  | none => exact hterm
  | some a => exact hterm.put (hnew a rfl)

end

/-! ### What a session waits for -/

namespace Session

variable {hash : List UInt8 → ℕ} {T : Prop} {s s' : Session} {x y buf : List UInt8}

/-- The bytes of a value that are still to come. -/
def pending (s : Session) : ℕ :=
  match s.state with
  | .kNewCommand => 0
  | .kReceiveValue => s.currItem.elim 0 neededBytes
  | .kDiscardValue => s.bytesToDiscard

lemma pending_of_new (hstate : s.state = .kNewCommand) : s.pending = 0 := by
  rw [pending, hstate]

lemma pending_of_receiving {item : Item} (hstate : s.state = .kReceiveValue)
    (hitem : s.currItem = some item) : s.pending = item.neededBytes := by
  rw [pending, hstate]
  dsimp only
  rw [hitem]
  rfl

lemma pending_of_discarding (hstate : s.state = .kDiscardValue) : s.pending = s.bytesToDiscard := by
  rw [pending, hstate]

/-- What holds of the store and the needle at all times. The store is only looked at where `T`
holds. -/
structure Rest (hash : List UInt8 → ℕ) (T : Prop) (s : Session) : Prop where
  terminated : T → Terminated hash s.owner
  needle : s.needle.valuelen = 2

/-- What holds between two rounds of the loop. -/
structure Inv (hash : List UInt8 → ℕ) (T : Prop) (s : Session) : Prop where
  rest : s.Rest hash T
  fields : match s.state with
    | .kNewCommand => s.IsReset
    | .kReceiveValue => s.policy ≠ .kInvalid ∧ ∃ item, s.currItem = some item ∧ 0 < item.neededBytes
    | .kDiscardValue => s.currItem = none ∧ 0 < s.bytesToDiscard

@[simp] lemma state_reply (msg : List UInt8) : (s.reply msg).state = s.state := by
  unfold reply
  split <;> rfl

lemma currItem_reply (msg : List UInt8) : (s.reply msg).currItem = s.currItem := by
  unfold reply
  split <;> rfl

lemma Rest.reply (h : s.Rest hash T) (msg : List UInt8) : (s.reply msg).Rest hash T := by
  unfold Session.reply
  split
  · exact h
  · exact ⟨h.terminated, h.needle⟩

lemma Rest.setNoreply (h : s.Rest hash T) (noreply : Bool) :
    (s.setNoreply noreply).Rest hash T := by
  cases noreply with
  | false => exact h
  | true => exact ⟨h.terminated, h.needle⟩

lemma state_setNoreply (noreply : Bool) : (s.setNoreply noreply).state = s.state := by
  cases noreply <;> rfl

lemma currItem_setNoreply (noreply : Bool) : (s.setNoreply noreply).currItem = s.currItem := by
  cases noreply <;> rfl

/-- A request that is finished. -/
lemma Rest.inv_resetRequest (h : s.Rest hash T) (hstate : s.state = .kNewCommand) :
    s.resetRequest.Inv hash T := by
  refine ⟨⟨h.terminated, h.needle⟩, ?_⟩
  change match s.state with | .kNewCommand => _ | .kReceiveValue => _ | .kDiscardValue => _
  rw [hstate]
  exact ⟨rfl, rfl, rfl, rfl, rfl⟩

lemma resetKey_spec {needle : Item} {key : Token} (h : needle.valuelen = 2)
    (hkey : key.length ≤ kLongestKeySize) :
    Yields (needle.resetKey key) fun n => n.key = key ∧ n.valuelen = 2 := by
  unfold kLongestKeySize at hkey
  have htotal : key.length + needle.valuelen < 2 ^ 31 := by omega
  rw [resetKey, dif_pos hkey, dif_pos htotal]
  exact ⟨_, rfl, List.take_length, h⟩

/-- The text that a get puts out for the keys, in their order. -/
def blocks (hash : List UInt8 → ℕ) (cas : Bool) (server : MemcacheServer) (keys : List Token) :
    List UInt8 :=
  keys.flatMap fun key => (server.lookup hash key).elim [] (·.output cas)

/-- A key that is too long ends the loop, and the text of the keys before it stays behind. -/
lemma outputItems_eq (hneedle : s.needle.valuelen = 2) (cas : Bool) (keys : List Token) :
    ∃ needle, needle.valuelen = 2 ∧ outputItems hash cas s keys =
      .ok (if ∀ key ∈ keys, key.length ≤ kLongestKeySize then
        (true, { s with needle, outputBuf := s.outputBuf ++ blocks hash cas s.owner keys })
      else
        (false, { s with
          needle
          outputBuf := s.outputBuf ++ blocks hash cas s.owner
            (keys.takeWhile (·.length ≤ kLongestKeySize)) }.reply badFormat)) := by
  induction keys generalizing s with
  | nil =>
    refine ⟨s.needle, hneedle, ?_⟩
    rw [outputItems, if_pos nofun, blocks, List.flatMap_nil, List.append_nil]
    rfl
  | cons key rest ih =>
    rw [outputItems]
    by_cases hkey : key.length ≤ kLongestKeySize
    · obtain ⟨needle, hreset, hnkey, hlen⟩ := resetKey_spec hneedle hkey
      have hget : s.owner.getItem hash needle = s.owner.lookup hash key := by
        rw [MemcacheServer.getItem_eq, hnkey]
      obtain ⟨needle', hlen', h⟩ := ih (s := { s with
        needle
        outputBuf := s.outputBuf ++ (s.owner.lookup hash key).elim [] (·.output cas) }) hlen
      refine ⟨needle', hlen', ?_⟩
      rw [if_pos hkey, hreset, ok_bind]
      dsimp only
      rw [hget, h, List.takeWhile_cons_of_pos (by simpa using hkey)]
      simp only [blocks, List.flatMap_cons, List.append_assoc, List.forall_mem_cons, hkey,
        true_and]
    · refine ⟨s.needle, hneedle, ?_⟩
      rw [if_neg hkey, if_neg fun h => hkey (h key (List.mem_cons_self ..)),
        List.takeWhile_cons_of_neg (by simpa using hkey), blocks, List.flatMap_nil,
        List.append_nil]
      rfl

lemma doGet_eq (hneedle : s.needle.valuelen = 2) (cas : Bool) (keys : List Token) :
    ∃ needle, needle.valuelen = 2 ∧ s.doGet hash cas keys =
      .ok (if ∀ key ∈ keys, key.length ≤ kLongestKeySize then
        { s with
          needle
          outputBuf := s.outputBuf ++ blocks hash cas s.owner keys ++ ascii "END\r\n" }.sendOutput
      else
        { s with
          needle
          outputBuf := s.outputBuf ++ blocks hash cas s.owner
            (keys.takeWhile (·.length ≤ kLongestKeySize)) }.reply badFormat) := by
  obtain ⟨needle, hlen, h⟩ := outputItems_eq hneedle cas keys
  refine ⟨needle, hlen, ?_⟩
  rw [doGet, h, ok_bind]
  by_cases hkeys : ∀ key ∈ keys, key.length ≤ kLongestKeySize
  · rw [if_pos hkeys, if_pos hkeys]
    rfl
  · rw [if_neg hkeys, if_neg hkeys]
    rfl

/-- What is sent when the output buffer is handed to a connection that is up. -/
lemma sent_sendOutput (h : s.conn.connected = true) :
    s.sendOutput.conn.sent = s.conn.sent ++ s.outputBuf := by
  rw [sendOutput, if_pos h, Conn.send, if_pos h]

/-- What is sent for good keys while the connection is up. -/
lemma doGet_sent {keys : List Token} (hneedle : s.needle.valuelen = 2)
    (hkeys : ∀ key ∈ keys, key.length ≤ kLongestKeySize) (hconn : s.conn.connected = true)
    (cas : Bool) : Yields (s.doGet hash cas keys) fun s' => s'.conn.sent =
      s.conn.sent ++ (s.outputBuf ++ blocks hash cas s.owner keys ++ ascii "END\r\n") := by
  obtain ⟨needle, -, hs'⟩ := doGet_eq hneedle cas keys
  rw [if_pos hkeys] at hs'
  exact ⟨_, hs', sent_sendOutput hconn⟩

lemma doGet_spec (h : s.Rest hash T) (cas : Bool) (keys : List Token) :
    Yields (s.doGet hash cas keys) fun s' => s'.Rest hash T ∧ s'.state = s.state := by
  obtain ⟨needle, hlen, hs'⟩ := doGet_eq h.needle cas keys
  have hrest : ∀ outputBuf, Rest hash T { s with needle, outputBuf } :=
    fun _ => ⟨h.terminated, hlen⟩
  refine ⟨_, hs', ?_⟩
  split
  · unfold sendOutput
    split
    · exact ⟨⟨h.terminated, hlen⟩, rfl⟩
    · exact ⟨hrest _, rfl⟩
  · exact ⟨(hrest _).reply _, state_reply _⟩

lemma doDelete_spec (h : s.Rest hash T) {beg : List Token} (hbeg : beg ≠ []) :
    Yields (s.doDelete hash beg) fun s' => s'.Rest hash T ∧ s'.state = s.state := by
  obtain ⟨key, rest, rfl⟩ := List.exists_cons_of_ne_nil hbeg
  rw [doDelete]
  split
  · next hkey =>
    split
    · exact ⟨_, rfl, h.reply _, state_reply _⟩
    · obtain ⟨needle, hneedle, -, hlen⟩ := resetKey_spec h.needle hkey
      rw [hneedle]
      refine ⟨_, rfl, ?_, state_reply _⟩
      exact Rest.reply ⟨fun ht => (h.terminated ht).deleteItem needle, hlen⟩ _
  · exact ⟨_, rfl, h.reply _, state_reply _⟩

lemma policyOf_ne_kInvalid {command : Token} {policy : UpdatePolicy}
    (h : policyOf command = some policy) : policy ≠ .kInvalid := by
  unfold policyOf at h
  rintro rfl
  split_ifs at h <;> cases h

lemma length_of_readFields {policy : UpdatePolicy} {key : Token} {r : List Token} {fields : Fields}
    (h : readFields policy key r = some fields) : key.length ≤ kLongestKeySize := by
  by_contra hkey
  simp [readFields, hkey] at h

/-- The three numbers after the key, of which the third one is the length. -/
lemma readFields_eq_some {policy : UpdatePolicy} {key : Token} {r : List Token} {fields : Fields}
    (h : readFields policy key r = some fields) : ∃ x₁ r₁ x₂ r₂ x₃ r₃, read r = some (x₁, r₁) ∧
      read r₁ = some (x₂, r₂) ∧ read r₂ = some (x₃, r₃) ∧ fields.bytes = toInt x₃ := by
  simp only [readFields, Option.bind_eq_bind, Option.bind_eq_some_iff, Prod.exists] at h
  obtain ⟨-, -, x₁, r₁, h₁, x₂, r₂, h₂, x₃, r₃, h₃, hfields⟩ := h
  refine ⟨x₁, r₁, x₂, r₂, x₃, r₃, h₁, h₂, h₃, ?_⟩
  have hsome : ∀ cas, some (Fields.mk (UInt32.ofNat x₁) (toTime x₂) (toInt x₃) cas) = some fields →
      fields.bytes = toInt x₃ := by
    intro cas h
    rw [← Option.some.inj h]
  split at hfields
  · obtain ⟨cas, -, heq⟩ := Option.bind_eq_some_iff.mp hfields
    exact hsome cas heq
  · exact hsome 0 hfields

/-- The bytes to discard, as the code computes them. -/
lemma bytesToDiscard_eq {bytes : ℤ} (hlow : 0 ≤ bytes) (hhigh : bytes ≤ 2 ^ 31 - 3) :
    (Int.bmod (bytes + 2) (2 ^ 32) % 2 ^ 64).toNat = (bytes + 2).toNat := by
  rw [Int.bmod_eq_of_le (by norm_num; omega) (by norm_num; omega)]
  omega

section

variable {policy : UpdatePolicy} {key : Token} {rest : List Token} {fields : Fields}

/-- A length that is negative as an `int`. -/
lemma doUpdate_negative (hash : List UInt8 → ℕ) (hpolicy : policyOf s.command = some policy)
    (hfields : readFields policy key rest = some fields) (hneg : fields.bytes < 0) :
    s.doUpdate hash (key :: rest) = .error (.failed .itemValueLen) := by
  unfold doUpdate
  rw [hpolicy]
  dsimp only
  rw [hfields]
  dsimp only
  rw [if_neg (by omega), makeItem, dif_neg (by omega)]
  rfl

/-- A value that the cache accepts. -/
lemma doUpdate_small (hash : List UInt8 → ℕ) (hpolicy : policyOf s.command = some policy)
    (hfields : readFields policy key rest = some fields) (hlow : 0 ≤ fields.bytes)
    (hhigh : fields.bytes ≤ 1024 * 1024) :
    ∃ item, item.Fresh key fields.flags (relExptimeOf s.owner.startTime fields.exptime)
        (fields.bytes + 2) fields.cas ∧
      s.doUpdate hash (key :: rest) =
        .ok (false, { s with policy, currItem := some item, state := .kReceiveValue }) := by
  have hkey := length_of_readFields hfields
  unfold kLongestKeySize at hkey
  obtain ⟨item, hmake, hfresh⟩ : Yields (makeItem key fields.flags
      (relExptimeOf s.owner.startTime fields.exptime) (fields.bytes + 2) fields.cas) _ :=
    makeItem_spec (by omega) (by omega)
  refine ⟨item, hfresh, ?_⟩
  unfold doUpdate
  rw [hpolicy]
  dsimp only
  rw [hfields]
  dsimp only
  rw [if_neg (by omega), hmake]
  rfl

/-- A value that is too large for the cache. -/
lemma doUpdate_large (hash : List UInt8 → ℕ) (hneedle : s.needle.valuelen = 2)
    (hpolicy : policyOf s.command = some policy)
    (hfields : readFields policy key rest = some fields) (hlarge : 1024 * 1024 < fields.bytes) :
    ∃ needle, needle.key = key ∧ needle.valuelen = 2 ∧ s.doUpdate hash (key :: rest) =
      .ok (false, { s.reply (ascii "SERVER_ERROR object too large for cache\r\n") with
        policy
        needle
        owner := (s.owner.deleteItem hash needle).2
        bytesToDiscard := (Int.bmod (fields.bytes + 2) (2 ^ 32) % 2 ^ 64).toNat
        state := .kDiscardValue }) := by
  obtain ⟨needle, hreset, hkey, hlen⟩ := resetKey_spec hneedle (length_of_readFields hfields)
  refine ⟨needle, hkey, hlen, ?_⟩
  unfold doUpdate
  rw [hpolicy]
  dsimp only
  rw [hfields]
  dsimp only
  rw [if_pos hlarge]
  unfold reply
  split
  · dsimp only
    rw [hreset]
    rfl
  · dsimp only
    rw [hreset]
    rfl

lemma doUpdate_spec (h : s.Rest hash T) (hitem : s.currItem = none)
    (hpolicy : policyOf s.command = some policy)
    (hbytes : ∀ fields, readFields policy key rest = some fields →
      0 ≤ fields.bytes ∧ fields.bytes ≤ 2 ^ 31 - 3) :
    Yields (s.doUpdate hash (key :: rest)) fun p =>
      p.1 = true ∧ p.2.Rest hash T ∧ p.2.state = s.state ∧ readFields policy key rest = none ∨
      p.1 = false ∧ p.2.Inv hash T ∧
        ∃ fields, readFields policy key rest = some fields ∧
          p.2.pending = (fields.bytes + 2).toNat := by
  cases hfields : readFields policy key rest with
  | none =>
    have hrest : Rest hash T { s with policy } := ⟨h.terminated, h.needle⟩
    refine ⟨(true, { s with policy }.reply badFormat), ?_, .inl ⟨rfl, hrest.reply _, state_reply _,
      rfl⟩⟩
    unfold doUpdate
    rw [hpolicy]
    dsimp only
    rw [hfields]
    rfl
  | some fields =>
    obtain ⟨hlow, hhigh⟩ := hbytes fields hfields
    rcases lt_or_ge (1024 * 1024) fields.bytes with hlarge | hsmall
    · obtain ⟨needle, -, hlen, hs'⟩ := doUpdate_large hash h.needle hpolicy hfields hlarge
      have hdiscard := bytesToDiscard_eq hlow hhigh
      have hpos : 0 < (fields.bytes + 2).toNat := by omega
      have hterm := fun ht => (h.terminated ht).deleteItem needle
      exact ⟨_, hs', .inr ⟨rfl, ⟨⟨hterm, hlen⟩, (currItem_reply _).trans hitem,
        hpos.trans_eq hdiscard.symm⟩, fields, rfl, hdiscard⟩⟩
    · obtain ⟨item, hfresh, hs'⟩ := doUpdate_small hash hpolicy hfields hlow hsmall
      have hneeded : item.neededBytes = (fields.bytes + 2).toNat := by
        have := hfresh.valuelen
        rw [neededBytes_eq, hfresh.value, List.length_nil]
        omega
      refine ⟨_, hs', .inr ⟨rfl, ⟨⟨h.terminated, h.needle⟩, policyOf_ne_kInvalid hpolicy, item, rfl,
        ?_⟩, fields, rfl, hneeded⟩⟩
      rw [hneeded]
      omega

end

/-- A request that is finished leaves a session that waits for the next one. -/
lemma Rest.finished (h : s'.Rest hash T) (hstate : s'.state = .kNewCommand) :
    s'.resetRequest.Inv hash T ∧ s'.resetRequest.pending = 0 := by
  exact ⟨h.inv_resetRequest hstate, pending_of_new hstate⟩

/-- The session after a request, as the loop goes on with it. -/
def next (p : Bool × Session) : Session := if p.1 then p.2.resetRequest else p.2

lemma dispatch_spec (h : s.Rest hash T) (hitem : s.currItem = none)
    (hstate : s.state = .kNewCommand)
    {beg : List Token} (hok : CommandOk (s.command :: beg)) :
    Yields (s.dispatch hash beg) fun p =>
      (next p).Inv hash T ∧ (next p).pending = updateBytes s.command beg := by
  unfold dispatch
  cases hpolicy : policyOf s.command with
  | some policy =>
    have hupdate := hok.2
    rw [hpolicy] at hupdate
    obtain ⟨key, rest, rfl⟩ : ∃ key rest, beg = key :: rest := by
      cases beg with
      | nil => exact hupdate.elim
      | cons key rest => exact ⟨key, rest, rfl⟩
    have hbytes : ∀ fields, readFields policy key rest = some fields →
        0 ≤ fields.bytes ∧ fields.bytes ≤ 2 ^ 31 - 3 := hupdate
    rw [Option.isSome_some, if_pos rfl]
    obtain ⟨⟨finished, s'⟩, hs', hcases⟩ := doUpdate_spec h hitem hpolicy hbytes
    refine ⟨_, hs', ?_⟩
    have hvalue : updateBytes s.command (key :: rest) =
        (readFields policy key rest).elim 0 fun fields => (fields.bytes + 2).toNat := by
      unfold updateBytes
      rw [hpolicy]
    rw [hvalue]
    rcases hcases with ⟨rfl, hrest, hst, hnone⟩ | ⟨rfl, hinv, fields, hfields, hpending⟩
    · rw [hnone]
      exact hrest.finished (hst.trans hstate)
    · rw [hfields]
      exact ⟨hinv, hpending⟩
  | none =>
    have hvalue : updateBytes s.command beg = 0 := by
      unfold updateBytes
      rw [hpolicy]
    -- every other command finishes its request
    have hfinish : ∀ {x : Code Session}, (Yields x fun s' => s'.Rest hash T ∧ s'.state = s.state) →
        Yields ((true, ·) <$> x) fun p =>
          (next p).Inv hash T ∧ (next p).pending = updateBytes s.command beg := by
      rintro x ⟨s', rfl, hrest, hst⟩
      exact ⟨(true, s'), rfl, hvalue ▸ hrest.finished (hst.trans hstate)⟩
    have hreply : ∀ msg, Yields (pure (true, s.reply msg) : Code (Bool × Session)) fun p =>
        (next p).Inv hash T ∧ (next p).pending = updateBytes s.command beg :=
      fun msg => hfinish ⟨_, rfl, h.reply msg, state_reply msg⟩
    rw [if_neg (by simp)]
    split
    · exact hfinish (doGet_spec h _ beg)
    split
    · next hdelete => exact hfinish (doDelete_spec h (hok.1 hdelete))
    split
    · exact hreply _
    split
    · exact hfinish ⟨s.shutdown, rfl, ⟨h.terminated, h.needle⟩, rfl⟩
    split
    · exact hfinish ⟨{ s.shutdown with owner := s.owner.stop }, rfl, ⟨h.terminated, h.needle⟩, rfl⟩
    · exact hreply _

lemma Inv.isReset (h : s.Inv hash T) (hstate : s.state = .kNewCommand) : s.IsReset := by
  have := h.fields
  rwa [hstate] at this

/-- A line with tokens is its command. -/
lemma processRequest_command {request : List UInt8} {noreply : Bool} {request' : List UInt8}
    {command : Token} {beg : List Token} (hash : List UInt8 → ℕ) (hreset : s.IsReset)
    (hstrip : stripNoreply request = (noreply, request'))
    (htok : tokens request' = command :: beg) :
    s.processRequest hash request = dispatch hash { s.setNoreply noreply with command } beg := by
  unfold processRequest
  rw [check_of hreset, ok_bind, hstrip]
  dsimp only
  rw [htok]

lemma processRequest_update {request : List UInt8} {noreply : Bool} {request' : List UInt8}
    {command : Token} {beg : List Token} {policy : UpdatePolicy} (hash : List UInt8 → ℕ)
    (hreset : s.IsReset) (hstrip : stripNoreply request = (noreply, request'))
    (htok : tokens request' = command :: beg) (hpolicy : policyOf command = some policy) :
    s.processRequest hash request = doUpdate hash { s.setNoreply noreply with command } beg := by
  rw [processRequest_command hash hreset hstrip htok, dispatch, hpolicy]
  rfl

lemma processRequest_spec (h : s.Inv hash T) (hstate : s.state = .kNewCommand)
    {request : List UInt8} (hrequest : CommandOk (tokens (stripNoreply request).2)) :
    Yields (s.processRequest hash request) fun p =>
      (next p).Inv hash T ∧ (next p).pending = valueBytes request := by
  have hreset := h.isReset hstate
  have hitem : s.currItem = none := Option.isNone_iff_eq_none.mp hreset.2.2.2.1
  unfold processRequest
  rw [check_of hreset, ok_bind]
  unfold valueBytes
  rcases hstrip : stripNoreply request with ⟨noreply, request'⟩
  rw [hstrip] at hrequest
  have hrest := h.rest.setNoreply noreply
  have hst := (state_setNoreply noreply).trans hstate
  have hcurr := (currItem_setNoreply noreply).trans hitem
  dsimp only at hrequest ⊢
  cases htok : tokens request' with
  | nil =>
    refine ⟨_, rfl, ?_⟩
    exact (hrest.reply _).finished ((state_reply _).trans hst)
  | cons command beg =>
    rw [htok] at hrequest
    have hrest' : Rest hash T { s.setNoreply noreply with command } :=
      ⟨hrest.terminated, hrest.needle⟩
    exact dispatch_spec hrest' hcurr hst hrequest

/-! ### Values -/

section

variable {item : Item}

lemma receiveValue_eq {item' : Item} (hstate : s.state = .kReceiveValue)
    (hitem : s.currItem = some item)
    (hitem' : item.append (buf.take (min buf.length item.neededBytes)) = .ok item') :
    s.receiveValue hash buf =
      if item'.neededBytes = 0 then (·, buf.drop (min buf.length item.neededBytes)) <$>
        finishValue hash { s with currItem := some item' } item'
      else .ok ({ s with currItem := some item' }, buf.drop (min buf.length item.neededBytes)) := by
  unfold receiveValue
  rw [hitem]
  dsimp only
  rw [check_of hstate, ok_bind, hitem', ok_bind]
  split <;> rfl

/-- Fewer bytes than the value still needs. -/
lemma receiveValue_of_lt (hash : List UInt8 → ℕ) (hstate : s.state = .kReceiveValue)
    (hitem : s.currItem = some item) (h : buf.length < item.neededBytes) :
    ∃ item', item.append buf = .ok item' ∧ item'.neededBytes = item.neededBytes - buf.length ∧
      s.receiveValue hash buf = .ok ({ s with currItem := some item' }, []) := by
  obtain ⟨item', hitem', hext⟩ := append_spec h.le
  have hneeded := hext.neededBytes
  refine ⟨item', hitem', hneeded, ?_⟩
  have hmin : min buf.length item.neededBytes = buf.length := min_eq_left h.le
  rw [receiveValue_eq hstate hitem (by rwa [hmin, List.take_length]), if_neg (by omega), hmin,
    List.drop_length]

/-- The bytes that the value still needs are there. -/
lemma receiveValue_of_le (hash : List UInt8 → ℕ) (hstate : s.state = .kReceiveValue)
    (hitem : s.currItem = some item) (h : item.neededBytes ≤ buf.length) :
    ∃ item', item.append (buf.take item.neededBytes) = .ok item' ∧ item'.neededBytes = 0 ∧
      s.receiveValue hash buf = (·, buf.drop item.neededBytes) <$>
        finishValue hash { s with currItem := some item' } item' := by
  have hlen : (buf.take item.neededBytes).length = item.neededBytes := List.length_take_of_le h
  obtain ⟨item', hitem', hext⟩ := append_spec hlen.le
  have hneeded : item'.neededBytes = 0 := by
    rw [hext.neededBytes, hlen]
    exact Nat.sub_self _
  refine ⟨item', hitem', hneeded, ?_⟩
  have hmin : min buf.length item.neededBytes = item.neededBytes := min_eq_right h
  rw [receiveValue_eq hstate hitem (by rwa [hmin]), if_pos hneeded, hmin]

lemma state_finishValue (h : s.finishValue hash item = .ok s') : s'.state = .kNewCommand := by
  rw [finishValue, bind_eq_ok] at h
  obtain ⟨s₁, -, h⟩ := h
  cases h
  rfl

/-- A value that comes in two parts. -/
lemma receiveValue_append (hash : List UInt8 → ℕ) (hstate : s.state = .kReceiveValue)
    (hitem : s.currItem = some item) (h : x.length < item.neededBytes) :
    ∃ s₁, s.receiveValue hash x = .ok (s₁, []) ∧ s₁.state = .kReceiveValue ∧
      ∀ y, s.receiveValue hash (x ++ y) = s₁.receiveValue hash y := by
  obtain ⟨item₁, h₁, hneeded₁, hreceive⟩ := receiveValue_of_lt hash hstate hitem h
  refine ⟨_, hreceive, hstate, fun y => ?_⟩
  have hmin : min (x ++ y).length item.neededBytes =
      x.length + min y.length item₁.neededBytes := by
    rw [List.length_append]
    omega
  have hroom : (x ++ y.take (min y.length item₁.neededBytes)).length ≤ item.neededBytes := by
    rw [List.length_append, List.length_take]
    omega
  obtain ⟨item₁', item₂, h₁', h₂, h₁₂⟩ := append_append hroom
  cases h₁.symm.trans h₁'
  rw [← List.take_length_add_append, ← hmin] at h₁₂
  rw [receiveValue_eq hstate hitem h₁₂, hmin, List.drop_length_add_append]
  exact (receiveValue_eq (s := { s with currItem := some item₁ }) hstate rfl h₂).symm

end

/-- Fewer bytes than are to be discarded. -/
lemma discardValue_of_lt (hstate : s.state = .kDiscardValue) (hitem : s.currItem = none)
    (h : buf.length < s.bytesToDiscard) : s.discardValue buf =
      .ok ({ s with bytesToDiscard := s.bytesToDiscard - buf.length }, []) := by
  have hnone : s.currItem.isNone = true := Option.isNone_iff_eq_none.mpr hitem
  rw [discardValue, check_of hnone, ok_bind, check_of hstate, ok_bind, if_pos h]
  rfl

/-- A value to discard that comes in two parts. -/
lemma discardValue_append (hstate : s.state = .kDiscardValue) (hitem : s.currItem = none)
    (h : x.length < s.bytesToDiscard) :
    ∃ s₁, s.discardValue x = .ok (s₁, []) ∧ s₁.state = .kDiscardValue ∧
      ∀ y, s.discardValue (x ++ y) = s₁.discardValue y := by
  have hnone : s.currItem.isNone = true := Option.isNone_iff_eq_none.mpr hitem
  refine ⟨_, discardValue_of_lt hstate hitem h, hstate, fun y => ?_⟩
  unfold discardValue
  simp only [check_of hnone, check_of hstate, ok_bind, List.length_append]
  by_cases hy : x.length + y.length < s.bytesToDiscard
  · rw [if_pos hy, if_pos (by omega), Nat.sub_sub]
  · have hdrop : (x ++ y).drop s.bytesToDiscard = y.drop (s.bytesToDiscard - x.length) := by
      rw [List.drop_append, List.drop_eq_nil_of_le h.le, List.nil_append]
    rw [if_neg hy, if_neg (by omega), hdrop]
    rfl

lemma discardValue_of_le (hstate : s.state = .kDiscardValue) (hitem : s.currItem = none)
    (h : s.bytesToDiscard ≤ buf.length) :
    s.discardValue buf =
      .ok ({ s.resetRequest with state := .kNewCommand }, buf.drop s.bytesToDiscard) := by
  have hnone : s.currItem.isNone = true := Option.isNone_iff_eq_none.mpr hitem
  rw [discardValue, check_of hnone, ok_bind, check_of hstate, ok_bind, if_neg (by omega)]
  rfl

/-! ### Rounds of the loop -/

section

variable {c : ℕ}

lemma round_nil (hash : List UInt8 → ℕ) (s : Session) : round hash (s, []) = .ok (.stop (s, [])) :=
  rfl

/-- The request that ends at index `c`. -/
def request (hash : List UInt8 → ℕ) (s : Session) (buf : List UInt8) (c : ℕ) :
    Code (Session × List UInt8) := do
  check .requestLength (c < 2 ^ 31)
  let p ← s.processRequest hash (buf.take c)
  return (next p, buf.drop (c + 2))

lemma round_request (hash : List UInt8 → ℕ) (hstate : s.state = .kNewCommand)
    (h : findCRLF buf = some c) : round hash (s, buf) = .again <$> request hash s buf c := by
  have hbuf : buf ≠ [] := by
    rintro rfl
    cases h
  rw [round, if_neg hbuf, hstate, readRequest, h, request]
  simp only [map_bind]
  rfl

lemma round_wait (hash : List UInt8 → ℕ) (hstate : s.state = .kNewCommand) (hbuf : buf ≠ [])
    (h : findCRLF buf = none) :
    round hash (s, buf) = .ok (.stop (if 1024 < buf.length then s.shutdown else s, buf)) := by
  rw [round, if_neg hbuf, hstate, readRequest, h]
  rfl

lemma round_receive (hash : List UInt8 → ℕ) (hstate : s.state = .kReceiveValue) (hbuf : buf ≠ []) :
    round hash (s, buf) = .again <$> s.receiveValue hash buf := by
  rw [round, if_neg hbuf, hstate]

lemma round_discard (hash : List UInt8 → ℕ) (hstate : s.state = .kDiscardValue) (hbuf : buf ≠ []) :
    round hash (s, buf) = .again <$> s.discardValue buf := by
  rw [round, if_neg hbuf, hstate]

/-- A value either uses up the buffer or comes to its end. -/
def Consumes (buf : List UInt8) (q : Session × List UInt8) : Prop :=
  q.2 = [] ∨ q.1.state = .kNewCommand ∧ q.2.length ≤ buf.length

lemma receiveValue_consumes {q : Session × List UInt8} (hstate : s.state = .kReceiveValue)
    (h : s.receiveValue hash buf = .ok q) : Consumes buf q := by
  cases hitem : s.currItem with
  | none =>
    unfold receiveValue at h
    rw [hitem] at h
    cases h
  | some item =>
    rcases Nat.lt_or_ge buf.length item.neededBytes with hlt | hle
    · obtain ⟨item', -, -, hr⟩ := receiveValue_of_lt hash hstate hitem hlt
      cases hr.symm.trans h
      exact .inl rfl
    · obtain ⟨item', -, -, hr⟩ := receiveValue_of_le hash hstate hitem hle
      rw [hr] at h
      obtain ⟨s₁, hfinish, rfl⟩ := map_eq_ok.mp h
      exact .inr ⟨state_finishValue hfinish, List.length_drop.trans_le (Nat.sub_le ..)⟩

lemma discardValue_consumes {q : Session × List UInt8} (h : s.discardValue buf = .ok q) :
    Consumes buf q := by
  simp only [discardValue, bind_eq_ok] at h
  obtain ⟨-, -, -, -, h⟩ := h
  split at h
  · cases h
    exact .inl rfl
  · cases h
    exact .inr ⟨rfl, List.length_drop.trans_le (Nat.sub_le ..)⟩

lemma measure_of_new (hstate : s.state = .kNewCommand) : measure (s, buf) = 2 * buf.length := by
  rw [measure, if_pos hstate, Nat.add_zero]

lemma measure_of_value (hstate : s.state ≠ .kNewCommand) :
    measure (s, buf) = 2 * buf.length + 1 := by
  rw [measure, if_neg hstate]

lemma measure_le (s : Session) (buf : List UInt8) : measure (s, buf) ≤ 2 * buf.length + 1 := by
  by_cases hstate : s.state = .kNewCommand
  · rw [measure_of_new hstate]
    exact Nat.le_succ _
  · rw [measure_of_value hstate]

lemma Consumes.measure_lt {q : Session × List UInt8} (h : Consumes buf q) (hbuf : buf ≠ [])
    (hstate : s.state ≠ .kNewCommand) : measure q < measure (s, buf) := by
  obtain ⟨s', buf'⟩ := q
  have hpos := List.length_pos_of_ne_nil hbuf
  rw [measure_of_value hstate]
  rcases h with h | ⟨hs', hlen⟩
  · have hle := measure_le s' buf'
    rw [show buf'.length = 0 from List.length_eq_zero_iff.mpr h] at hle
    omega
  · rw [measure_of_new hs']
    dsimp only at hlen
    omega

/-- Each round takes bytes from the buffer, or ends a value. -/
lemma measure_lt (p q : Session × List UInt8) (h : round hash p = .ok (.again q)) :
    measure q < measure p := by
  obtain ⟨s, buf⟩ := p
  by_cases hbuf : buf = []
  · subst hbuf
    cases h
  cases hstate : s.state with
  | kNewCommand =>
    cases hcrlf : findCRLF buf with
    | none =>
      rw [round_wait hash hstate hbuf hcrlf] at h
      cases h
    | some c =>
      have hlen := length_of_findCRLF hcrlf
      rw [round_request hash hstate hcrlf] at h
      simp only [request, map_eq_ok, bind_eq_ok] at h
      obtain ⟨_, ⟨-, -, p, -, hp⟩, h⟩ := h
      cases hp
      cases h
      have hle := measure_le (next p) (buf.drop (c + 2))
      rw [List.length_drop] at hle
      rw [measure_of_new hstate]
      omega
  | kReceiveValue =>
    rw [round_receive hash hstate hbuf] at h
    obtain ⟨q, h, ⟨⟩⟩ := map_eq_ok.mp h
    exact (receiveValue_consumes hstate h).measure_lt hbuf (hstate.trans_ne (by decide))
  | kDiscardValue =>
    rw [round_discard hash hstate hbuf] at h
    obtain ⟨q, h, ⟨⟩⟩ := map_eq_ok.mp h
    exact (discardValue_consumes h).measure_lt hbuf (hstate.trans_ne (by decide))

/-- The equation of the loop. -/
lemma onMessage_eq (s : Session) (buf : List UInt8) :
    s.onMessage hash buf =
      round hash (s, buf) >>= Round.next fun p => p.1.onMessage hash p.2 :=
  loop_eq measure_lt (s, buf)

lemma onMessage_nil (s : Session) : s.onMessage hash [] = .ok (s, []) := by
  rw [onMessage_eq, round_nil]
  rfl

/-! ### Two parts of the input -/

/-- Reading `x` first and `y` later comes to the same as reading both at once. -/
def Splits (hash : List UInt8 → ℕ) (s : Session) (x y : List UInt8) : Prop :=
  s.onMessage hash (x ++ y) = s.onMessage hash x >>= fun p => p.1.onMessage hash (p.2 ++ y)

/-- A round that leaves `y` alone. -/
lemma Splits.again {m : Code (Session × List UInt8)} (hx : round hash (s, x) = .again <$> m)
    (hxy : round hash (s, x ++ y) = .again <$> (fun q => (q.1, q.2 ++ y)) <$> m)
    (h : ∀ q, m = .ok q → Splits hash q.1 q.2 y) : Splits hash s x y := by
  unfold Splits
  rw [onMessage_eq, onMessage_eq s x, hx, hxy]
  match m with
  | .error _ => rfl
  | .ok q => exact h q rfl

/-- A round that uses up `x` and waits for more. -/
lemma Splits.wait (s₁ : Session) (hx : round hash (s, x) = .ok (.again (s₁, [])))
    (hxy : round hash (s, x ++ y) = round hash (s₁, y)) : Splits hash s x y := by
  unfold Splits
  rw [onMessage_eq, hxy, ← onMessage_eq s₁ y, onMessage_eq s x, hx, ok_bind]
  change _ = s₁.onMessage hash [] >>= _
  rw [onMessage_nil]
  rfl

lemma request_append (hash : List UInt8 → ℕ) (s : Session) (hcrlf : findCRLF x = some c)
    (y : List UInt8) :
    request hash s (x ++ y) c = (fun q => (q.1, q.2 ++ y)) <$> request hash s x c := by
  have hlen := length_of_findCRLF hcrlf
  unfold request
  rw [List.take_append_of_le_length (by omega), List.drop_append_of_le_length hlen]
  simp only [map_bind]
  rfl

/-- The lines that are left after a request. -/
lemma request_spec (hinv : s.Inv hash T) (hstate : s.state = .kNewCommand)
    (hcrlf : findCRLF x = some c)
    (hlines : ∀ line ∈ commandLines [] s.pending (x ++ y), LineOk line) :
    Yields (request hash s x c) fun q =>
      q.1.Inv hash T ∧ ∀ line ∈ commandLines [] q.1.pending (q.2 ++ y), LineOk line := by
  rw [pending_of_new hstate, commandLines_of_findCRLF hcrlf (by simp), List.nil_append] at hlines
  have hlen := length_of_findCRLF hcrlf
  obtain ⟨hshort, hwf⟩ := hlines _ (List.mem_cons_self ..)
  rw [List.length_take_of_le (by omega)] at hshort
  obtain ⟨p, hp, hinv', hpending'⟩ := processRequest_spec hinv hstate hwf
  have hrequest : request hash s x c = .ok (next p, x.drop (c + 2)) := by
    rw [request, check_of (by omega), ok_bind, hp]
    rfl
  refine ⟨_, hrequest, hinv', fun line hline => ?_⟩
  rw [hpending'] at hline
  exact hlines line (List.mem_cons_of_mem _ hline)

lemma splits_command (hinv : s.Inv hash T) (hstate : s.state = .kNewCommand) (hx : x ≠ [])
    (hlines : ∀ line ∈ commandLines [] s.pending (x ++ y), LineOk line)
    (ih : ∀ q, measure q < measure (s, x) → q.1.Inv hash T →
      (∀ line ∈ commandLines [] q.1.pending (q.2 ++ y), LineOk line) → Splits hash q.1 q.2 y) :
    Splits hash s x y := by
  have hxy : x ++ y ≠ [] := by simp [hx]
  cases hcrlf : findCRLF x with
  | some c =>
    have hround := round_request hash hstate hcrlf
    refine Splits.again hround ?_ fun q hq => ?_
    · rw [round_request hash hstate (findCRLF_append hcrlf y), request_append hash s hcrlf]
    · obtain ⟨q', hq', hinv', hlines'⟩ := request_spec hinv hstate hcrlf hlines
      cases hq.symm.trans hq'
      rw [hq] at hround
      exact ih q (measure_lt _ q hround) hinv' hlines'
  | none =>
    have hwait := round_wait hash hstate hx hcrlf
    unfold Splits
    rw [onMessage_eq s x, hwait]
    change _ = (if 1024 < x.length then s.shutdown else s).onMessage hash (x ++ y)
    split
    · next hlong =>
      -- a line of this length would not be allowed, so there is none yet
      cases hcrlf' : findCRLF (x ++ y) with
      | some c =>
        have hlen := length_le_of_findCRLF_append hcrlf hcrlf'
        have hlen' := length_of_findCRLF hcrlf'
        rw [pending_of_new hstate, ← List.append_nil (x ++ y),
          commandLines_of_findCRLF hcrlf' (by simp), List.nil_append] at hlines
        have hshort := (hlines _ (List.mem_cons_self ..)).1
        rw [List.length_take_of_le (by omega)] at hshort
        omega
      | none =>
        have hlong' : 1024 < (x ++ y).length := by
          rw [List.length_append]
          omega
        rw [onMessage_eq, onMessage_eq s.shutdown, round_wait hash hstate hxy hcrlf',
          round_wait hash (s := s.shutdown) hstate hxy hcrlf', if_pos hlong', if_pos hlong']
        rfl
    · rfl

end

/-! ### The end of a value -/

lemma storeValue_upTo (h : s.Rest hash T) (ht : T) (hpolicy : s.policy ≠ .kInvalid) (item : Item) :
    SafeUpTo Outgrown (s.storeValue hash item) fun s' => s'.Rest hash T := by
  unfold storeValue
  split
  · next hitem =>
    rw [safeUpTo_bind]
    refine (storeItem_upTo (h.terminated ht) hitem hpolicy).mono fun p hp => ?_
    have hrest : Rest hash T { s with owner := p.2.2 } := ⟨fun _ => hp, h.needle⟩
    exact hrest.reply _
  · exact h.reply _

lemma needle_storeValue {item : Item} (h : s.storeValue hash item = .ok s') :
    s'.needle = s.needle := by
  have hreply : ∀ (s : Session) msg, (s.reply msg).needle = s.needle := by
    intro s msg
    unfold reply
    split <;> rfl
  unfold storeValue at h
  split at h
  · obtain ⟨p, -, h⟩ := bind_eq_ok.mp h
    cases h
    exact hreply _ _
  · cases h
    exact hreply _ _

/-- What a value leaves behind once it is complete. -/
lemma finishValue_spec (h : s.Rest hash T) (hpolicy : s.policy ≠ .kInvalid) {item : Item}
    (hfinish : s.finishValue hash item = .ok s') : s'.Inv hash T ∧ s'.pending = 0 := by
  rw [finishValue, bind_eq_ok] at hfinish
  obtain ⟨s₁, hs₁, heq⟩ := hfinish
  cases heq
  have hterminated : T → Terminated hash s₁.owner := by
    intro ht
    have hspec := storeValue_upTo h ht hpolicy item
    rw [hs₁] at hspec
    exact hspec.terminated ht
  have hneedle : s₁.needle.valuelen = 2 :=
    (congrArg valuelen (needle_storeValue hs₁)).trans h.needle
  have hrest : Rest hash T { s₁ with state := .kNewCommand } := ⟨hterminated, hneedle⟩
  exact hrest.finished rfl

lemma finishValue_upTo (h : s.Rest hash T) (ht : T) (hpolicy : s.policy ≠ .kInvalid)
    (item : Item) : SafeUpTo Outgrown (s.finishValue hash item) fun s' =>
      s'.Inv hash T ∧ s'.pending = 0 := by
  unfold finishValue
  rw [safeUpTo_bind]
  refine (storeValue_upTo h ht hpolicy item).mono fun s₁ hs₁ => ?_
  have hrest : Rest hash T { s₁ with state := .kNewCommand } := ⟨hs₁.terminated, hs₁.needle⟩
  exact hrest.finished rfl

lemma Inv.receiving (h : s.Inv hash T) (hstate : s.state = .kReceiveValue) :
    s.policy ≠ .kInvalid ∧ ∃ item, s.currItem = some item ∧ 0 < item.neededBytes := by
  have := h.fields
  rwa [hstate] at this

lemma Inv.discarding (h : s.Inv hash T) (hstate : s.state = .kDiscardValue) :
    s.currItem = none ∧ 0 < s.bytesToDiscard := by
  have := h.fields
  rwa [hstate] at this

/-- A session that waits for no bytes of a value is at a request. -/
lemma Inv.state_of_pending (h : s.Inv hash T) (hpending : s.pending = 0) :
    s.state = .kNewCommand := by
  cases hstate : s.state with
  | kNewCommand => rfl
  | kReceiveValue =>
    obtain ⟨-, item, hitem, hpos⟩ := h.receiving hstate
    rw [pending_of_receiving hstate hitem] at hpending
    omega
  | kDiscardValue =>
    obtain ⟨-, hpos⟩ := h.discarding hstate
    rw [pending_of_discarding hstate] at hpending
    omega

lemma splits_receive (hinv : s.Inv hash T) (hy : y ≠ []) (hstate : s.state = .kReceiveValue)
    (hx : x ≠ []) (hlines : ∀ line ∈ commandLines [] s.pending (x ++ y), LineOk line)
    (ih : ∀ q, measure q < measure (s, x) → q.1.Inv hash T →
      (∀ line ∈ commandLines [] q.1.pending (q.2 ++ y), LineOk line) → Splits hash q.1 q.2 y) :
    Splits hash s x y := by
  have hxy : x ++ y ≠ [] := by simp [hx]
  obtain ⟨hpolicy, item, hitem, -⟩ := hinv.receiving hstate
  have hround := round_receive hash hstate hx
  rcases Nat.lt_or_ge x.length item.neededBytes with hlt | hle
  · obtain ⟨s₁, hs₁, hstate₁, happend⟩ := receiveValue_append hash hstate hitem hlt
    refine Splits.wait s₁ ?_ ?_
    · rw [hround, hs₁]
      rfl
    · rw [round_receive hash hstate hxy, round_receive hash hstate₁ hy, happend]
  · have hle' : item.neededBytes ≤ (x ++ y).length := by
      rw [List.length_append]
      omega
    obtain ⟨item', hitem', -, hr⟩ := receiveValue_of_le hash hstate hitem hle
    obtain ⟨item'', hitem'', -, hr'⟩ := receiveValue_of_le hash hstate hitem hle'
    rw [List.take_append_of_le_length hle] at hitem''
    cases hitem'.symm.trans hitem''
    refine Splits.again hround ?_ fun q hq => ?_
    · rw [round_receive hash hstate hxy, hr, hr', List.drop_append_of_le_length hle]
      simp only [Functor.map_map]
    · rw [hq] at hround
      have hlt := measure_lt _ q hround
      rw [hr] at hq
      obtain ⟨s', hfinish, rfl⟩ := map_eq_ok.mp hq
      have hrest : Rest hash T { s with currItem := some item' } :=
        ⟨hinv.rest.terminated, hinv.rest.needle⟩
      have hspec := finishValue_spec hrest hpolicy hfinish
      refine ih _ hlt hspec.1 fun line hline => hlines line ?_
      rw [pending_of_receiving hstate hitem, commandLines_skip, List.drop_append_of_le_length hle]
      rwa [hspec.2] at hline

lemma splits_discard (hinv : s.Inv hash T) (hy : y ≠ []) (hstate : s.state = .kDiscardValue)
    (hx : x ≠ []) (hlines : ∀ line ∈ commandLines [] s.pending (x ++ y), LineOk line)
    (ih : ∀ q, measure q < measure (s, x) → q.1.Inv hash T →
      (∀ line ∈ commandLines [] q.1.pending (q.2 ++ y), LineOk line) → Splits hash q.1 q.2 y) :
    Splits hash s x y := by
  have hxy : x ++ y ≠ [] := by simp [hx]
  obtain ⟨hitem, -⟩ := hinv.discarding hstate
  have hround := round_discard hash hstate hx
  rcases Nat.lt_or_ge x.length s.bytesToDiscard with hlt | hle
  · obtain ⟨s₁, hs₁, hstate₁, happend⟩ := discardValue_append hstate hitem hlt
    refine Splits.wait s₁ ?_ ?_
    · rw [hround, hs₁]
      rfl
    · rw [round_discard hash hstate hxy, round_discard hash hstate₁ hy, happend]
  · have hle' : s.bytesToDiscard ≤ (x ++ y).length := by
      rw [List.length_append]
      omega
    have hr := discardValue_of_le hstate hitem hle
    refine Splits.again hround ?_ fun q hq => ?_
    · rw [round_discard hash hstate hxy, hr, discardValue_of_le hstate hitem hle',
        List.drop_append_of_le_length hle]
      rfl
    · rw [hq] at hround
      have hlt := measure_lt _ q hround
      cases hr.symm.trans hq
      have hrest : Rest hash T { s with state := .kNewCommand } :=
        ⟨hinv.rest.terminated, hinv.rest.needle⟩
      obtain ⟨hinv', hpending'⟩ := hrest.finished rfl
      refine ih _ hlt hinv' fun line hline => hlines line ?_
      rw [pending_of_discarding hstate, commandLines_skip, List.drop_append_of_le_length hle]
      exact hline

/-- Reading a part of the input first and the rest later. -/
lemma onMessage_append (hinv : s.Inv hash T) (hy : y ≠ [])
    (hlines : ∀ line ∈ commandLines [] s.pending (x ++ y), LineOk line) : Splits hash s x y := by
  -- by induction on what the rounds take from `x`
  induction hn : measure (s, x) using Nat.strong_induction_on generalizing s x with
  | _ n ih =>
    have ih' : ∀ q, measure q < measure (s, x) → q.1.Inv hash T →
        (∀ line ∈ commandLines [] q.1.pending (q.2 ++ y), LineOk line) →
        Splits hash q.1 q.2 y :=
      fun q hq hinv hlines => ih (measure q) (hn ▸ hq) hinv hlines rfl
    by_cases hx : x = []
    · rw [hx, Splits, onMessage_nil]
      rfl
    cases hstate : s.state with
    | kNewCommand => exact splits_command hinv hstate hx hlines ih'
    | kReceiveValue => exact splits_receive hinv hy hstate hx hlines ih'
    | kDiscardValue => exact splits_discard hinv hy hstate hx hlines ih'

/-- A session reads a stream as if it came in one piece. -/
lemma run_receive (hinv : s.Inv hash T) {chunks : List (List UInt8)}
    (hchunks : ∀ c ∈ chunks, c ≠ [])
    (hlines : ∀ line ∈ commandLines [] s.pending chunks.flatten, LineOk line) :
    run (receive hash) (s, []) chunks = s.onMessage hash chunks.flatten := by
  have hrun := run_feed (fun (s : Session) buf => s.onMessage hash buf)
    (fun s l => s.Inv hash T ∧ ∀ line ∈ commandLines [] s.pending l, LineOk line)
    (fun s x y h => ⟨h.1, fun line hline => h.2 line (mem_commandLines_append y hline)⟩)
    (fun s x y hy h => onMessage_append h.1 hy h.2) hchunks (s := s) (x := []) ⟨hinv, hlines⟩
  rw [onMessage_nil] at hrun
  exact hrun

/-! ### What a round leaves behind -/

/-- The session waits for what the unread input holds. -/
structure Reads (hash : List UInt8 → ℕ) (T : Prop) (p : Session × List UInt8) : Prop where
  inv : p.1.Inv hash T
  lines : ∀ line ∈ commandLines [] p.1.pending p.2, LineOk line

lemma Reads.nil (h : s.Inv hash T) : Reads hash T (s, []) := ⟨h, nofun⟩

lemma receiveValue_upTo (h : Reads hash T (s, buf)) (ht : T) (hstate : s.state = .kReceiveValue) :
    SafeUpTo Outgrown (s.receiveValue hash buf) (Reads hash T) := by
  obtain ⟨hpolicy, item, hitem, -⟩ := h.inv.receiving hstate
  have hrest : ∀ item', Rest hash T { s with currItem := some item' } :=
    fun _ => ⟨h.inv.rest.terminated, h.inv.rest.needle⟩
  rcases Nat.lt_or_ge buf.length item.neededBytes with hlt | hle
  · obtain ⟨item', -, hneeded, hr⟩ := receiveValue_of_lt hash hstate hitem hlt
    rw [hr]
    refine Reads.nil ⟨hrest item', ?_⟩
    dsimp only
    rw [hstate]
    exact ⟨hpolicy, item', rfl, by omega⟩
  · obtain ⟨item', -, -, hr⟩ := receiveValue_of_le hash hstate hitem hle
    rw [hr, safeUpTo_map]
    refine (finishValue_upTo (hrest item') ht hpolicy item').mono fun s' hs' => ⟨hs'.1, ?_⟩
    intro line hline
    apply h.lines line
    dsimp only at hline ⊢
    rw [pending_of_receiving hstate hitem, commandLines_skip]
    rwa [hs'.2] at hline

lemma discardValue_upTo (h : Reads hash T (s, buf)) (hstate : s.state = .kDiscardValue) :
    SafeUpTo Outgrown (s.discardValue buf) (Reads hash T) := by
  obtain ⟨hitem, -⟩ := h.inv.discarding hstate
  rcases Nat.lt_or_ge buf.length s.bytesToDiscard with hlt | hle
  · rw [discardValue_of_lt hstate hitem hlt]
    refine Reads.nil ⟨⟨h.inv.rest.terminated, h.inv.rest.needle⟩, ?_⟩
    dsimp only
    rw [hstate]
    exact ⟨hitem, Nat.sub_pos_of_lt hlt⟩
  · rw [discardValue_of_le hstate hitem hle]
    have hrest : Rest hash T { s with state := .kNewCommand } :=
      ⟨h.inv.rest.terminated, h.inv.rest.needle⟩
    refine ⟨(hrest.finished rfl).1, fun line hline => h.lines line ?_⟩
    dsimp only
    rw [pending_of_discarding hstate, commandLines_skip]
    exact hline

lemma round_upTo (ht : T) {p : Session × List UInt8} (h : Reads hash T p) :
    SafeUpTo Outgrown (round hash p) (Round.Leaves (fun q => q.1.Inv hash T) (Reads hash T)) := by
  obtain ⟨s, buf⟩ := p
  by_cases hbuf : buf = []
  · subst hbuf
    exact h.inv
  cases hstate : s.state with
  | kNewCommand =>
    cases hcrlf : findCRLF buf with
    | some c =>
      have hlines := h.lines
      dsimp only at hlines
      rw [← List.append_nil buf] at hlines
      obtain ⟨q, hq, hinv, hlines'⟩ := request_spec h.inv hstate hcrlf hlines
      rw [round_request hash hstate hcrlf, hq]
      rw [List.append_nil] at hlines'
      exact ⟨hinv, hlines'⟩
    | none =>
      rw [round_wait hash hstate hbuf hcrlf]
      change Inv hash T (if 1024 < buf.length then s.shutdown else s)
      split
      · exact ⟨⟨h.inv.rest.terminated, h.inv.rest.needle⟩, h.inv.fields⟩
      · exact h.inv
  | kReceiveValue =>
    rw [round_receive hash hstate hbuf, safeUpTo_map]
    exact receiveValue_upTo h ht hstate
  | kDiscardValue =>
    rw [round_discard hash hstate hbuf, safeUpTo_map]
    exact discardValue_upTo h hstate

/-- Two ways of cutting a stream into chunks come to the same, and on the way no assertion fails but
that of an item which outgrows an `int`. -/
theorem segmentation_irrelevant (hash : List UInt8 → ℕ) (s : Session) (hs : s.Inv hash True)
    (chunks chunks' : List (List UInt8)) (hchunks : ∀ c ∈ chunks, c ≠ [])
    (hchunks' : ∀ c ∈ chunks', c ≠ []) (hstream : chunks.flatten = chunks'.flatten)
    (hlines : ∀ line ∈ commandLines [] s.pending chunks.flatten, LineOk line) :
    run (receive hash) (s, []) chunks = run (receive hash) (s, []) chunks' ∧
      SafeUpTo Outgrown (run (receive hash) (s, []) chunks) fun p => p.1.Inv hash True := by
  constructor
  · rw [run_receive hs hchunks hlines, run_receive hs hchunks' (hstream ▸ hlines), hstream]
  · rw [run_receive hs hchunks hlines]
    have hreads : Reads hash True (s, chunks.flatten) := ⟨hs, hlines⟩
    exact loop_safeUpTo measure_lt (fun _ => round_upTo trivial) hreads

/-- What a new session looks like. -/
lemma makeSession_spec (owner : MemcacheServer) :
    Yields (makeSession owner) fun s => s.owner = owner ∧ s.state = .kNewCommand ∧ s.IsReset ∧
      s.needle.valuelen = 2 ∧ s.conn = ⟨true, []⟩ ∧ s.outputBuf = [] := by
  have hlen : (List.replicate kLongestKeySize (120 : UInt8)).length = 250 := List.length_replicate
  have hspec : Yields (makeItem (List.replicate kLongestKeySize 120) 0 0 2 0) _ :=
    makeItem_spec (le_refl _) (by omega)
  obtain ⟨needle, hneedle, hfresh⟩ := hspec
  rw [makeSession, hneedle]
  exact ⟨_, rfl, rfl, rfl, ⟨rfl, rfl, rfl, rfl, rfl⟩, Int.ofNat.inj hfresh.valuelen, rfl, rfl⟩

lemma makeSession_inv {owner : MemcacheServer} (h : T → Terminated hash owner) :
    Yields (makeSession owner) fun s => s.Inv hash T ∧ s.pending = 0 := by
  obtain ⟨s, hs, howner, hstate, hreset, hneedle, -⟩ := makeSession_spec owner
  refine ⟨s, hs, ⟨⟨?_, hneedle⟩, ?_⟩, ?_⟩
  · rw [howner]
    exact h
  · rw [hstate]
    exact hreset
  · exact pending_of_new hstate

/-- A stream cut between CR and LF and inside a value, and in one piece. -/
theorem segmentation_irrelevant_cut :
    Yields (makeSession ⟨0, fun _ => .empty, 0, 0⟩) fun s =>
      run (receive List.length) (s, []) [ascii "set k 5 0 4\r", ascii "\na", ascii "\r\nb\r",
        ascii "\nget k\r\n"] =
      run (receive List.length) (s, []) [ascii "set k 5 0 4\r\na\r\nb\r\nget k\r\n"] := by
  obtain ⟨s, hs, hinv, hpending⟩ : Yields (makeSession ⟨0, fun _ => .empty, 0, 0⟩) fun s =>
    s.Inv List.length True ∧ s.pending = 0 := makeSession_inv fun _ => nofun
  refine ⟨s, hs, (segmentation_irrelevant _ s hinv _ _ (by decide) (by decide) (by decide +kernel)
    ?_).1⟩
  rw [hpending]
  decide +kernel

end Session

end Muduo.Memcached

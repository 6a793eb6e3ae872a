import Muduo.Memcached.RoundTrip
import Muduo.Memcached.System

/-!
# The limit on the length of a value

`doUpdate` accepts a value of 1 MiB at most, but `storeItem` appends and prepends to what is stored
without looking at the length again. Along a run of any number of sessions, the store stays within
the limit as long as no append and no prepend outgrows it.

## Main results

* `value_limit_iff`: everything that is ever stored is within the limit, and no length overflows an
  `int`, if and only if no append or prepend on the way outgrows the limit.
-/

namespace Muduo.Memcached

open Machine Item

/-- A value of 1 MiB and its CRLF. -/
def valueLimit : ℕ := 1024 * 1024 + 2

/-! ### The length that an update writes -/

section

variable {hash : List UInt8 → ℕ} {server : MemcacheServer} {item oldItem newItem a : Item}
  {policy : UpdatePolicy} {cas : ℕ}

lemma concatenate_valuelen (h : concatenate item oldItem policy cas = .ok newItem) :
    (newItem.valuelen : ℤ) = Int.bmod (item.valuelen + oldItem.valuelen - 2) (2 ^ 32) := by
  simp only [concatenate, bind_eq_ok] at h
  obtain ⟨n₀, h₀, n₁, h₁, n₂, h₂, -, -, -, -, h⟩ := h
  cases h
  rw [(append_extends h₂).valuelen, (append_extends h₁).valuelen]
  exact (makeItem_fresh h₀).valuelen

/-- An update writes an item of the length that it was given, unless it concatenates. -/
lemma update_valuelen {old : Option Item} (h : update item policy old cas = .ok (some a)) :
    a.valuelen = item.valuelen ∨ (policy = .kAppend ∨ policy = .kPrepend) ∧ ∃ oldItem ∈ old,
      (a.valuelen : ℤ) = Int.bmod (item.valuelen + oldItem.valuelen - 2) (2 ^ 32) := by
  have hset : ∀ {x : Item}, some (item.setCas cas) = some x → x.valuelen = item.valuelen := by
    rintro _ ⟨⟩
    rfl
  have hconcat : ∀ {p oldItem}, some <$> concatenate item oldItem p cas = .ok (some a) →
      (a.valuelen : ℤ) = Int.bmod (item.valuelen + oldItem.valuelen - 2) (2 ^ 32) := by
    intro p oldItem h
    obtain ⟨n, hn, ⟨⟩⟩ := map_eq_ok.mp h
    exact concatenate_valuelen hn
  revert h
  fun_cases update item policy old cas
  case case1 | case2 | case3 =>
    intro h
    exact .inl (hset (Except.ok.inj h))
  case case4 oldItem =>
    intro h
    exact .inr ⟨.inl rfl, oldItem, rfl, hconcat h⟩
  case case5 oldItem =>
    intro h
    exact .inr ⟨.inr rfl, oldItem, rfl, hconcat h⟩
  case case6 oldItem =>
    intro h
    have h := Except.ok.inj h
    split at h
    · exact .inl (hset h)
    · cases h
  all_goals rintro ⟨⟩

/-! ### A store within the limit -/

structure WithinLimit (hash : List UInt8 → ℕ) (server : MemcacheServer) : Prop where
  placed : server.Placed hash
  terminated : Terminated hash server
  le : ∀ k, ∀ a ∈ server.lookup hash k, a.valuelen ≤ valueLimit

lemma WithinLimit.mem (h : WithinLimit hash server) {i : Fin kShards} (ha : a ∈ server.shards i) :
    a.valuelen ≤ valueLimit :=
  h.le _ a (h.placed.mem_iff.mp ha).2

lemma WithinLimit.deleteItem (h : WithinLimit hash server) (key : Item) :
    WithinLimit hash (server.deleteItem hash key).2 := by
  refine ⟨h.placed.deleteItem key, h.terminated.deleteItem key, fun k a ha => ?_⟩
  rw [MemcacheServer.lookup_deleteItem] at ha
  split at ha
  · cases ha
  · exact h.le k a ha

lemma WithinLimit.put (h : WithinLimit hash server) (hcrlf : a.endsWithCRLF = true)
    (hle : a.valuelen ≤ valueLimit) : WithinLimit hash (server.put hash a) := by
  refine ⟨h.placed.put a, h.terminated.put hcrlf, fun k b hb => ?_⟩
  rw [MemcacheServer.lookup_put] at hb
  split at hb
  · cases hb
    exact hle
  · exact h.le k b hb

/-- An update that concatenates within the limit keeps the store within the limit. -/
lemma WithinLimit.storeItem (h : WithinLimit hash server) (hcrlf : item.endsWithCRLF = true)
    (hpolicy : policy ≠ .kInvalid) (hle : item.valuelen ≤ valueLimit)
    (hfit : (policy = .kAppend ∨ policy = .kPrepend) → ∀ oldItem ∈ server.lookup hash item.key,
      item.valuelen + oldItem.valuelen - 2 ≤ valueLimit)
    {stored found : Bool} {owner : MemcacheServer}
    (hs : server.storeItem hash item policy = .ok (stored, found, owner)) :
    WithinLimit hash owner := by
  rw [MemcacheServer.storeItem_eq, bind_eq_ok] at hs
  obtain ⟨_, -, hs⟩ := hs
  dsimp only at hs
  rw [bind_eq_ok] at hs
  obtain ⟨new, hnew, hs⟩ := hs
  cases hs
  cases new with
  | none => exact h
  | some a =>
    have hspec : SafeUpTo Outgrown (update item policy (server.lookup hash item.key)
      server.incrementAndGet.1) _ := update_upTo hcrlf hpolicy (h.terminated item.key)
    rw [hnew] at hspec
    refine h.put (hspec a rfl) ?_
    rcases update_valuelen hnew with hlen | ⟨hp, oldItem, hold, hlen⟩
    · exact hlen.trans_le hle
    · have hsum := hfit hp oldItem hold
      unfold valueLimit at hsum ⊢
      rw [newLen_eq (by omega)] at hlen
      omega

/-- An append or a prepend that fits in an `int` writes all of both values. -/
lemma storeItem_concatenates (h : Terminated hash server) (hcrlf : item.endsWithCRLF = true)
    (hpolicy : policy = .kAppend ∨ policy = .kPrepend)
    (hold : server.lookup hash item.key = some oldItem)
    (hfit : item.key.length + (item.valuelen + oldItem.valuelen - 2) < 2 ^ 31) :
    ∃ a, a.key = item.key ∧ a.valuelen = item.valuelen + oldItem.valuelen - 2 ∧
      server.storeItem hash item policy = .ok (true, true, server.put hash a) := by
  have hneeded : item.neededBytes = 0 := neededBytes_eq_zero.mpr (endsWithCRLF_iff.mp hcrlf).1
  obtain ⟨a, ha, hkey, -⟩ : Yields (concatenate item oldItem policy server.incrementAndGet.1) _ :=
    concatenate_spec hcrlf (h item.key oldItem hold) hfit
  have hlen := concatenate_valuelen ha
  rw [newLen_eq (by omega)] at hlen
  have hupdate : update item policy (some oldItem) server.incrementAndGet.1 = .ok (some a) := by
    rcases hpolicy with rfl | rfl
    · rw [update, ha]
      rfl
    · rw [update, ha]
      rfl
  refine ⟨a, hkey, Int.ofNat.inj hlen, ?_⟩
  rw [MemcacheServer.storeItem_eq, check_of hneeded, ok_bind]
  dsimp only
  rw [hold, hupdate]
  rfl

end

/-! ### What a round does to the store -/

namespace Session

variable {hash : List UInt8 → ℕ} {s : Session} {buf : List UInt8}

lemma owner_reply (msg : List UInt8) : (s.reply msg).owner = s.owner := by
  unfold reply
  split <;> rfl

lemma owner_setNoreply (noreply : Bool) : (s.setNoreply noreply).owner = s.owner := by
  cases noreply <;> rfl

lemma owner_sendOutput : s.sendOutput.owner = s.owner := by
  unfold sendOutput
  split <;> rfl

/-- A request reads the store, deletes a key or stops the server. -/
lemma withinLimit_dispatched {beg : List Token} {p : Bool × Session}
    (h : WithinLimit hash s.owner) (hneedle : s.needle.valuelen = 2)
    (hp : Dispatched hash s beg p) : WithinLimit hash p.2.owner := by
  cases hp with
  | refused _ _ _ =>
    rw [owner_reply]
    exact h
  | received _ _ _ _ _ _ => exact h
  | @discarded _ _ _ _ needle _ _ _ _ _ => exact h.deleteItem needle
  | got _ _ hs' =>
    obtain ⟨needle, -, hs''⟩ := doGet_eq hneedle _ beg
    cases hs''.symm.trans hs'
    dsimp only
    split
    · rw [owner_sendOutput]
      exact h
    · rw [owner_reply]
      exact h
  | deleted _ _ hs' =>
    rcases doDelete_cases hs' with ⟨msg, rfl⟩ | ⟨needle, msg, rfl⟩
    · rw [owner_reply]
      exact h
    · rw [owner_reply]
      exact h.deleteItem needle
  | said _ _ =>
    rw [owner_reply]
    exact h
  | quit _ => exact h
  | stopped _ => exact ⟨h.placed, h.terminated, h.le⟩

/-- The item that is being received is one that `doUpdate` accepts. -/
def Small (s : Session) : Prop :=
  ∀ item ∈ s.currItem, item.valuelen ≤ valueLimit ∧ item.key.length ≤ kLongestKeySize

lemma small_of_none (h : s.currItem = none) : s.Small := by
  intro item hitem
  rw [h] at hitem
  cases hitem

lemma small_next {beg : List Token} {p : Bool × Session} (hitem : s.currItem = none)
    (hp : Dispatched hash s beg p) : (next p).Small := by
  cases hp with
  | received _ _ hfields _ hhigh hfresh =>
    rintro _ ⟨⟩
    have hlen := hfresh.valuelen
    refine ⟨?_, (congrArg List.length hfresh.key).trans_le (length_of_readFields hfields)⟩
    unfold valueLimit
    omega
  | discarded _ _ _ _ _ => exact small_of_none ((currItem_reply _).trans hitem)
  | refused _ _ _ | got _ _ _ | deleted _ _ _ | said _ _ | quit _ | stopped _ =>
    exact small_of_none rfl

lemma requested_keeps {line : List UInt8} {p : Bool × Session} (h : WithinLimit hash s.owner)
    (hinv : s.Inv hash False) (hstate : s.state = .kNewCommand) (hp : Requested hash s line p) :
    WithinLimit hash (next p).owner ∧ (next p).Small := by
  have howner : (next p).owner = p.2.owner := by
    unfold next
    split <;> rfl
  have hitem : s.currItem = none := Option.isNone_iff_eq_none.mp (hinv.isReset hstate).2.2.2.1
  rw [howner]
  cases hp with
  | blank _ =>
    rw [owner_reply, owner_setNoreply]
    exact ⟨h, small_of_none rfl⟩
  | @command command _ _ _ hp =>
    have h' : WithinLimit hash
        ({ s.setNoreply (stripNoreply line).1 with command } : Session).owner := by
      change WithinLimit hash (s.setNoreply (stripNoreply line).1).owner
      rw [owner_setNoreply]
      exact h
    have hitem' : ({ s.setNoreply (stripNoreply line).1 with command } : Session).currItem = none :=
      (currItem_setNoreply _).trans hitem
    exact ⟨withinLimit_dispatched h' (hinv.rest.setNoreply _).needle hp, small_next hitem' hp⟩

/-! ### Appending and prepending -/

/-- The round completes this item, and it ends with CRLF: `storeItem` is called with it. -/
def Stores (s : Session) (buf : List UInt8) (item : Item) : Prop :=
  s.state = .kReceiveValue ∧ ∃ item₀, s.currItem = some item₀ ∧
    item₀.neededBytes ≤ buf.length ∧ item₀.append (buf.take item₀.neededBytes) = .ok item ∧
    item.endsWithCRLF = true

/-- The round appends or prepends the item to what is stored under its key. -/
def Concatenates (hash : List UInt8 → ℕ) (s : Session) (buf : List UInt8) (item oldItem : Item) :
    Prop :=
  s.Stores buf item ∧ (s.policy = .kAppend ∨ s.policy = .kPrepend) ∧
    s.owner.lookup hash item.key = some oldItem

/-- The round concatenates to more than the limit. -/
def Outgrows (hash : List UInt8 → ℕ) (s : Session) (buf : List UInt8) : Prop :=
  ∃ item oldItem, s.Concatenates hash buf item oldItem ∧
    valueLimit < item.valuelen + oldItem.valuelen - 2

/-- The cast of the new length to `int` is the length. -/
def LengthFits (hash : List UInt8 → ℕ) (s : Session) (buf : List UInt8) : Prop :=
  ∀ item oldItem, s.Concatenates hash buf item oldItem →
    item.valuelen + oldItem.valuelen - 2 < 2 ^ 31

lemma Small.stores {item : Item} (h : s.Small) (hs : s.Stores buf item) :
    item.valuelen ≤ valueLimit ∧ item.key.length ≤ kLongestKeySize := by
  obtain ⟨-, item₀, hitem₀, -, happend, -⟩ := hs
  have hext := append_extends happend
  rw [hext.valuelen, hext.key]
  exact h item₀ hitem₀

lemma rounded_keeps {q : Session × List UInt8} (h : WithinLimit hash s.owner)
    (hinv : s.Inv hash False) (hsmall : s.Small) (hfit : ¬ s.Outgrows hash buf)
    (hq : Rounded hash s buf q) : WithinLimit hash q.1.owner ∧ q.1.Small := by
  cases hq with
  | waits | closes => exact ⟨h, hsmall⟩
  | requested hstate _ _ hp => exact requested_keeps h hinv hstate hp
  | grows _ hitem hext _ =>
    refine ⟨h, ?_⟩
    rintro _ ⟨⟩
    rw [hext.valuelen, hext.key]
    exact hsmall _ hitem
  | @finishes _ item _ hstate hitem hle happend hs' =>
    cases finished hs' with
    | bad _ =>
      refine ⟨?_, small_of_none rfl⟩
      change WithinLimit hash (reply _ _).owner
      rw [owner_reply]
      exact h
    | stored hcrlf howner =>
      have hstores : s.Stores buf item := ⟨hstate, _, hitem, hle, happend, hcrlf⟩
      refine ⟨?_, small_of_none rfl⟩
      change WithinLimit hash (reply _ _).owner
      rw [owner_reply]
      refine h.storeItem hcrlf (hinv.receiving hstate).1 (hsmall.stores hstores).1
        (fun hp oldItem hold => ?_) howner
      by_contra hgt
      exact hfit ⟨item, oldItem, ⟨hstores, hp, hold⟩, Nat.lt_of_not_le hgt⟩
  | discards _ _ => exact ⟨h, hsmall⟩
  | skips _ => exact ⟨h, small_of_none rfl⟩

/-- A round that outgrows the limit comes to its end, and stores what it has concatenated. -/
lemma round_outgrows (h : WithinLimit hash s.owner) (hinv : s.Inv hash False) (hsmall : s.Small)
    (hout : s.Outgrows hash buf) :
    ∃ s', round hash (s, buf) = .ok (.again (s', buf.drop s.pending)) ∧
      ∃ i, ∃ a ∈ s'.owner.shards i, valueLimit < a.valuelen := by
  obtain ⟨item, oldItem, ⟨hstores, hpolicy, hold⟩, hgt⟩ := hout
  obtain ⟨hlen, hkey⟩ := hsmall.stores hstores
  have hfit : item.key.length + (item.valuelen + oldItem.valuelen - 2) < 2 ^ 31 := by
    have hlen' := h.le item.key oldItem hold
    unfold valueLimit at hlen hlen'
    unfold kLongestKeySize at hkey
    omega
  obtain ⟨hstate, item₀, hitem₀, hle, happend, hcrlf⟩ := hstores
  obtain ⟨a, hakey, halen, hstore⟩ := storeItem_concatenates h.terminated hcrlf hpolicy hold hfit
  obtain ⟨s', hs', howner⟩ : ∃ s', finishValue hash { s with currItem := some item } item = .ok s' ∧
      s'.owner = s.owner.put hash a := by
    unfold finishValue storeValue
    rw [if_pos hcrlf]
    dsimp only
    rw [hstore]
    exact ⟨_, rfl, owner_reply _⟩
  obtain ⟨item', happend', -, hr⟩ := receiveValue_of_le hash hstate hitem₀ hle
  cases happend.symm.trans happend'
  have hbuf : buf ≠ [] := by
    obtain ⟨-, item₁, hitem₁, hpos⟩ := hinv.receiving hstate
    cases hitem₀.symm.trans hitem₁
    exact List.ne_nil_of_length_pos (hpos.trans_le hle)
  refine ⟨s', ?_, shardOf hash a.key, a, ?_, by omega⟩
  · rw [round_receive hash hstate hbuf, hr, hs', pending_of_receiving hstate hitem₀]
    rfl
  · rw [howner]
    refine (h.placed.put a).mem_iff.mpr ⟨rfl, ?_⟩
    rw [MemcacheServer.lookup_put, if_pos rfl]

/-- The line that appends one byte. -/
lemma processRequest_append_byte (hash : List UInt8 → ℕ) (h : s.Ready) :
    ∃ (s' : Session) (item : Item),
      s.processRequest hash (ascii "append k 0 0 1") = .ok (false, s') ∧
      s'.state = .kReceiveValue ∧ s'.currItem = some item ∧ s'.policy = .kAppend ∧
      s'.owner = s.owner ∧ item.key = ascii "k" ∧ item.value = [] ∧ item.valuelen = 3 := by
  have hstrip : stripNoreply (ascii "append k 0 0 1") = (false, ascii "append k 0 0 1") := by
    decide +kernel
  have htok : tokens (ascii "append k 0 0 1") =
      [ascii "append", ascii "k", ascii "0", ascii "0", ascii "1"] := by decide +kernel
  have hbytes : (readFields .kAppend (ascii "k") [ascii "0", ascii "0", ascii "1"]).map
      Fields.bytes = some 1 := by decide +kernel
  obtain ⟨fields, hfields, hone⟩ := Option.map_eq_some_iff.mp hbytes
  obtain ⟨item, hfresh, hupdate⟩ := doUpdate_small (s := { s with command := ascii "append" }) hash
    rfl hfields (by omega) (by omega)
  have hlen := hfresh.valuelen
  exact ⟨_, item, (processRequest_update hash h.reset hstrip htok rfl).trans hupdate, rfl, rfl,
    rfl, rfl, hfresh.key, hfresh.value, by omega⟩

/-- Appending one byte to a value of the full length. -/
lemma onMessage_append_byte (h : s.Ready) (hlimit : WithinLimit hash s.owner) {a : Item}
    {v : List UInt8} (ha : Holds a (ascii "k") 0 v) (hv : v.length = 1024 * 1024)
    (hold : s.owner.lookup hash (ascii "k") = some a) :
    ∃ s', s.onMessage hash (ascii "append k 0 0 1\r\na\r\n") = .ok (s', []) ∧
      ∃ i, ∃ a ∈ s'.owner.shards i, valueLimit < a.valuelen := by
  have hsplit : ascii "append k 0 0 1\r\na\r\n" =
      ascii "append k 0 0 1" ++ 13 :: 10 :: ascii "a\r\n" := by decide +kernel
  obtain ⟨s₂, item₀, hp, hstate, hitem, hpolicy, howner, hkey₀, hvalue₀, hlen₀⟩ :=
    processRequest_append_byte hash h
  have hreq := requested h.needle hp
  have hinv : s₂.Inv hash False := h.inv.requested h.state hreq
  obtain ⟨hlimit', hsmall⟩ : WithinLimit hash s₂.owner ∧ s₂.Small :=
    requested_keeps hlimit h.inv h.state hreq
  -- the three bytes that follow complete the item
  have hneeded : item₀.neededBytes = 3 := by
    rw [neededBytes_eq, hvalue₀, hlen₀]
    rfl
  obtain ⟨item, happend, hext⟩ : Yields (item₀.append (ascii "a\r\n")) _ :=
    append_spec hneeded.ge
  have hvalue : item.value = ascii "a" ++ [13, 10] := by
    rw [hext.value, hvalue₀]
    rfl
  have hlen : item.valuelen = 3 := hext.valuelen.trans hlen₀
  have hcrlf := (endsWithCRLF_of_value (by rw [hvalue, hlen]; rfl) hvalue).1
  have hout : s₂.Outgrows hash (ascii "a\r\n") := by
    have hkey : item.key = ascii "k" := hext.key.trans hkey₀
    refine ⟨item, a, ⟨⟨hstate, item₀, hitem, hneeded.le, ?_, hcrlf⟩, .inl hpolicy, ?_⟩, ?_⟩
    · rw [hneeded]
      exact happend
    · rw [howner, hkey, hold]
    · rw [hlen, ha.valuelen, hv]
      decide
  obtain ⟨s', hround, hshard⟩ := round_outgrows hlimit' hinv hsmall hout
  rw [pending_of_receiving hstate hitem, hneeded] at hround
  refine ⟨s', ?_, hshard⟩
  rw [hsplit, onMessage_line h.state (by decide +kernel) (by decide +kernel) hp]
  change s₂.onMessage hash (ascii "a\r\n") = _
  rw [onMessage_eq, hround, ok_bind]
  exact onMessage_nil s'

end Session

/-! ### Runs -/

namespace System

variable {ι : Type} [DecidableEq ι] {hash : List UInt8 → ℕ}

/-- Every item in every shard is within the limit. -/
def Limited (sys : System ι) : Prop :=
  ∀ i, ∀ item ∈ sys.server.shards i, item.valuelen ≤ valueLimit

/-- The step outgrows the limit with no append and no prepend. -/
def Fits (hash : List UInt8 → ℕ) (sys : System ι) (e : Event ι) : Prop :=
  ∀ s buf, sys.Takes e s buf → ¬ s.Outgrows hash buf

/-- The store is within the limit, and so is what the sessions receive. -/
def Bounded (hash : List UInt8 → ℕ) (sys : System ι) : Prop :=
  sys.Holds hash (WithinLimit hash) Session.Small

section

variable {sys sys' : System ι} {e : Event ι}

omit [DecidableEq ι] in
lemma Bounded.takes {s : Session} {buf : List UInt8} (h : sys.Bounded hash)
    (ht : sys.Takes e s buf) : WithinLimit hash s.owner ∧ s.Inv hash False ∧ s.Small :=
  Holds.takes h (fun _ _ hsmall => hsmall) ht

lemma Bounded.step (h : sys.Bounded hash) (hfit : sys.Fits hash e)
    (hstep : step hash sys e = .ok sys') : sys'.Bounded hash := by
  refine step_holds (fun _ _ hsmall => hsmall) (fun owner s hs => ?_)
    (fun s buf q hP hinv hQ hC => Session.rounded_keeps hP hinv hQ hC) h hfit hstep
  obtain ⟨s', hs', -, -, hreset, -⟩ := Session.makeSession_spec owner
  cases hs'.symm.trans hs
  exact Session.small_of_none (Option.isNone_iff_eq_none.mp hreset.2.2.2.1)

/-- The first round that outgrows the limit leaves the store outside of it. -/
lemma Bounded.outgrows (h : sys.Bounded hash) (hout : ¬ sys.Fits hash e) :
    ∃ sys', System.step hash sys e = .ok sys' ∧ ¬ sys'.Limited := by
  unfold Fits at hout
  push Not at hout
  obtain ⟨s, buf, htakes, hout⟩ := hout
  obtain ⟨hserver, hinv, hsmall⟩ := h.takes htakes
  obtain ⟨s', hq, i, a, ha, hgt⟩ := Session.round_outgrows hserver hinv hsmall hout
  obtain ⟨name, -, hstep⟩ := htakes.step hq
  exact ⟨_, hstep, fun hlimited => absurd (hlimited i a ha) (Nat.not_le.mpr hgt)⟩

end

/-- Along a run of any number of sessions, every item in the store is within the limit at all times,
and no new length overflows an `int`, if and only if no append or prepend outgrows the limit. -/
theorem value_limit_iff (hash : List UInt8 → ℕ) (startTime : ℤ) (es : List (Event ι)) :
    (Always (step hash) Limited (new startTime) es ∧
      Along (step hash) (fun sys e => ∀ s buf, sys.Takes e s buf → s.LengthFits hash buf)
        (new startTime) es) ↔
      Along (step hash) (Fits hash) (new startTime) es := by
  have hnew : (new startTime : System ι).Bounded hash := Holds.new ⟨nofun, nofun, nofun⟩
  have hstep : ∀ (sys : System ι) e sys', sys.Bounded hash → sys.Fits hash e →
      step hash sys e = .ok sys' → sys'.Bounded hash := fun _ _ _ h => h.step
  have hlimited : ∀ sys : System ι, sys.Bounded hash → sys.Limited :=
    fun _ h _ _ ha => h.server.mem ha
  have halways : Always (step hash) Limited (new startTime) es ↔ _ :=
    always_iff_along hlimited hstep (fun _ _ h => h.outgrows) hnew
  constructor
  · exact fun h => halways.mp h.1
  · intro h
    refine ⟨halways.mpr h, h.imp hstep (fun sys e _ hfit s buf ht => ?_) hnew⟩
    intro item oldItem hconcat
    by_contra hlen
    refine hfit s buf ht ⟨item, oldItem, hconcat, ?_⟩
    unfold valueLimit
    omega

/-- A value of 1 MiB is set, and one byte is appended to it. -/
theorem append_outgrows_limit :
    ∃ n, ¬ Always (step List.length) Limited (new 0 : System Unit)
      (.connect () :: .arrive () (setLine (ascii "k") 0 0 (1024 * 1024) ++ ascii "\r\n" ++
        List.replicate (1024 * 1024) 97 ++ ascii "\r\nappend k 0 0 1\r\na\r\n") ::
        List.replicate n (.round ())) := by
  obtain ⟨s, hs, howner, hstate, hreset, hneedle, hconn, hbuf⟩ :=
    Session.makeSession_spec (new 0 : System Unit).server
  have hready : s.Ready := ⟨hstate, hreset, hneedle, hconn ▸ rfl, hbuf⟩
  have hkey : KeyOk (ascii "k") := ⟨by decide +kernel, by decide +kernel, by decide +kernel⟩
  obtain ⟨v, hv⟩ : ∃ v, v = List.replicate (1024 * 1024) (97 : UInt8) := ⟨_, rfl⟩
  have hlen : v.length = 1024 * 1024 := hv ▸ List.length_replicate
  rw [← hv, ← hlen]
  -- the set
  obtain ⟨s₁, a, hs₁, ha, howner₁, -, hset⟩ : ∃ (s' : Session) (a : Item), s'.Ready ∧
      Session.Holds a (ascii "k") 0 v ∧ s'.owner = s.owner.put List.length a ∧ _ ∧
      s.onMessage List.length (setLine (ascii "k") 0 0 v.length ++ 13 :: 10 ::
        (v ++ 13 :: 10 :: ascii "append k 0 0 1\r\na\r\n")) = _ :=
    Session.onMessage_set hready hkey (by decide) (by omega) _
  have hcrlf : a.endsWithCRLF = true :=
    (endsWithCRLF_of_value (by rw [ha.value, ha.valuelen]; simp) ha.value).1
  have hlimit : WithinLimit List.length s₁.owner := by
    have hnew : WithinLimit List.length s.owner := by
      rw [howner]
      exact ⟨nofun, nofun, nofun⟩
    rw [howner₁]
    refine hnew.put hcrlf ?_
    rw [ha.valuelen, hlen]
    decide
  have hold : s₁.owner.lookup List.length (ascii "k") = some a := by
    rw [howner₁, MemcacheServer.lookup_put, if_pos ha.key.symm]
  -- the append
  obtain ⟨s', hs', i, b, hb, hgt⟩ := Session.onMessage_append_byte hs₁ hlimit ha hlen hold
  have hstream : setLine (ascii "k") 0 0 v.length ++ ascii "\r\n" ++ v ++
      ascii "\r\nappend k 0 0 1\r\na\r\n" = setLine (ascii "k") 0 0 v.length ++ 13 :: 10 ::
        (v ++ 13 :: 10 :: ascii "append k 0 0 1\r\na\r\n") := by
    have h₁ : ascii "\r\n" = [13, 10] := by decide
    have h₂ : ascii "\r\nappend k 0 0 1\r\na\r\n" =
      13 :: 10 :: ascii "append k 0 0 1\r\na\r\n" := by decide +kernel
    rw [h₁, h₂]
    simp only [List.append_assoc, List.cons_append, List.nil_append]
  obtain ⟨n, hrun⟩ := run_first hs (hstream ▸ hset.trans hs')
  exact ⟨n, fun h => absurd (h _ List.prefix_rfl _ hrun i b hb) (Nat.not_le.mpr hgt)⟩

end System

end Muduo.Memcached

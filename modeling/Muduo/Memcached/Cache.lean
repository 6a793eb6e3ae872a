import Muduo.Machine.Run
import Muduo.Memcached.Store

/-!
# The store as one map

The calls of any number of sessions, and the map from keys to contents that they see.

## Main results

* `store_refines_map`: as long as no block outgrows an `int` and the ids do not run out, the sharded
  store answers every call as one map from keys to contents and ids does.
-/

namespace Muduo.Memcached

open Machine Item

/-! ### Calls and their replies -/

inductive Op where
  | store (item : Item) (policy : UpdatePolicy)
  | get (key : Item)
  | delete (key : Item)

def Op.key : Op → List UInt8
  | .store item _ => item.key
  | .get key | .delete key => key.key

/-- What a call returns. The second component of `stored` is `*exists`. -/
inductive Reply (α : Type) where
  | stored (result found : Bool)
  | item (a : Option α)
  | deleted (result : Bool)
  deriving DecidableEq

namespace Reply

variable {α β : Type}

def map (f : α → β) : Reply α → Reply β
  | .stored result found => .stored result found
  | .item a => .item (a.map f)
  | .deleted result => .deleted result

/-- The call returned false. -/
def Refused : Reply α → Prop
  | .stored result _ | .deleted result => result = false
  | .item _ => False

/-- The call wrote or erased its key. -/
def Changes : Reply α → Prop
  | .stored result _ | .deleted result => result = true
  | .item _ => False

/-- The call stored an item. -/
def Updates : Reply α → Prop
  | .stored result _ => result = true
  | .deleted _ | .item _ => False

instance : ∀ r : Reply α, Decidable r.Updates
  | .stored _ _ => inferInstanceAs (Decidable (_ = _))
  | .deleted _ | .item _ => inferInstanceAs (Decidable False)

end Reply

def MemcacheServer.call (hash : List UInt8 → ℕ) (server : MemcacheServer) :
    Op → Code (Reply Item × MemcacheServer)
  | .store item policy => do
    let (result, found, server) ← server.storeItem hash item policy
    return (.stored result found, server)
  | .get key => return (.item (server.getItem hash key), server)
  | .delete key =>
    let (result, server) := server.deleteItem hash key
    return (.deleted result, server)

/-- A call made by one of the sessions. -/
structure Call where
  session : ℕ
  op : Op

/-- A store and the calls it has answered. -/
structure History where
  server : MemcacheServer
  log : List (Call × Reply Item)

namespace History

def new (startTime : ℤ) : History := ⟨⟨startTime, fun _ => KeyedSet.empty, 0, 0⟩, []⟩

def step (hash : List UInt8 → ℕ) (h : History) (c : Call) : Code History := do
  let (reply, server) ← h.server.call hash c.op
  return ⟨server, h.log ++ [(c, reply)]⟩

end History

/-! ### Stores and versioned maps

Nothing here depends on what is read off the items: `f` is any function of them. -/

section

variable {V : Type} {hash : List UInt8 → ℕ} {f : Item → V}

/-- The store holds what `m` says, under the ids of `m`. -/
structure Represents (hash : List UInt8 → ℕ) (f : Item → V) (server : MemcacheServer)
    (m : VersionedMap (List UInt8) V) : Prop where
  placed : server.Placed hash
  gCas_eq : server.gCas = m.last
  entry_eq : ∀ k, m.entry k = (server.lookup hash k).map fun a => (a.cas, f a)

namespace Represents

variable {server server' : MemcacheServer} {m : VersionedMap (List UInt8) V} {a : Item}

lemma new (startTime : ℤ) : Represents hash f (History.new startTime).server .empty where
  placed := nofun
  gCas_eq := rfl
  entry_eq _ := rfl

lemma incrementAndGet (h : Represents hash f server m) (hlast : m.last + 1 < 2 ^ 64) :
    server.incrementAndGet.1 = m.last + 1 := by
  change (server.gCas + 1) % 2 ^ 64 = m.last + 1
  rw [h.gCas_eq, Nat.mod_eq_of_lt hlast]

lemma put (h : Represents hash f server m) (hlast : m.last + 1 < 2 ^ 64)
    (ha : a.cas = server.incrementAndGet.1) :
    Represents hash f (server.put hash a) (m.put a.key (f a)) where
  placed := h.placed.put a
  gCas_eq := h.incrementAndGet hlast
  entry_eq k := by
    rw [VersionedMap.entry_put, MemcacheServer.lookup_put]
    split
    · rw [Option.map_some, ha, h.incrementAndGet hlast]
    · exact h.entry_eq k

lemma deleteItem (h : Represents hash f server m) (key : Item) :
    Represents hash f (server.deleteItem hash key).2 (m.remove key.key) where
  placed := h.placed.deleteItem key
  gCas_eq := h.gCas_eq
  entry_eq k := by
    rw [VersionedMap.entry_remove, MemcacheServer.lookup_deleteItem]
    split
    · rfl
    · exact h.entry_eq k

/-- The ids that are stored are distinct and have been given out. -/
lemma cas_le (h : Represents hash f server m) {i : Fin kShards} (ha : a ∈ server.shards i) :
    a.cas ≤ server.gCas := by
  have hentry := h.entry_eq a.key
  rw [(h.placed.mem_iff.mp ha).2] at hentry
  rw [h.gCas_eq]
  exact m.id_le_last hentry

lemma eq_of_key (h : Represents hash f server m) {i j : Fin kShards} {b : Item}
    (ha : a ∈ server.shards i) (hb : b ∈ server.shards j) (hkey : a.key = b.key) : a = b := by
  have hla := (h.placed.mem_iff.mp ha).2
  have hlb := (h.placed.mem_iff.mp hb).2
  rw [hkey, hlb] at hla
  exact (Option.some.inj hla).symm

lemma eq_of_cas (h : Represents hash f server m) {i j : Fin kShards} {b : Item}
    (ha : a ∈ server.shards i) (hb : b ∈ server.shards j) (hcas : a.cas = b.cas) : a = b := by
  have hea := h.entry_eq a.key
  have heb := h.entry_eq b.key
  rw [(h.placed.mem_iff.mp ha).2] at hea
  rw [(h.placed.mem_iff.mp hb).2] at heb
  exact h.eq_of_key ha hb (m.id_injective hea heb hcas)

end Represents

end

/-! ### The reference map -/

/-- What is kept under a key, the value without its CRLF. -/
structure Content where
  flags : UInt32
  exptime : ℤ
  value : List UInt8
  deriving DecidableEq

def Item.content (item : Item) : Content := ⟨item.flags, item.relExptime, item.payload⟩

abbrev Cache := VersionedMap (List UInt8) Content

namespace Cache

/-- The six policies: what is written over the old entry, or nothing if the update is refused. -/
def written (policy : UpdatePolicy) (x : Content) (cas : ℕ) :
    Option (ℕ × Content) → Option Content
  | none =>
    match policy with
    | .kSet | .kAdd => some x
    | _ => none
  | some (id, old) =>
    match policy with
    | .kSet | .kReplace => some x
    | .kAppend => some { old with value := old.value ++ x.value }
    | .kPrepend => some { old with value := x.value ++ old.value }
    | .kCas => if id = cas then some x else none
    | _ => none

def call (m : Cache) : Op → Reply (ℕ × Content) × Cache
  | .store item policy =>
    let old := m.entry item.key
    match written policy item.content item.cas old with
    | some x => (.stored true old.isSome, m.put item.key x)
    | none => (.stored false old.isSome, m)
  | .get key => (.item (m.entry key.key), m)
  | .delete key => (.deleted (m.entry key.key).isSome, m.remove key.key)

/-- The map and its replies so far, after one more call. -/
def step (p : Cache × List (Reply (ℕ × Content))) (c : Call) :
    Cache × List (Reply (ℕ × Content)) :=
  let (reply, m) := call p.1 c.op
  (m, p.2 ++ [reply])

end Cache

/-! ### Append and prepend -/

section

variable {item oldItem : Item} {policy : UpdatePolicy} {cas : ℕ}

/-- The two lengths as the code adds them up. -/
lemma newLen_eq (h : item.valuelen + oldItem.valuelen - 2 < 2 ^ 31) :
    Int.bmod (item.valuelen + oldItem.valuelen - 2) (2 ^ 32) =
      (item.valuelen + oldItem.valuelen - 2 : ℕ) := by
  have hi := item.two_le_valuelen
  have ho := oldItem.two_le_valuelen
  rw [Int.bmod_eq_of_le (by norm_num; omega) (by norm_num; omega)]
  omega

lemma value_of_endsWithCRLF (h : item.endsWithCRLF = true) :
    item.value.take item.valuelen = item.payload ++ [13, 10] ∧
      item.value.take (item.valuelen - 2) = item.payload ∧
      item.payload.length + 2 = item.valuelen := by
  obtain ⟨hcomplete, hvalue⟩ := endsWithCRLF_iff.mp h
  have hlen := complete_iff.mp hcomplete
  have htwo := item.two_le_valuelen
  refine ⟨?_, ?_, ?_⟩
  · rw [← hlen, List.take_length]
    exact hvalue
  · rw [← hlen]
    rfl
  · rw [payload, List.length_take]
    omega

/-- Two values after each other, of which the second ends with CRLF. -/
lemma append_append_spec {newItem : Item} {first second : List UInt8} (hnew : newItem.value = [])
    (hlen : first.length + (second.length + 2) = newItem.valuelen) :
    Yields (do
      let n ← newItem.append first
      let n ← n.append (second ++ [13, 10])
      check .storeNewNeeded (n.neededBytes = 0)
      check .storeNewCRLF (n.endsWithCRLF = true)
      return n : Code Item) fun n =>
        n.key = newItem.key ∧ n.flags = newItem.flags ∧ n.relExptime = newItem.relExptime ∧
        n.cas = newItem.cas ∧ n.endsWithCRLF = true ∧ n.payload = first ++ second := by
  have hroom₁ : first.length ≤ newItem.neededBytes := by
    rw [neededBytes_eq, hnew]
    simp only [List.length_nil]
    omega
  obtain ⟨n₁, h₁, hext₁⟩ := append_spec hroom₁
  have hroom₂ : (second ++ [13, 10]).length ≤ n₁.neededBytes := by
    rw [neededBytes_eq, hext₁.value, hnew, hext₁.valuelen]
    simp only [List.nil_append, List.length_append, List.length_cons, List.length_nil]
    omega
  obtain ⟨n₂, h₂, hext₂⟩ := append_spec hroom₂
  have hvalue : n₂.value = (first ++ second) ++ [13, 10] := by
    rw [hext₂.value, hext₁.value, hnew, List.nil_append, List.append_assoc]
  have hcomplete : n₂.value.length = n₂.valuelen := by
    rw [hvalue, hext₂.valuelen, hext₁.valuelen]
    simp only [List.length_append, List.length_cons, List.length_nil]
    omega
  obtain ⟨hcrlf, hpayload⟩ := endsWithCRLF_of_value hcomplete hvalue
  refine ⟨n₂, ?_, ?_, ?_, ?_, ?_, hcrlf, hpayload⟩
  · have hneeded := neededBytes_eq_zero.mpr (complete_iff.mpr hcomplete)
    simp only [h₁, h₂, ok_bind, check, hneeded, hcrlf, if_true]
    rfl
  · rw [hext₂.key, hext₁.key]
  · rw [hext₂.flags, hext₁.flags]
  · rw [hext₂.relExptime, hext₁.relExptime]
  · rw [hext₂.cas, hext₁.cas]

/-- The value that an append or a prepend writes. -/
lemma concatenate_spec (hitem : item.endsWithCRLF = true) (hold : oldItem.endsWithCRLF = true)
    (hfit : item.key.length + (item.valuelen + oldItem.valuelen - 2) < 2 ^ 31) :
    Yields (concatenate item oldItem policy cas) fun n =>
      n.key = item.key ∧ n.cas = cas ∧ n.endsWithCRLF = true ∧
      n.content = ⟨oldItem.flags, oldItem.relExptime,
        if policy = .kAppend then oldItem.payload ++ item.payload
        else item.payload ++ oldItem.payload⟩ := by
  have htwo := item.two_le_valuelen
  have htwo' := oldItem.two_le_valuelen
  obtain ⟨hi, hi', hilen⟩ := value_of_endsWithCRLF hitem
  obtain ⟨ho, ho', holen⟩ := value_of_endsWithCRLF hold
  obtain ⟨n₀, h₀, hfresh⟩ : Yields (makeItem item.key oldItem.flags oldItem.relExptime
      (item.valuelen + oldItem.valuelen - 2 : ℕ) cas) _ := makeItem_spec (by omega) (by omega)
  have hvaluelen := hfresh.valuelen
  -- in either order the first value loses its CRLF and the second keeps it
  obtain ⟨first, second, hpair, hvalue, hlen⟩ : ∃ first second,
      (if policy = .kAppend then
        (oldItem.value.take (oldItem.valuelen - 2), item.value.take item.valuelen)
      else (item.value.take (item.valuelen - 2), oldItem.value.take oldItem.valuelen)) =
        (first, second ++ [13, 10]) ∧
      (if policy = .kAppend then oldItem.payload ++ item.payload
      else item.payload ++ oldItem.payload) = first ++ second ∧
      first.length + (second.length + 2) = n₀.valuelen := by
    by_cases hp : policy = .kAppend
    · exact ⟨oldItem.payload, item.payload, by rw [if_pos hp, ho', hi], if_pos hp, by omega⟩
    · exact ⟨item.payload, oldItem.payload, by rw [if_neg hp, hi', ho], if_neg hp, by omega⟩
  obtain ⟨n, hn, hkey, hflags, hexp, hcas, hcrlf, hpayload⟩ :=
    append_append_spec hfresh.value hlen
  refine ⟨n, ?_, hkey.trans hfresh.key, hcas.trans hfresh.cas, hcrlf, ?_⟩
  · unfold concatenate
    dsimp only
    rw [newLen_eq (by omega), h₀, ok_bind, hpair]
    exact hn
  · rw [hvalue, content, hflags, hexp, hpayload, hfresh.flags, hfresh.relExptime]

/-! ### One call -/

/-- An item as it is seen: its id and its content. -/
def view (item : Item) : ℕ × Content := (item.cas, item.content)

lemma update_spec {old : Option Item} (cas : ℕ) (hitem : item.endsWithCRLF = true)
    (hpolicy : policy ≠ .kInvalid)
    (hold : ∀ oldItem ∈ old, oldItem.endsWithCRLF = true ∧
      ((policy = .kAppend ∨ policy = .kPrepend) →
        item.key.length + (item.valuelen + oldItem.valuelen - 2) < 2 ^ 31)) :
    Yields (update item policy old cas) fun new =>
      new.map Item.content = Cache.written policy item.content item.cas (old.map view) ∧
      ∀ a ∈ new, a.key = item.key ∧ a.cas = cas ∧ a.endsWithCRLF = true := by
  have hset : ∀ a ∈ some (item.setCas cas),
      a.key = item.key ∧ a.cas = cas ∧ a.endsWithCRLF = true := by
    rintro _ ⟨⟩
    exact ⟨rfl, rfl, hitem⟩
  cases policy with
  | kInvalid => exact absurd rfl hpolicy
  | kSet =>
    cases old <;> exact ⟨_, rfl, rfl, hset⟩
  | kAdd =>
    cases old with
    | none => exact ⟨_, rfl, rfl, hset⟩
    | some oldItem => exact ⟨_, rfl, rfl, nofun⟩
  | kReplace =>
    cases old with
    | none => exact ⟨_, rfl, rfl, nofun⟩
    | some oldItem => exact ⟨_, rfl, rfl, hset⟩
  | kAppend | kPrepend =>
    cases old with
    | none => exact ⟨_, rfl, rfl, nofun⟩
    | some oldItem =>
      obtain ⟨hcrlf, hfit⟩ := hold oldItem rfl
      obtain ⟨n, hn, hkey, hcas, hcrlf', hcontent⟩ :=
        concatenate_spec hitem hcrlf (hfit (by simp))
      refine ⟨some n, ?_, ?_, ?_⟩
      · rw [update, hn]
        rfl
      · exact congrArg some hcontent
      · rintro _ ⟨⟩
        exact ⟨hkey, hcas, hcrlf'⟩
  | kCas =>
    cases old with
    | none => exact ⟨_, rfl, rfl, nofun⟩
    | some oldItem =>
      refine ⟨_, rfl, ?_, ?_⟩
      · simp only [Cache.written, view, Option.map_some]
        split <;> rfl
      · split
        · exact hset
        · nofun

/-- The items that are stored: complete, ending with CRLF, under one of the six policies. -/
def Op.WellFormed : Op → Prop
  | .store item policy => item.endsWithCRLF = true ∧ policy ≠ .kInvalid
  | .get _ | .delete _ => True

/-- What an update needs: a new id, and room for a concatenation in one block. -/
def Op.Fits (hash : List UInt8 → ℕ) (server : MemcacheServer) : Op → Prop
  | .store item policy => server.gCas + 1 < 2 ^ 64 ∧
    ((policy = .kAppend ∨ policy = .kPrepend) → ∀ oldItem ∈ server.lookup hash item.key,
      item.key.length + (item.valuelen + oldItem.valuelen - 2) < 2 ^ 31)
  | .get _ | .delete _ => True

instance : ∀ op : Op, Decidable op.WellFormed
  | .store _ _ => inferInstanceAs (Decidable (_ ∧ _))
  | .get _ | .delete _ => inferInstanceAs (Decidable True)

instance (hash : List UInt8 → ℕ) (server : MemcacheServer) :
    ∀ op : Op, Decidable (op.Fits hash server)
  | .store _ _ => inferInstanceAs (Decidable (_ ∧ (_ → ∀ _ ∈ _, _)))
  | .get _ | .delete _ => inferInstanceAs (Decidable True)

variable {hash : List UInt8 → ℕ} {server : MemcacheServer} {m : Cache}

/-- Everything stored ends with CRLF. -/
def Terminated (hash : List UInt8 → ℕ) (server : MemcacheServer) : Prop :=
  ∀ k, ∀ a ∈ server.lookup hash k, a.endsWithCRLF = true

lemma Terminated.put (h : Terminated hash server) {a : Item} (ha : a.endsWithCRLF = true) :
    Terminated hash (server.put hash a) := by
  intro k b hb
  rw [MemcacheServer.lookup_put] at hb
  split at hb
  · cases hb
    exact ha
  · exact h k b hb

lemma Terminated.deleteItem (h : Terminated hash server) (key : Item) :
    Terminated hash (server.deleteItem hash key).2 := by
  intro k a ha
  rw [MemcacheServer.lookup_deleteItem] at ha
  split at ha
  · cases ha
  · exact h k a ha

lemma Represents.entry_view (h : Represents hash content server m) (k : List UInt8) :
    m.entry k = (server.lookup hash k).map view := h.entry_eq k

/-- Each call does to the store what it does to the map. -/
lemma Represents.call (h : Represents hash content server m) (hterm : Terminated hash server)
    {op : Op} (hwf : op.WellFormed) (hfit : op.Fits hash server) :
    Yields (server.call hash op) fun p => p.1.map view = (Cache.call m op).1 ∧
      Represents hash content p.2 (Cache.call m op).2 ∧ Terminated hash p.2 := by
  cases op with
  | get key =>
    refine ⟨_, rfl, ?_, h, hterm⟩
    rw [Cache.call, h.entry_view]
    rfl
  | delete key =>
    refine ⟨(.deleted (server.deleteItem hash key).1, (server.deleteItem hash key).2), rfl, ?_,
      h.deleteItem key, hterm.deleteItem key⟩
    rw [Cache.call, h.entry_view, Option.isSome_map]
    exact congrArg Reply.deleted (MemcacheServer.deleteItem_eq key)
  | store item policy =>
    obtain ⟨hitem, hpolicy⟩ := hwf
    obtain ⟨hcas, hfit⟩ := hfit
    have hneeded : item.neededBytes = 0 := neededBytes_eq_zero.mpr (endsWithCRLF_iff.mp hitem).1
    obtain ⟨new, hnew, hwritten, hstored⟩ :=
      update_spec server.incrementAndGet.1 hitem hpolicy
        (fun oldItem hold => ⟨hterm _ oldItem hold, fun hp => hfit hp oldItem hold⟩)
    have hcall : server.call hash (.store item policy) =
        .ok (.stored new.isSome (server.lookup hash item.key).isSome,
          new.elim server (server.put hash)) := by
      rw [MemcacheServer.call, MemcacheServer.storeItem_eq]
      simp only [check, hneeded, if_true, ok_bind, hnew]
      rfl
    refine ⟨_, hcall, ?_⟩
    simp only [Cache.call, h.entry_view, Option.isSome_map, ← hwritten]
    cases new with
    | none => exact ⟨rfl, h, hterm⟩
    | some a =>
      obtain ⟨hkey, hid, hcrlf⟩ := hstored a rfl
      refine ⟨rfl, ?_, hterm.put hcrlf⟩
      rw [← hkey]
      exact h.put (h.gCas_eq ▸ hcas) hid

/-- A call that returns false changes nothing. -/
lemma call_refused {op : Op} {r : Reply Item} {server' : MemcacheServer}
    (h : server.call hash op = .ok (r, server')) (hr : r.Refused) : server' = server := by
  cases op with
  | get key =>
    cases h
    rfl
  | delete key =>
    cases h
    exact MemcacheServer.deleteItem_of_false hr
  | store item policy =>
    rw [MemcacheServer.call, MemcacheServer.storeItem_eq] at h
    simp only [bind_eq_ok] at h
    obtain ⟨_, ⟨-, -, new, -, h'⟩, h⟩ := h
    cases h'
    cases h
    cases new with
    | none => rfl
    | some a => cases hr

/-! ### Runs -/

/-- What holds between a run of the store and the run of the map. -/
structure Follows (hash : List UInt8 → ℕ) (h : History)
    (p : Cache × List (Reply (ℕ × Content))) : Prop where
  represents : Represents hash content h.server p.1
  terminated : Terminated hash h.server
  replies : (h.log.map fun r => r.2.map view) = p.2

lemma Follows.step {h : History} {p : Cache × List (Reply (ℕ × Content))} {c : Call}
    (hf : Follows hash h p) (hc : c.op.WellFormed ∧ c.op.Fits hash h.server) :
    Yields (h.step hash c) fun h' => Follows hash h' (Cache.step p c) := by
  obtain ⟨⟨r, server'⟩, hcall, hr, hrep, hterm⟩ := hf.represents.call hf.terminated hc.1 hc.2
  refine ⟨⟨server', h.log ++ [(c, r)]⟩, ?_, hrep, hterm, ?_⟩
  · rw [History.step, hcall]
    rfl
  · rw [List.map_append, hf.replies, List.map_singleton, hr]
    rfl

end

/-- The store answers as one map does. -/
theorem store_refines_map (hash : List UInt8 → ℕ) (startTime : ℤ) (calls : List Call)
    (hcalls : Along (History.step hash) (fun h c => c.op.WellFormed ∧ c.op.Fits hash h.server)
      (History.new startTime) calls) :
    Yields (run (History.step hash) (History.new startTime) calls) fun h =>
      let (m, replies) := calls.foldl Cache.step (.empty, [])
      -- the results and the visible contents are those of the map
      (h.log.map fun r => r.2.map view) = replies ∧
      (∀ key, (h.server.getItem hash key).map view = m.entry key.key) ∧
      -- a call that returns false leaves the store unchanged
      (∀ op r server', h.server.call hash op = .ok (r, server') → r.Refused → server' = h.server) ∧
      -- every item sits in its shard, with no other under its key or its id
      (∀ i, ∀ a ∈ h.server.shards i, shardOf hash a.key = i ∧ a.endsWithCRLF = true ∧
        a.cas ≤ h.server.gCas) ∧
      (∀ i j, ∀ a ∈ h.server.shards i, ∀ b ∈ h.server.shards j,
        (a.key = b.key ∨ a.cas = b.cas) → a = b) := by
  have hnew : Follows hash (History.new startTime) (.empty, []) := ⟨.new startTime, nofun, rfl⟩
  obtain ⟨h, hrun, hf⟩ := run_follows_yields (fun _ _ _ hf hc => hf.step hc) hnew hcalls
  have hrep := hf.represents
  refine ⟨h, hrun, hf.replies, ?_, fun op r server' => call_refused, ?_, ?_⟩
  · intro key
    rw [MemcacheServer.getItem_eq, hrep.entry_view]
  · intro i a ha
    exact ⟨hrep.placed i a ha, hf.terminated _ a (hrep.placed.mem_iff.mp ha).2, hrep.cas_le ha⟩
  · rintro i j a ha b hb (hkey | hcas)
    · exact hrep.eq_of_key ha hb hkey
    · exact hrep.eq_of_cas ha hb hcas

/-- A complete item. -/
def Item.ofPayload (k : List UInt8) (flags : UInt32) (relExptime : ℤ) (cas : ℕ) (v : List UInt8)
    (h : k.length + (v.length + 2) < 2 ^ 31) : Item where
  keylen := k.length
  flags := flags
  relExptime := relExptime
  valuelen := v.length + 2
  cas := cas
  data := k ++ (v ++ [13, 10])
  two_le_valuelen := Nat.le_add_left ..
  keylen_le := by rw [List.length_append]; exact Nat.le_add_right ..
  data_le := by rw [List.length_append, List.length_append]; exact le_refl _
  total_lt := h

/-- Two sessions: a set, an append, a swap under an old id, a swap under the current one. -/
def swapCalls : List Call :=
  let needle := Item.ofPayload [107] 0 0 0 [] (by decide)
  [⟨0, .store (.ofPayload [107] 5 0 0 [97] (by decide)) .kSet⟩, ⟨1, .get needle⟩,
    ⟨0, .store (.ofPayload [107] 6 0 0 [98] (by decide)) .kAppend⟩,
    ⟨1, .store (.ofPayload [107] 7 0 1 [99] (by decide)) .kCas⟩, ⟨1, .get needle⟩,
    ⟨1, .store (.ofPayload [107] 7 0 2 [99] (by decide)) .kCas⟩, ⟨0, .delete needle⟩,
    ⟨0, .delete needle⟩]

theorem store_refines_map_swap :
    Along (History.step List.length)
        (fun h c => c.op.WellFormed ∧ c.op.Fits List.length h.server) (History.new 0) swapCalls ∧
      Yields (run (History.step List.length) (History.new 0) swapCalls) fun h =>
        (h.log.map fun r => r.2.map view) =
          [.stored true false, .item (some (1, ⟨5, 0, [97]⟩)), .stored true true,
            .stored false true, .item (some (2, ⟨5, 0, [97, 98]⟩)), .stored true true,
            .deleted true, .deleted false] := by
  have hcalls : Along (History.step List.length)
      (fun h c => c.op.WellFormed ∧ c.op.Fits List.length h.server) (History.new 0) swapCalls := by
    decide +kernel
  obtain ⟨h, hrun, hreplies, -⟩ := store_refines_map List.length 0 swapCalls hcalls
  exact ⟨hcalls, h, hrun, hreplies.trans (by decide +kernel)⟩

/-! ### Where the lengths and the ids end

`valuelen` of the new item may fit an `int` while `totalLen()` does not, and `g_cas` starts again
after `2 ^ 64` updates. -/

/-- The length of a concatenated value stays below `2 ^ 31`. -/
def Op.ValueFits (hash : List UInt8 → ℕ) (server : MemcacheServer) : Op → Prop
  | .store item policy => (policy = .kAppend ∨ policy = .kPrepend) →
    ∀ oldItem ∈ server.lookup hash item.key, item.valuelen + oldItem.valuelen - 2 < 2 ^ 31
  | .get _ | .delete _ => True

section

variable {hash : List UInt8 → ℕ} {h : History} {item oldItem : Item} {policy : UpdatePolicy} {s : ℕ}

lemma endsWithCRLF_ofPayload {k : List UInt8} {flags : UInt32} {relExptime : ℤ} {cas : ℕ}
    {v : List UInt8} (hlen : k.length + (v.length + 2) < 2 ^ 31) :
    (Item.ofPayload k flags relExptime cas v hlen).endsWithCRLF = true := by
  have hvalue : (Item.ofPayload k flags relExptime cas v hlen).value = v ++ [13, 10] :=
    List.drop_left
  refine (endsWithCRLF_of_value ?_ hvalue).1
  rw [hvalue, List.length_append]
  rfl

lemma key_ofPayload {k : List UInt8} {flags : UInt32} {relExptime : ℤ} {cas : ℕ}
    {v : List UInt8} (hlen : k.length + (v.length + 2) < 2 ^ 31) :
    (Item.ofPayload k flags relExptime cas v hlen).key = k := List.take_left

lemma concatenate_overflows {cas : ℕ} (hlt : item.valuelen + oldItem.valuelen - 2 < 2 ^ 31)
    (hge : 2 ^ 31 ≤ item.key.length + (item.valuelen + oldItem.valuelen - 2)) :
    concatenate item oldItem policy cas = .error (.failed .itemTotalLen) := by
  have hi := item.two_le_valuelen
  have ho := oldItem.two_le_valuelen
  unfold concatenate
  dsimp only
  rw [newLen_eq hlt, makeItem, dif_pos (by omega), dif_neg (by omega)]
  rfl

lemma step_set (hitem : item.endsWithCRLF = true) :
    Yields (h.step hash ⟨s, .store item .kSet⟩) fun h' =>
      h'.server = h.server.put hash (item.setCas h.server.incrementAndGet.1) := by
  have hneeded : item.neededBytes = 0 := neededBytes_eq_zero.mpr (endsWithCRLF_iff.mp hitem).1
  refine ⟨⟨h.server.put hash (item.setCas h.server.incrementAndGet.1),
    h.log ++ [(⟨s, .store item .kSet⟩, .stored true (h.server.lookup hash item.key).isSome)]⟩,
    ?_, rfl⟩
  rw [History.step, MemcacheServer.call, MemcacheServer.storeItem_eq]
  simp only [check, hneeded, if_true]
  rfl

lemma step_append_fails (hitem : item.endsWithCRLF = true)
    (hold : h.server.lookup hash item.key = some oldItem)
    (hlt : item.valuelen + oldItem.valuelen - 2 < 2 ^ 31)
    (hge : 2 ^ 31 ≤ item.key.length + (item.valuelen + oldItem.valuelen - 2)) :
    h.step hash ⟨s, .store item .kAppend⟩ = .error (.failed .itemTotalLen) := by
  have hneeded : item.neededBytes = 0 := neededBytes_eq_zero.mpr (endsWithCRLF_iff.mp hitem).1
  rw [History.step, MemcacheServer.call, MemcacheServer.storeItem_eq]
  simp only [check, hneeded, if_true, ok_bind, hold, update, concatenate_overflows hlt hge]
  rfl

/-- Setting one key again and again. -/
lemma run_sets (hitem : item.endsWithCRLF = true) (s n : ℕ) (h : History)
    (hcas : h.server.gCas < 2 ^ 64) :
    ∃ h', run (History.step hash) h (List.replicate n ⟨s, .store item .kSet⟩) = .ok h' ∧
      h'.server.gCas = (h.server.gCas + n) % 2 ^ 64 ∧
      ∀ k, k ≠ item.key → h'.server.lookup hash k = h.server.lookup hash k := by
  induction n generalizing h with
  | zero => exact ⟨h, rfl, (Nat.mod_eq_of_lt hcas).symm, fun _ _ => rfl⟩
  | succ n ih =>
    obtain ⟨h₁, hstep, hserver⟩ : Yields (h.step hash ⟨s, .store item .kSet⟩) _ := step_set hitem
    have hcas₁ : h₁.server.gCas = (h.server.gCas + 1) % 2 ^ 64 := by
      rw [hserver]
      rfl
    obtain ⟨h', hrun, hcas', hlookup⟩ := ih h₁ (hcas₁ ▸ Nat.mod_lt _ (by norm_num))
    refine ⟨h', ?_, ?_, fun k hk => ?_⟩
    · rw [List.replicate_succ, run_cons, hstep]
      exact hrun
    · rw [hcas', hcas₁, Nat.mod_add_mod, add_assoc, add_comm 1 n]
    · rw [hlookup k hk, hserver, MemcacheServer.lookup_put, key_setCas, if_neg hk]

lemma append_outgrows_block {item' : Item} (hitem : item.endsWithCRLF = true)
    (hitem' : item'.endsWithCRLF = true) (hkey : item'.key = item.key)
    (hlt : item'.valuelen + item.valuelen - 2 < 2 ^ 31)
    (hge : 2 ^ 31 ≤ item'.key.length + (item'.valuelen + item.valuelen - 2)) (startTime : ℤ) :
    ∃ calls, Along (History.step hash) (fun h c => c.op.WellFormed ∧ c.op.ValueFits hash h.server)
        (History.new startTime) calls ∧
      failure (run (History.step hash) (History.new startTime) calls) = some .itemTotalLen := by
  obtain ⟨h₁, hstep, hserver⟩ :
      Yields ((History.new startTime).step hash ⟨0, .store item .kSet⟩) _ := step_set hitem
  have hold := hserver ▸ MemcacheServer.lookup_put _ item'.key
  rw [key_setCas, if_pos hkey] at hold
  have hfail : h₁.step hash ⟨0, .store item' .kAppend⟩ = .error (.failed .itemTotalLen) := by
    refine step_append_fails hitem' hold ?_ ?_
    · exact hlt
    · exact hge
  refine ⟨[⟨0, .store item .kSet⟩, ⟨0, .store item' .kAppend⟩], ⟨⟨⟨hitem, nofun⟩, nofun⟩, ?_⟩, ?_⟩
  · rw [hstep]
    refine ⟨⟨⟨hitem', nofun⟩, fun _ oldItem h => ?_⟩, ?_⟩
    · cases hold.symm.trans h
      exact hlt
    · rw [hfail]
      trivial
  · rw [run_cons, hstep, ok_bind, run_cons, hfail]
    rfl

lemma sets_exhaust_ids {item' : Item} (hitem : item.endsWithCRLF = true)
    (hitem' : item'.endsWithCRLF = true) (hkey : item.key ≠ item'.key) (startTime : ℤ) :
    ∃ calls, Along (History.step hash) (fun h c => c.op.WellFormed ∧ c.op.ValueFits hash h.server)
        (History.new startTime) calls ∧
      Yields (run (History.step hash) (History.new startTime) calls) fun h =>
        ∃ i, ∃ a ∈ h.server.shards i, h.server.gCas < a.cas := by
  obtain ⟨h₁, hstep, hserver⟩ :
      Yields ((History.new startTime).step hash ⟨0, .store item .kSet⟩) _ := step_set hitem
  have hcas₁ : h₁.server.gCas = 1 := by
    rw [hserver]
    rfl
  obtain ⟨n, hn⟩ : ∃ n, 1 + n = 2 ^ 64 := ⟨2 ^ 64 - 1, by norm_num⟩
  obtain ⟨h, hrun, hcas, hlookup⟩ := run_sets hitem' 0 n h₁ (hcas₁ ▸ by norm_num)
  have hitem₁ := hlookup item.key hkey
  rw [hserver, MemcacheServer.lookup_put, key_setCas, if_pos rfl] at hitem₁
  refine ⟨⟨0, .store item .kSet⟩ :: List.replicate n ⟨0, .store item' .kSet⟩,
    along_of_forall ?_ _, h, ?_, shardOf hash item.key, _,
    (KeyedSet.find?_eq_some.mp hitem₁).1, ?_⟩
  · intro c hc s
    rcases List.mem_cons.mp hc with rfl | hc
    · exact ⟨⟨hitem, nofun⟩, nofun⟩
    · rw [List.eq_of_mem_replicate hc]
      exact ⟨⟨hitem', nofun⟩, nofun⟩
  · rw [run_cons, hstep, ok_bind]
    exact hrun
  · rw [hcas, hcas₁, hn, Nat.mod_self]
    exact Nat.one_pos

end

/-- The length of the values alone does not keep the constructor of `Item` from failing, and after
`2 ^ 64` updates a stored id is above `g_cas`. -/
theorem store_runs_out :
    (∃ calls, Along (History.step List.length)
        (fun h c => c.op.WellFormed ∧ c.op.ValueFits List.length h.server)
        (History.new 0) calls ∧
      failure (run (History.step List.length) (History.new 0) calls) = some .itemTotalLen) ∧
    (∃ calls, Along (History.step List.length)
        (fun h c => c.op.WellFormed ∧ c.op.ValueFits List.length h.server)
        (History.new 0) calls ∧
      Yields (run (History.step List.length) (History.new 0) calls) fun h =>
        ∃ i, ∃ a ∈ h.server.shards i, h.server.gCas < a.cas) := by
  constructor
  · -- a value of `2 ^ 31 - 1` bytes with its CRLF, under a key of one byte
    obtain ⟨v, hv⟩ : ∃ v : List UInt8, v.length = 2 ^ 30 := ⟨.replicate _ 97, List.length_replicate⟩
    obtain ⟨w, hw⟩ : ∃ w : List UInt8, w.length = 2 ^ 30 - 3 :=
      ⟨.replicate _ 97, List.length_replicate⟩
    have hvk : ([107] : List UInt8).length + (v.length + 2) < 2 ^ 31 := by rw [hv]; decide
    have hwk : ([107] : List UInt8).length + (w.length + 2) < 2 ^ 31 := by rw [hw]; decide
    have hlen : w.length + 2 + (v.length + 2) - 2 = 2 ^ 31 - 1 := by rw [hv, hw]; norm_num
    let item := Item.ofPayload [107] 0 0 0 v hvk
    let item' := Item.ofPayload [107] 0 0 0 w hwk
    have hkey : item.key = [107] := key_ofPayload hvk
    have hkey' : item'.key = [107] := key_ofPayload hwk
    refine append_outgrows_block (endsWithCRLF_ofPayload hvk) (endsWithCRLF_ofPayload hwk)
      (hkey'.trans hkey.symm) ?_ ?_ 0
    · exact hlen.trans_lt (by norm_num)
    · rw [hkey']
      change 2 ^ 31 ≤ 1 + (w.length + 2 + (v.length + 2) - 2)
      rw [hlen]
      norm_num
  · have hitem : (Item.ofPayload [107] 0 0 0 [] (by decide)).endsWithCRLF = true := rfl
    have hitem' : (Item.ofPayload [108] 0 0 0 [] (by decide)).endsWithCRLF = true := rfl
    exact sets_exhaust_ids hitem hitem' (by decide) 0

end Muduo.Memcached

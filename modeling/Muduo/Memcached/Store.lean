import Muduo.Machine.KeyedSet
import Muduo.Machine.VersionedMap
import Muduo.Memcached.Item

/-!
# The store

`storeItem`, `getItem` and `deleteItem` of `memcached/server/MemcacheServer.cc`. The items are
spread over shards by the hash of their key; each call holds the lock of its shard from its first
access to its last, so a call is one step. `boost::hash_range` is the parameter `hash`.

A call that changes the store is one `put`, and what it puts is said by `update`.
-/

namespace Muduo.Memcached

open Machine Item

def kShards : ℕ := 4096

/-- The part of `MemcacheServer` that sessions use, with the global `g_cas`. -/
structure MemcacheServer where
  startTime : ℤ
  shards : Fin kShards → KeyedSet Item.key
  gCas : ℕ
  /-- How often `stop()` was called: each time the loop quits three seconds later. -/
  stops : ℕ

/-- `g_cas.incrementAndGet()`: the counter is an `int64_t`, ids are `uint64_t`. -/
def MemcacheServer.incrementAndGet (server : MemcacheServer) : ℕ × MemcacheServer :=
  let gCas := (server.gCas + 1) % 2 ^ 64
  (gCas, { server with gCas })

variable (hash : List UInt8 → ℕ)

def shardOf (k : List UInt8) : Fin kShards := ⟨hash k % kShards, Nat.mod_lt _ (by decide)⟩

/-- The new item of an append or a prepend. `newLen` is cast to `int`. -/
def concatenate (item oldItem : Item) (policy : UpdatePolicy) (cas : ℕ) : Code Item := do
  let newLen := Int.bmod (item.valuelen + oldItem.valuelen - 2) (2 ^ 32)
  let newItem ← makeItem item.key oldItem.flags oldItem.relExptime newLen cas
  let (first, second) :=
    if policy = .kAppend then
      (oldItem.value.take (oldItem.valuelen - 2), item.value.take item.valuelen)
    else
      (item.value.take (item.valuelen - 2), oldItem.value.take oldItem.valuelen)
  let newItem ← newItem.append first
  let newItem ← newItem.append second
  check .storeNewNeeded (newItem.neededBytes = 0)
  check .storeNewCRLF (newItem.endsWithCRLF = true)
  return newItem

namespace MemcacheServer

variable (server : MemcacheServer)

def items (k : List UInt8) : KeyedSet Item.key := server.shards (shardOf hash k)

def setItems (k : List UInt8) (items : KeyedSet Item.key) : MemcacheServer :=
  { server with shards := Function.update server.shards (shardOf hash k) items }

/-- `storeItem`: what it returns, `*exists`, and the store after it. -/
def storeItem (item : Item) (policy : UpdatePolicy) : Code (Bool × Bool × MemcacheServer) := do
  check .storeNeeded (item.neededBytes = 0)
  let items := server.items hash item.key
  let it := items.find? item.key
  match policy with
  | .kSet =>
    let (cas, server) := server.incrementAndGet
    let items := if it.isSome then (items.erase item.key).1 else items
    return (true, it.isSome, server.setItems hash item.key (items.insert (item.setCas cas)))
  | .kAdd =>
    if it.isSome then
      return (false, true, server)
    else
      let (cas, server) := server.incrementAndGet
      return (true, false, server.setItems hash item.key (items.insert (item.setCas cas)))
  | .kReplace =>
    if it.isSome then
      let (cas, server) := server.incrementAndGet
      let items := (items.erase item.key).1
      return (true, true, server.setItems hash item.key (items.insert (item.setCas cas)))
    else
      return (false, false, server)
  | .kAppend | .kPrepend =>
    match it with
    | some oldItem =>
      let (cas, server) := server.incrementAndGet
      let newItem ← concatenate item oldItem policy cas
      let items := (items.erase item.key).1
      return (true, true, server.setItems hash item.key (items.insert newItem))
    | none => return (false, false, server)
  | .kCas =>
    match it with
    | some oldItem =>
      if oldItem.cas = item.cas then
        let (cas, server) := server.incrementAndGet
        let items := (items.erase item.key).1
        return (true, true, server.setItems hash item.key (items.insert (item.setCas cas)))
      else
        return (false, true, server)
    | none => return (false, false, server)
  | .kInvalid => .error (.failed .storePolicy)

def getItem (key : Item) : Option Item := (server.items hash key.key).find? key.key

def stop : MemcacheServer := { server with stops := server.stops + 1 }

def deleteItem (key : Item) : Bool × MemcacheServer :=
  let (items, n) := (server.items hash key.key).erase key.key
  (n = 1, server.setItems hash key.key items)

/-! ### What a call puts in the store -/

/-- The item under a key. -/
def lookup (k : List UInt8) : Option Item := (server.items hash k).find? k

/-- The store with `item` in the place of what was under its key. -/
def put (item : Item) : MemcacheServer :=
  server.incrementAndGet.2.setItems hash item.key
    (((server.items hash item.key).erase item.key).1.insert item)

end MemcacheServer

/-- What an update puts in the place of the old item. -/
def update (item : Item) (policy : UpdatePolicy) (old : Option Item) (cas : ℕ) :
    Code (Option Item) :=
  match policy, old with
  | .kSet, _ | .kAdd, none | .kReplace, some _ => return some (item.setCas cas)
  | .kAppend, some oldItem | .kPrepend, some oldItem => some <$> concatenate item oldItem policy cas
  | .kCas, some oldItem => return if oldItem.cas = item.cas then some (item.setCas cas) else none
  | .kAdd, some _ | .kReplace, none | .kAppend, none | .kPrepend, none | .kCas, none => return none
  | .kInvalid, _ => .error (.failed .storePolicy)

section

variable {hash} {server server' : MemcacheServer} {item oldItem newItem a : Item}
  {policy : UpdatePolicy} {cas : ℕ}

lemma concatenate_ok (h : concatenate item oldItem policy cas = .ok newItem) :
    newItem.key = item.key ∧ newItem.cas = cas := by
  simp only [concatenate, bind_eq_ok] at h
  obtain ⟨n₀, h₀, n₁, h₁, n₂, h₂, -, -, -, -, h⟩ := h
  cases h
  have hfresh := makeItem_fresh h₀
  have hext₁ := append_extends h₁
  have hext₂ := append_extends h₂
  exact ⟨by rw [hext₂.key, hext₁.key, hfresh.key], by rw [hext₂.cas, hext₁.cas, hfresh.cas]⟩

lemma update_ok {old new : Option Item} (h : update item policy old cas = .ok new) :
    ∀ a ∈ new, a.key = item.key ∧ a.cas = cas := by
  have hconcat : ∀ p oldItem, some <$> concatenate item oldItem p cas = .ok new →
      ∀ a ∈ new, a.key = item.key ∧ a.cas = cas := by
    intro p oldItem h
    obtain ⟨newItem, hnew, rfl⟩ := map_eq_ok.mp h
    rintro _ ⟨⟩
    exact concatenate_ok hnew
  have hset : ∀ a, some (item.setCas cas) = some a → a.key = item.key ∧ a.cas = cas := by
    rintro _ ⟨⟩
    exact ⟨rfl, rfl⟩
  revert h
  fun_cases update item policy old cas
  case case4 oldItem | case5 oldItem => exact hconcat _ oldItem
  case case6 oldItem =>
    rintro ⟨⟩
    split
    · exact hset
    · nofun
  case case1 | case2 | case3 =>
    rintro ⟨⟩
    exact hset
  case case12 => nofun
  all_goals
    rintro ⟨⟩
    nofun

namespace MemcacheServer

lemma getItem_eq (key : Item) : server.getItem hash key = server.lookup hash key.key := rfl

lemma storeItem_eq (item : Item) (policy : UpdatePolicy) :
    server.storeItem hash item policy = do
      check .storeNeeded (item.neededBytes = 0)
      let old := server.lookup hash item.key
      let new ← update item policy old server.incrementAndGet.1
      return (new.isSome, old.isSome, new.elim server (server.put hash)) := by
  unfold storeItem
  congr 1
  funext _
  dsimp only
  cases hit : (server.items hash item.key).find? item.key with
  | none =>
    have hold : server.lookup hash item.key = none := hit
    have hitems := KeyedSet.erase_of_find?_eq_none hit
    cases policy with
    | kSet | kAdd => simp [update, put, hitems, hold]
    | kReplace | kAppend | kPrepend | kCas | kInvalid => simp [update, hold]
  | some oldItem =>
    have hold : server.lookup hash item.key = some oldItem := hit
    cases policy with
    | kSet | kReplace => simp [update, put, hold]
    | kAdd | kInvalid => simp [update, hold]
    | kAppend =>
      simp only [update, hold]
      cases hnew : concatenate item oldItem .kAppend server.incrementAndGet.1 with
      | ok newItem => simp [put, (concatenate_ok hnew).1]
      | error e => rfl
    | kPrepend =>
      simp only [update, hold]
      cases hnew : concatenate item oldItem .kPrepend server.incrementAndGet.1 with
      | ok newItem => simp [put, (concatenate_ok hnew).1]
      | error e => rfl
    | kCas =>
      by_cases hcas : oldItem.cas = item.cas
      · simp [update, put, hold, hcas]
      · simp [update, hold, hcas]

/-! ### Keys and shards -/

/-- Every item sits in the shard of its hash. -/
def Placed (hash : List UInt8 → ℕ) (server : MemcacheServer) : Prop :=
  ∀ i, ∀ a ∈ server.shards i, shardOf hash a.key = i

lemma Placed.mem_iff (h : server.Placed hash) {i : Fin kShards} :
    a ∈ server.shards i ↔ shardOf hash a.key = i ∧ server.lookup hash a.key = some a := by
  constructor
  · intro ha
    have hi := h i a ha
    refine ⟨hi, ?_⟩
    rw [lookup, items, hi]
    exact KeyedSet.find?_eq_some.mpr ⟨ha, rfl⟩
  · rintro ⟨rfl, ha⟩
    exact (KeyedSet.find?_eq_some.mp ha).1

/-- Writing to the shard of a key changes no key of another shard. -/
lemma lookup_setItems {k k' : List UInt8} {items : KeyedSet Item.key} (v : Option Item)
    (hitems : ∀ k', items.find? k' = if k' = k then v else (server.items hash k).find? k') :
    (server.setItems hash k items).lookup hash k' =
      if k' = k then v else server.lookup hash k' := by
  unfold lookup MemcacheServer.items setItems
  dsimp only
  by_cases hs : shardOf hash k' = shardOf hash k
  · rw [hs, Function.update_self, hitems, MemcacheServer.items]
  · have hk : k' ≠ k := by
      rintro rfl
      exact hs rfl
    rw [Function.update_of_ne hs, if_neg hk]

lemma placed_setItems {k : List UInt8} {items : KeyedSet Item.key} (h : server.Placed hash)
    (hitems : ∀ a ∈ items, a.key = k ∨ a ∈ server.items hash k) :
    (server.setItems hash k items).Placed hash := by
  intro i a ha
  unfold setItems at ha
  dsimp only at ha
  by_cases hi : i = shardOf hash k
  · subst hi
    rw [Function.update_self] at ha
    rcases hitems a ha with rfl | ha
    · rfl
    · exact h _ a ha
  · rw [Function.update_of_ne hi] at ha
    exact h i a ha

lemma find?_replace (items : KeyedSet Item.key) (item : Item) (k : List UInt8) :
    ((items.erase item.key).1.insert item).find? k =
      if k = item.key then some item else items.find? k := by
  have hnone : (items.erase item.key).1.find? item.key = none := by
    rw [KeyedSet.find?_erase, if_pos rfl]
  rw [KeyedSet.find?_insert hnone, KeyedSet.find?_erase]
  split <;> rfl

lemma mem_of_find?_eq {items items' : KeyedSet Item.key}
    (h : items.find? a.key = items'.find? a.key) (ha : a ∈ items) : a ∈ items' :=
  (KeyedSet.find?_eq_some.mp (h.symm.trans (KeyedSet.find?_eq_some.mpr ⟨ha, rfl⟩))).1

lemma lookup_put (item : Item) (k : List UInt8) :
    (server.put hash item).lookup hash k =
      if k = item.key then some item else server.lookup hash k :=
  lookup_setItems (some item) fun k' => find?_replace _ item k'

lemma Placed.put (h : server.Placed hash) (item : Item) : (server.put hash item).Placed hash := by
  refine placed_setItems h fun a ha => ?_
  by_cases hk : a.key = item.key
  · exact .inl hk
  · refine .inr (mem_of_find?_eq ?_ ha)
    rw [find?_replace, if_neg hk]
    rfl

lemma lookup_deleteItem (key : Item) (k : List UInt8) :
    (server.deleteItem hash key).2.lookup hash k =
      if k = key.key then none else server.lookup hash k :=
  lookup_setItems none fun k' => KeyedSet.find?_erase _ key.key k'

lemma Placed.deleteItem (h : server.Placed hash) (key : Item) :
    (server.deleteItem hash key).2.Placed hash :=
  placed_setItems h fun _ ha => .inr (List.mem_of_mem_filter ha)

lemma deleteItem_eq (key : Item) :
    (server.deleteItem hash key).1 = (server.lookup hash key.key).isSome := by
  change decide (((server.items hash key.key).erase key.key).2 = 1) = _
  rw [KeyedSet.erase_count, lookup]
  cases (server.items hash key.key).find? key.key <;> rfl

/-- Deleting a key that is not there. -/
lemma deleteItem_of_false {key : Item} (h : (server.deleteItem hash key).1 = false) :
    (server.deleteItem hash key).2 = server := by
  rw [deleteItem_eq, Option.isSome_eq_false_iff, Option.isNone_iff_eq_none] at h
  change server.setItems hash key.key ((server.items hash key.key).erase key.key).1 = server
  rw [KeyedSet.erase_of_find?_eq_none h, setItems, items, Function.update_eq_self]

end MemcacheServer

end

end Muduo.Memcached

import Muduo.Memcached.Cache

/-!
# Compare-and-swap

Every call that changes a key takes a new id from `g_cas`, so a session that swaps under the id it
has read overwrites nothing but what it has read.

## Main results

* `cas_never_fooled`: between a `getItem` and a successful `kCas` update under the id it returned,
  nothing changed the key; and of several `kCas` updates under one id at most one succeeds.
-/

namespace Muduo.Memcached

open Machine Item

/-- One call and its reply. -/
abbrev Record := Call × Reply Item

namespace Record

/-- The call found `item` under `k`. -/
def Obtains (r : Record) (k : List UInt8) (item : Item) : Prop :=
  (∃ key, r.1.op = .get key ∧ key.key = k) ∧ r.2 = .item (some item)

/-- The call stored, replaced, appended to or deleted `k`. -/
def Changes (r : Record) (k : List UInt8) : Prop := r.1.op.key = k ∧ r.2.Changes

/-- The call swapped `k` under the id `c`. -/
def Swaps (r : Record) (k : List UInt8) (c : ℕ) : Prop :=
  (∃ item, r.1.op = .store item .kCas ∧ item.key = k ∧ item.cas = c) ∧
    ∃ found, r.2 = .stored true found

end Record

/-- How many updates succeeded. -/
def updates (log : List Record) : ℕ := log.countP fun r => r.2.Updates

/-! ### What one call does to the ids -/

/-- The ids before and after a call. -/
structure Effect (m m' : VersionedMap (List UInt8) Unit) (r : Record) : Prop where
  last_eq : m'.last = m.last + if r.2.Updates then 1 else 0
  stale : ∀ {k c}, m.Stale k c → m'.Stale k c
  changes : ∀ {k c}, r.Changes k → c ≤ m.last → m'.Stale k c
  obtains : ∀ {k item}, r.Obtains k item → item.cas ≤ m.last
  swaps : ∀ {k c}, r.Swaps k c → m.entry k = some (c, ())

section

variable {hash : List UInt8 → ℕ} {server server' : MemcacheServer} {c : Call} {r : Reply Item}
  {m : VersionedMap (List UInt8) Unit}

lemma get_effect (h : Represents hash (fun _ => ()) server m) (key : Item) :
    Effect m m (c, .item (server.getItem hash key)) where
  last_eq := rfl
  stale h := h
  changes h := h.2.elim
  obtains := by
    rintro k item ⟨-, hitem⟩
    have hentry := h.entry_eq key.key
    rw [← MemcacheServer.getItem_eq, Reply.item.inj hitem] at hentry
    exact m.id_le_last hentry
  swaps := by
    rintro k id ⟨-, found, h⟩
    cases h

lemma delete_effect {key : Item} (hc : c.op = .delete key) (result : Bool) :
    Effect m (m.remove key.key) (c, .deleted result) where
  last_eq := rfl
  stale h := h.remove key.key
  changes := by
    rintro k id ⟨hk, -⟩ hid
    rw [hc] at hk
    cases hk
    exact VersionedMap.stale_remove hid _
  obtains := by
    rintro k item ⟨-, h⟩
    cases h
  swaps := by
    rintro k id ⟨-, found, h⟩
    cases h

lemma refused_effect {found : Bool} : Effect m m (c, .stored false found) where
  last_eq := rfl
  stale h := h
  changes h := absurd h.2 nofun
  obtains := by
    rintro k item ⟨-, h⟩
    cases h
  swaps := by
    rintro k id ⟨-, found, h⟩
    cases h

lemma stored_effect {item : Item} {policy : UpdatePolicy} (hc : c.op = .store item policy)
    (hcas : policy = .kCas → m.entry item.key = some (item.cas, ())) {found : Bool} :
    Effect m (m.put item.key ()) (c, .stored true found) where
  last_eq := rfl
  stale h := h.put item.key ()
  changes := by
    rintro k id ⟨hk, -⟩ hid
    rw [hc] at hk
    cases hk
    exact VersionedMap.stale_put hid _ ()
  obtains := by
    rintro k item ⟨-, h⟩
    cases h
  swaps := by
    rintro k id ⟨⟨item', h, rfl, rfl⟩, -⟩
    cases hc.symm.trans h
    exact hcas rfl

/-- A swap is made only under the id that the item has. -/
lemma update_kCas {item a : Item} {old : Option Item} {cas : ℕ}
    (h : update item .kCas old cas = .ok (some a)) :
    ∃ oldItem, old = some oldItem ∧ oldItem.cas = item.cas := by
  cases old with
  | none => cases h
  | some oldItem =>
    refine ⟨oldItem, rfl, ?_⟩
    by_contra hcas
    rw [update, if_neg hcas] at h
    cases h

lemma call_effect (h : Represents hash (fun _ => ()) server m) (hlast : m.last + 1 < 2 ^ 64)
    (hc : server.call hash c.op = .ok (r, server')) :
    ∃ m', Represents hash (fun _ => ()) server' m' ∧ Effect m m' (c, r) := by
  cases hop : c.op with
  | get key =>
    rw [hop] at hc
    cases hc
    exact ⟨m, h, get_effect h key⟩
  | delete key =>
    rw [hop] at hc
    cases hc
    exact ⟨m.remove key.key, h.deleteItem key, delete_effect hop _⟩
  | store item policy =>
    rw [hop, MemcacheServer.call, MemcacheServer.storeItem_eq] at hc
    simp only [bind_eq_ok] at hc
    obtain ⟨_, ⟨-, -, new, hnew, h'⟩, hc⟩ := hc
    cases h'
    cases hc
    cases new with
    | none => exact ⟨m, h, refused_effect⟩
    | some a =>
      obtain ⟨hkey, hid⟩ := update_ok hnew a rfl
      refine ⟨m.put item.key (), ?_, stored_effect hop ?_⟩
      · rw [← hkey]
        exact h.put hlast hid
      · rintro rfl
        obtain ⟨oldItem, hold, hcas⟩ := update_kCas hnew
        rw [h.entry_eq, hold, Option.map_some, hcas]

end

/-! ### Runs -/

lemma sublist_concat {α : Type*} {l log : List α} {a b : α} (h : (l ++ [a]).Sublist (log ++ [b])) :
    (l ++ [a]).Sublist log ∨ l.Sublist log ∧ a = b := by
  rw [List.sublist_append_iff] at h
  obtain ⟨l₁, l₂, hl, h₁, h₂⟩ := h
  rcases List.sublist_singleton.mp h₂ with rfl | rfl
  · rw [List.append_nil] at hl
    exact .inl (hl ▸ h₁)
  · obtain ⟨rfl, hab⟩ := List.append_inj' hl rfl
    cases hab
    exact .inr ⟨h₁, rfl⟩

/-- The ids that a run has shown, and what it has done under them. -/
structure Tracks (hash : List UInt8 → ℕ) (h : History) (m : VersionedMap (List UInt8) Unit) :
    Prop where
  represents : Represents hash (fun _ => ()) h.server m
  last_eq : m.last = updates h.log
  obtained : ∀ {g k item}, g ∈ h.log → Record.Obtains g k item → item.cas ≤ m.last
  changed : ∀ {g e k item}, [g, e].Sublist h.log → Record.Obtains g k item → Record.Changes e k →
    m.Stale k item.cas
  swapped : ∀ {w k c}, w ∈ h.log → Record.Swaps w k c → m.Stale k c
  sees_no_change : ∀ {g e w k item}, [g, e, w].Sublist h.log → Record.Obtains g k item →
    Record.Swaps w k item.cas → ¬ Record.Changes e k
  once : ∀ {w w' k c}, [w, w'].Sublist h.log → Record.Swaps w k c → ¬ Record.Swaps w' k c

lemma Tracks.new (hash : List UInt8 → ℕ) (startTime : ℤ) :
    Tracks hash (History.new startTime) .empty where
  represents := .new startTime
  last_eq := rfl
  obtained := nofun
  changed := nofun
  swapped := nofun
  sees_no_change := nofun
  once := nofun

lemma updates_concat (log : List Record) (r : Record) :
    updates (log ++ [r]) = updates log + if r.2.Updates then 1 else 0 := by
  simp [updates, List.countP_append, List.countP_singleton]

section

variable {hash : List UInt8 → ℕ} {h h' : History} {m m' : VersionedMap (List UInt8) Unit}
  {r : Record} {server' : MemcacheServer}

lemma Effect.changes_of_swaps {k : List UInt8} {c : ℕ} (h : r.Swaps k c) : r.Changes k := by
  obtain ⟨⟨item, hop, rfl, -⟩, found, hr⟩ := h
  refine ⟨?_, ?_⟩
  · rw [hop]
    rfl
  · rw [hr]
    rfl

lemma Effect.not_stale (he : Effect m m' r) {k : List UInt8} {c : ℕ} (h : r.Swaps k c) :
    ¬ m.Stale k c := fun hs => hs.2 _ (he.swaps h) rfl

/-- One more call. -/
lemma Tracks.extend (ht : Tracks hash h m) (hrep : Represents hash (fun _ => ()) server' m')
    (he : Effect m m' r) : Tracks hash ⟨server', h.log ++ [r]⟩ m' where
  represents := hrep
  last_eq := by rw [he.last_eq, ht.last_eq, updates_concat]
  obtained := by
    intro g k item hg hk
    have hle : m.last ≤ m'.last := by rw [he.last_eq]; exact Nat.le_add_right ..
    rcases List.mem_append.mp hg with hg | hg
    · exact (ht.obtained hg hk).trans hle
    · cases List.mem_singleton.mp hg
      exact (he.obtains hk).trans hle
  changed := by
    intro g e k item hsub hg hchange
    rcases sublist_concat (l := [g]) hsub with hprev | ⟨hprev, rfl⟩
    · exact he.stale (ht.changed hprev hg hchange)
    · exact he.changes hchange (ht.obtained (List.singleton_sublist.mp hprev) hg)
  swapped := by
    intro w k c hw hk
    rcases List.mem_append.mp hw with hw | hw
    · exact he.stale (ht.swapped hw hk)
    · cases List.mem_singleton.mp hw
      exact he.changes (Effect.changes_of_swaps hk) (m.id_le_last (he.swaps hk))
  sees_no_change := by
    intro g e w k item hsub hg hw
    rcases sublist_concat (l := [g, e]) hsub with hprev | ⟨hprev, rfl⟩
    · exact ht.sees_no_change hprev hg hw
    · exact fun hchange => he.not_stale hw (ht.changed hprev hg hchange)
  once := by
    intro w w' k c hsub hw hw'
    rcases sublist_concat (l := [w]) hsub with hprev | ⟨hprev, rfl⟩
    · exact ht.once hprev hw hw'
    · exact he.not_stale hw' (ht.swapped (List.singleton_sublist.mp hprev) hw)

end

/-- A swap under an id that was read is never fooled, as long as the ids do not run out. -/
theorem cas_never_fooled (hash : List UInt8 → ℕ) (startTime : ℤ) (calls : List Call) (h : History)
    (hrun : run (History.step hash) (History.new startTime) calls = .ok h)
    (hupdates : updates h.log < 2 ^ 63) :
    (∀ g e w k item, [g, e, w].Sublist h.log → Record.Obtains g k item →
      Record.Swaps w k item.cas → ¬ Record.Changes e k) ∧
    ∀ w w' k c, [w, w'].Sublist h.log → ¬ (Record.Swaps w k c ∧ Record.Swaps w' k c) := by
  have hinv : updates h.log < 2 ^ 63 → ∃ m, Tracks hash h m := by
    refine run_reaches (I := fun h => updates h.log < 2 ^ 63 → ∃ m, Tracks hash h m) ?_
      (fun _ => ⟨_, Tracks.new hash startTime⟩) hrun
    intro h c h' ih hstep hlt
    rw [History.step, bind_eq_ok] at hstep
    obtain ⟨⟨r, server'⟩, hcall, hstep⟩ := hstep
    cases hstep
    rw [updates_concat] at hlt
    obtain ⟨m, ht⟩ := ih (by omega)
    have hlast := ht.last_eq
    obtain ⟨m', hrep, he⟩ := call_effect ht.represents (by omega) hcall
    exact ⟨m', ht.extend hrep he⟩
  obtain ⟨m, ht⟩ := hinv hupdates
  exact ⟨fun g e w k item => ht.sees_no_change, fun w w' k c hsub hw => ht.once hsub hw.1 hw.2⟩

/-- The run of `swapCalls`, in which the first swap is refused: the append before it changed the
key. -/
theorem cas_never_fooled_swap :
    ∃ h, run (History.step List.length) (History.new 0) swapCalls = .ok h ∧
      updates h.log < 2 ^ 63 ∧
      ∀ w w' k c, [w, w'].Sublist h.log → ¬ (Record.Swaps w k c ∧ Record.Swaps w' k c) := by
  have hcount : (fun h => updates h.log) <$>
      run (History.step List.length) (History.new 0) swapCalls = .ok 3 := by decide +kernel
  obtain ⟨h, hrun, hcount⟩ := map_eq_ok.mp hcount
  have hupdates : updates h.log < 2 ^ 63 := by
    rw [hcount]
    norm_num
  exact ⟨h, hrun, hupdates, (cas_never_fooled List.length 0 swapCalls h hrun hupdates).2⟩

end Muduo.Memcached

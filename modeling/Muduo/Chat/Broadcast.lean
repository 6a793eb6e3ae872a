import Mathlib.Data.Finset.Sort
import Muduo.Base.Code
import Muduo.Machine.SortedSet

/-!
# The chat server with many threads

`asio/chat/server_threaded_efficient.cc`. The threads share a list of connections by reference
count. `onConnection` changes it in place if nobody else holds it, and a copy of it otherwise;
`onStringMessage` takes a reference under the mutex and walks through the list without it. What a
thread does under the mutex is one step, and so is each message that is sent.

`refines_room` compares the server with a room in which a message is given to everybody at once.
-/

namespace Muduo

open Machine

variable {M : Type}

/-- `std::set<TcpConnectionPtr>`, with the connections in the order of their addresses. -/
abbrev ConnectionList := SortedSet (id : ℕ → ℕ)

/-- A call of `onStringMessage`: the list that it holds, and to whom it has sent the message. -/
structure Broadcast (M : Type) where
  message : M
  connections : ℕ
  sent : List ℕ
  returned : Bool

/-- The lists by the number under which they were made, and which of them is `connections_`. -/
structure ChatServer (M : Type) where
  lists : ℕ → ConnectionList
  made : ℕ
  connections : ℕ
  broadcasts : List (Broadcast M)

namespace ChatServer

def new : ChatServer M := ⟨fun _ => .empty, 1, 0, []⟩

inductive Event (M : Type) where
  | onConnection (conn : ℕ) (connected : Bool)
  /-- A thread begins `onStringMessage` and gets the list. -/
  | onStringMessage (message : M)
  /-- The `i`-th call goes on. -/
  | send (i : ℕ)

/-- `connections_.unique()`. -/
def unique (s : ChatServer M) : Bool :=
  s.broadcasts.all fun b => b.returned || b.connections != s.connections

/-- `connections_.reset(new ConnectionList(*connections_))`. -/
def copy (s : ChatServer M) : ChatServer M :=
  { s with
    lists := Function.update s.lists s.made (s.lists s.connections)
    made := s.made + 1
    connections := s.made }

def update (list : ConnectionList) (conn : ℕ) (connected : Bool) : ConnectionList :=
  if connected then (list.insert conn).1 else (list.erase conn).1

def onConnection (s : ChatServer M) (conn : ℕ) (connected : Bool) : Code (ChatServer M) := do
  let s := if s.unique then s else s.copy
  check .connectionsShared (s.unique = true)
  let list := update (s.lists s.connections) conn connected
  return { s with lists := Function.update s.lists s.connections list }

/-- A turn of the loop of `onStringMessage`, or the end of it. -/
def send (s : ChatServer M) (b : Broadcast M) : Broadcast M :=
  match (s.lists b.connections).toList[b.sent.length]? with
  | some conn => { b with sent := b.sent ++ [conn] }
  | none => { b with returned := true }

def step (s : ChatServer M) : Event M → Code (ChatServer M)
  | .onConnection conn connected => s.onConnection conn connected
  | .onStringMessage message =>
    return { s with broadcasts := s.broadcasts ++ [⟨message, s.connections, [], false⟩] }
  | .send i =>
    match s.broadcasts[i]? with
    | some b => do
      require (b.returned = false)
      return { s with broadcasts := s.broadcasts.set i (s.send b) }
    | none => .error .disabled

/-! ### The room -/

/-- Who is in the room, and the messages with those who were there when they came. -/
structure Room (M : Type) where
  present : Finset ℕ
  messages : List (M × Finset ℕ)

def Room.step (r : Room M) : Event M → Room M
  | .onConnection conn true => { r with present := insert conn r.present }
  | .onConnection conn false => { r with present := r.present.erase conn }
  | .onStringMessage message => { r with messages := r.messages ++ [(message, r.present)] }
  | .send _ => r

/-- The message has been sent to the first of those whom it is for, in the order of their addresses,
and to all of them when the call has returned. -/
def Sends (b : Broadcast M) (m : M × Finset ℕ) : Prop :=
  b.message = m.1 ∧ b.sent <+: m.2.sort ∧ (b.returned = true → b.sent = m.2.sort)

structure Refines (s : ChatServer M) (r : Room M) : Prop where
  present : (s.lists s.connections).toList = r.present.sort
  made : s.connections < s.made
  held : ∀ b ∈ s.broadcasts, b.returned = false → b.connections < s.made
  /-- A call that has not returned holds the list of those whom its message is for. -/
  broadcasts : List.Forall₂ (fun b m => Sends b m ∧
    (b.returned = false → (s.lists b.connections).toList = m.2.sort)) s.broadcasts r.messages

variable {s : ChatServer M} {r : Room M}

lemma toList_eq_sort (list : ConnectionList) : list.toList = list.toList.toFinset.sort := by
  have hsorted : list.toList.Pairwise (· < ·) := list.sorted
  exact ((List.toFinset_sort _ (hsorted.imp ne_of_lt)).mpr (hsorted.imp le_of_lt)).symm

lemma toList_update {list : ConnectionList} (h : list.toList = r.present.sort) (conn : ℕ)
    (connected : Bool) : (update list conn connected).toList =
      (r.step (.onConnection conn connected)).present.sort := by
  have hmem : ∀ a, a ∈ list.toList ↔ a ∈ r.present := fun a => by rw [h, Finset.mem_sort]
  rw [toList_eq_sort]
  congr 1
  ext a
  cases connected with
  | true =>
    simp only [update, Room.step, if_true, SortedSet.insert, SortedSet.insertList, List.mem_toFinset,
      Finset.mem_insert]
    split
    · rw [List.mem_orderedInsert, hmem]
    · rename_i hconn
      push Not at hconn
      obtain ⟨b, hb, rfl⟩ := hconn
      rw [hmem, iff_or_self]
      rintro rfl
      exact (hmem a).mp hb
  | false =>
    simp [update, Room.step, SortedSet.erase, hmem, and_comm]

/-- Lists may be made and changed that no call holds. -/
lemma Refines.setLists (h : s.Refines r) (lists : ℕ → ConnectionList) (present : Finset ℕ)
    {made n : ℕ} (hpresent : (lists n).toList = present.sort) (hn : n < made)
    (hmade : s.made ≤ made)
    (hheld : ∀ b ∈ s.broadcasts, b.returned = false →
      lists b.connections = s.lists b.connections) :
    Refines { s with lists := lists, made := made, connections := n }
      { r with present := present } where
  present := hpresent
  made := hn
  held b hb hr := (h.held b hb hr).trans_le hmade
  broadcasts := by
    refine ((List.forall₂_and_left _ _).mpr ⟨hheld, h.broadcasts⟩).imp ?_
    rintro b m ⟨hb, hsends, hlist⟩
    exact ⟨hsends, fun hr => (congrArg _ (hb hr)).trans (hlist hr)⟩

lemma Refines.copy (h : s.Refines r) : s.copy.Refines r ∧ s.copy.unique = true := by
  have hne : ∀ b ∈ s.broadcasts, b.returned = false → b.connections ≠ s.made :=
    fun b hb hr => (h.held b hb hr).ne
  constructor
  · exact h.setLists _ _ (by rw [Function.update_self, h.present]) (Nat.lt_succ_self _)
      (Nat.le_succ _) fun b hb hr => Function.update_of_ne (hne b hb hr) ..
  · refine List.all_eq_true.mpr fun b hb => ?_
    cases hr : b.returned with
    | true => rfl
    | false => simpa [ChatServer.copy] using hne b hb hr

lemma Refines.onConnection (h : s.Refines r) (conn : ℕ) (connected : Bool) :
    Safe (s.onConnection conn connected) fun s' =>
      s'.Refines (r.step (.onConnection conn connected)) := by
  rw [ChatServer.onConnection]
  dsimp only
  rw [safe_bind, safe_check, safe_pure]
  have hown : (if s.unique then s else s.copy).Refines r ∧
      (if s.unique then s else s.copy).unique = true := by
    split
    · exact ⟨h, ‹_›⟩
    · exact h.copy
  generalize (if s.unique then s else s.copy) = s at hown
  obtain ⟨h, hu⟩ := hown
  refine ⟨hu, ?_⟩
  have hlists := h.setLists
    (Function.update s.lists s.connections (update (s.lists s.connections) conn connected))
    (r.step (.onConnection conn connected)).present
    (by rw [Function.update_self, toList_update h.present]) h.made le_rfl fun b hb hr => by
      have hne := List.all_eq_true.mp hu b hb
      exact Function.update_of_ne (by simpa [hr] using hne) ..
  cases connected <;> exact hlists

lemma forall₂_set {α β : Type} {R : α → β → Prop} {l : List α} {l' : List β}
    (h : List.Forall₂ R l l') {i : ℕ} {a a' : α} (hi : l[i]? = some a)
    (ha : ∀ b, R a b → R a' b) : List.Forall₂ R (l.set i a') l' := by
  induction h generalizing i with
  | nil => exact .nil
  | cons hab h ih =>
    cases i with
    | zero =>
      cases hi
      exact .cons (ha _ hab) h
    | succ i => exact .cons hab (ih hi)

/-- A call sends to the next one on its list, or returns. -/
lemma Refines.send (h : s.Refines r) {i : ℕ} {b : Broadcast M} (hb : s.broadcasts[i]? = some b)
    (hr : b.returned = false) :
    Refines { s with broadcasts := s.broadcasts.set i (s.send b) } r where
  present := h.present
  made := h.made
  held b' hb' hr' := by
    rcases List.mem_or_eq_of_mem_set hb' with hb' | rfl
    · exact h.held b' hb' hr'
    · have hsame : (s.send b).connections = b.connections := by
        unfold ChatServer.send
        split <;> rfl
      exact hsame ▸ h.held b (List.mem_of_getElem? hb) hr
  broadcasts := by
    refine forall₂_set h.broadcasts hb ?_
    rintro m ⟨⟨hmessage, ⟨rest, hrest⟩, -⟩, hlist⟩
    unfold ChatServer.send
    rw [hlist hr, ← hrest, List.getElem?_append_right le_rfl, Nat.sub_self, hrest]
    cases rest with
    | nil => exact ⟨⟨hmessage, by simp [← hrest], by simpa using hrest⟩, fun hr' => by cases hr'⟩
    | cons conn rest => exact ⟨⟨hmessage, ⟨rest, by simpa using hrest⟩, by simp [hr]⟩, hlist⟩

lemma Refines.step (h : s.Refines r) (e : Event M) :
    Safe (s.step e) fun s' => s'.Refines (r.step e) := by
  cases e with
  | onConnection conn connected => exact h.onConnection conn connected
  | onStringMessage message =>
    refine ⟨h.present, h.made, ?_, List.rel_append h.broadcasts (.cons ?_ .nil)⟩
    · exact List.forall_mem_append.mpr ⟨h.held, by simpa using h.made⟩
    · exact ⟨⟨rfl, List.nil_prefix, by simp⟩, fun _ => h.present⟩
  | send i =>
    rw [ChatServer.step]
    split
    · rename_i b hb
      rw [safe_bind, safe_require]
      exact h.send hb
    · trivial

end ChatServer
end Muduo

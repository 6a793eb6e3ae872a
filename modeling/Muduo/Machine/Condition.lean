import Muduo.Machine.Exec

/-!
# Condition variables

Threads are the entries of a list, and an entry says what its thread is doing. A `Condition` tells
the entries that wait on a condition variable from those that have been signalled and have not yet
locked the mutex again. `notify` signals one waiting thread, of the scheduler's choice, and does
nothing if none waits.

`Covered` is the invariant of a condition that threads wait on for one of `n` things: as long as
anybody waits, a signal is outstanding for each of the things.
-/

namespace Machine

variable {A : Type} {T : Type}

structure Condition (T : Type) where
  waits : T → Bool
  signalled : T → Bool
  /-- What a waiting thread becomes when it is signalled. -/
  signal : T → T
  not_signalled : ∀ t, waits t = true → signalled t = false
  signal_not_waits : ∀ t, waits t = true → waits (signal t) = false
  signal_signalled : ∀ t, waits t = true → signalled (signal t) = true

namespace Condition

variable (c : Condition T)

/-- `notify`, with the thread to be signalled. -/
def notify (threads : List T) (target : ℕ) : Exec A (List T) :=
  if ∃ t ∈ threads, c.waits t = true then
    match threads[target]? with
    | some t => do
      require (c.waits t = true)
      return threads.set target (c.signal t)
    | none => .error .disabled
  else
    return threads

def notifyAll (threads : List T) : List T :=
  threads.map fun t => if c.waits t then c.signal t else t

/-- A signal is outstanding for each of `n` things, if a thread waits. -/
def Covered (threads : List T) (n : ℕ) : Prop :=
  (∃ t ∈ threads, c.waits t = true) → n ≤ threads.countP c.signalled

variable {c} {threads : List T} {n n' : ℕ}

lemma covered_of_forall (h : ∀ t ∈ threads, c.waits t = false) : c.Covered threads n := by
  rintro ⟨t, ht, hw⟩
  simp [h t ht] at hw

/-- One thing more, and a signal for it. -/
lemma Covered.notify (h : c.Covered threads n) (target : ℕ) :
    Safe (c.notify threads target : Exec A (List T)) fun threads' =>
      c.Covered threads' (n + 1) ∧
        ((∀ t ∈ threads, c.waits t = false) → ∀ t ∈ threads', c.waits t = false) := by
  unfold Condition.notify
  split
  · rename_i hex
    split
    · rename_i t ht
      obtain ⟨hlt, rfl⟩ := List.getElem?_eq_some_iff.mp ht
      simp only [safe_bind, safe_require, safe_pure]
      intro hw
      constructor
      · intro _
        rw [List.countP_set hlt]
        simp [c.not_signalled _ hw, c.signal_signalled _ hw, h hex]
      · intro hnone
        simp [hnone _ (List.getElem_mem hlt)] at hw
    · trivial
  · rename_i hno
    have hnone : ∀ t ∈ threads, c.waits t = false := by simpa using hno
    exact ⟨covered_of_forall hnone, fun _ => hnone⟩

/-- A thread goes on from `t` to `t'`. It waits only when there is nothing left, and the number of
things goes down with the signal that it used up. -/
lemma Covered.set (h : c.Covered threads n) {i : ℕ} {t t' : T} (hi : threads[i]? = some t)
    (hn : n' = 0 ∨ c.waits t' = false ∧
      n' + (if c.signalled t then 1 else 0) ≤ n + (if c.signalled t' then 1 else 0)) :
    c.Covered (threads.set i t') n' := by
  rcases hn with rfl | ⟨hw, hle⟩
  · exact fun _ => Nat.zero_le _
  obtain ⟨hlt, rfl⟩ := List.getElem?_eq_some_iff.mp hi
  rintro ⟨u, hu, huw⟩
  have hold : u ∈ threads := by
    rcases List.mem_or_eq_of_mem_set hu with hu | rfl
    · exact hu
    · simp [hw] at huw
  have hcount := h ⟨u, hold, huw⟩
  have hpos : c.signalled threads[i] = true → 0 < threads.countP c.signalled := fun hs =>
    List.countP_pos_iff.mpr ⟨_, List.getElem_mem hlt, hs⟩
  rw [List.countP_set hlt]
  cases hs : c.signalled threads[i] with
  | true =>
    have := hpos hs
    simp only [hs, if_true] at hle ⊢
    omega
  | false =>
    simp only [hs, Bool.false_eq_true, if_false] at hle ⊢
    omega

/-- A new thread that does not wait. -/
lemma Covered.concat (h : c.Covered threads n) {t : T} (ht : c.waits t = false) :
    c.Covered (threads ++ [t]) n := by
  rintro ⟨u, hu, huw⟩
  rcases List.mem_append.mp hu with hu | hu
  · exact (h ⟨u, hu, huw⟩).trans (by simp [List.countP_append])
  · rw [List.mem_singleton.mp hu, ht] at huw
    cases huw

lemma Covered.exists_signalled (h : c.Covered threads n) (hn : 0 < n) {t : T} (ht : t ∈ threads)
    (hw : c.waits t = true) : ∃ u ∈ threads, c.signalled u = true :=
  List.countP_pos_iff.mp (hn.trans_le (h ⟨t, ht, hw⟩))

lemma notifyAll_not_waits {t : T} (ht : t ∈ c.notifyAll threads) : c.waits t = false := by
  obtain ⟨u, -, rfl⟩ := List.mem_map.mp ht
  split
  · exact c.signal_not_waits u ‹_›
  · exact Bool.eq_false_iff.mpr ‹_›

/-- Nobody waits, and the thread that goes on does not begin to. -/
lemma set_not_waits {i : ℕ} {t' : T} (h : ∀ t ∈ threads, c.waits t = false)
    (ht' : c.waits t' = false) : ∀ t ∈ threads.set i t', c.waits t = false := by
  intro t ht
  rcases List.mem_or_eq_of_mem_set ht with ht | rfl
  · exact h t ht
  · exact ht'

/-- The list around one of its entries, before and after the entry is replaced. -/
lemma exists_set {i : ℕ} {t : T} (hi : threads[i]? = some t) (t' : T) :
    ∃ l₁ l₂, threads = l₁ ++ t :: l₂ ∧ threads.set i t' = l₁ ++ t' :: l₂ := by
  obtain ⟨hlt, rfl⟩ := List.getElem?_eq_some_iff.mp hi
  obtain ⟨l₁, l₂, hl, -, hset⟩ := List.exists_of_set hlt
  exact ⟨l₁, l₂, hl, hset⟩

lemma sum_set (w : T → ℕ) {i : ℕ} {t : T} (hi : threads[i]? = some t) (t' : T) :
    ((threads.set i t').map w).sum + w t = (threads.map w).sum + w t' := by
  obtain ⟨l₁, l₂, hl, hset⟩ := exists_set hi t'
  rw [hset, hl]
  simp only [List.map_append, List.map_cons, List.sum_append, List.sum_cons]
  omega

/-- What the entry and its replacement have in common is what it was. -/
lemma map_set_eq {β : Type*} {f : T → β} {i : ℕ} {t t' : T} (hi : threads[i]? = some t)
    (h : f t' = f t) : (threads.set i t').map f = threads.map f := by
  obtain ⟨l₁, l₂, hl, hset⟩ := exists_set hi t'
  rw [hset, hl]
  simp [h]

lemma filterMap_eq_of_map_eq {β : Type*} {f : T → Option β} {threads' : List T}
    (h : threads'.map f = threads.map f) : threads'.filterMap f = threads.filterMap f := by
  rw [← Function.id_comp f, ← List.filterMap_map, h, List.filterMap_map]

/-- What a function picks from the threads changes by what it picks from the entry. -/
lemma perm_filterMap_set {β : Type*} (f : T → Option β) {i : ℕ} {t : T} (hi : threads[i]? = some t)
    (t' : T) : ((f t).toList ++ (threads.set i t').filterMap f).Perm
      ((f t').toList ++ threads.filterMap f) := by
  obtain ⟨l₁, l₂, hl, hset⟩ := exists_set hi t'
  have hcons : ∀ u, (l₁ ++ u :: l₂).filterMap f =
      l₁.filterMap f ++ ((f u).toList ++ l₂.filterMap f) := by
    intro u
    rw [List.filterMap_append, List.filterMap_cons]
    cases f u <;> rfl
  rw [hset, hl, hcons, hcons]
  simp only [← Multiset.coe_eq_coe, ← Multiset.coe_add]
  abel

/-- What `notify` does to the threads. -/
lemma notify_eq_ok {threads' : List T} {target : ℕ}
    (h : (c.notify threads target : Exec A (List T)) = .ok threads') :
    (threads' = threads ∧ ∀ t ∈ threads, c.waits t = false) ∨
      ∃ t, threads[target]? = some t ∧ c.waits t = true ∧
        threads' = threads.set target (c.signal t) := by
  unfold Condition.notify at h
  split at h
  · cases ht : threads[target]? with
    | none => simp [ht] at h
    | some t =>
      simp only [ht, require_bind_eq_ok] at h
      obtain ⟨hw, h⟩ := h
      cases h
      exact .inr ⟨t, rfl, hw, rfl⟩
  · rename_i hno
    cases h
    exact .inl ⟨rfl, by simpa using hno⟩

/-- Whatever a signal does not change of a thread is what it was. -/
lemma notify_map_eq {β : Type*} {f : T → β} (hf : ∀ t, c.waits t = true → f (c.signal t) = f t)
    {threads' : List T} {target : ℕ}
    (h : (c.notify threads target : Exec A (List T)) = .ok threads') :
    threads'.map f = threads.map f := by
  rcases notify_eq_ok h with ⟨rfl, -⟩ | ⟨t, ht, hw, rfl⟩
  · rfl
  · exact map_set_eq ht (hf t hw)

lemma notifyAll_map_eq {β : Type*} {f : T → β}
    (hf : ∀ t, c.waits t = true → f (c.signal t) = f t) :
    (c.notifyAll threads).map f = threads.map f := by
  rw [notifyAll, List.map_map]
  refine List.map_congr_left fun t _ => ?_
  rw [Function.comp_apply]
  split
  · exact hf t ‹_›
  · rfl

/-- A signal makes the threads heavier by one thread's signal at most. -/
lemma notify_sum_le {w : T → ℕ} (hw : ∀ t, c.waits t = true → w (c.signal t) ≤ w t + 1)
    {threads' : List T} {target : ℕ}
    (h : (c.notify threads target : Exec A (List T)) = .ok threads') :
    (threads'.map w).sum ≤ (threads.map w).sum + 1 := by
  rcases notify_eq_ok h with ⟨rfl, -⟩ | ⟨t, ht, hwt, rfl⟩
  · exact Nat.le_succ _
  · have hsum := sum_set w ht (c.signal t)
    have hle := hw t hwt
    omega

/-- Some thread can always be signalled. -/
lemma exists_notify (threads : List T) :
    ∃ target threads', (c.notify threads target : Exec A (List T)) = .ok threads' := by
  by_cases hex : ∃ t ∈ threads, c.waits t = true
  · obtain ⟨t, ht, hw⟩ := id hex
    obtain ⟨i, hi⟩ := List.mem_iff_getElem?.mp ht
    refine ⟨i, threads.set i (c.signal t), ?_⟩
    rw [Condition.notify, if_pos hex, hi]
    simp [require, hw]
  · exact ⟨0, threads, by rw [Condition.notify, if_neg hex]; rfl⟩

end Condition
end Machine

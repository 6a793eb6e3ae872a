import Muduo.Net.TimerQueue.Basic

/-!
# What the timer queue's functions do

Every timer that is alive has one owner: the queue, if it is in `timers_`, or whoever holds the only
pointer to it elsewhere, such as the batch of `handleRead` or a functor that will add it. `Owns`
says so of a heap and the list of all these pointers, and `Consistent` says that the two sets of the
queue describe the same timers with their current expirations. Each function is described once, by
what it does to the sets, to the heap and to the ownership.
-/

namespace Muduo

open Machine

/-! ### The orders of the sets -/

namespace Entry

lemma key_eq {e e' : Entry} :
    e.key = e'.key ↔ e.when = e'.when ∧ e.timer.address = e'.timer.address := by
  simp [key]

lemma when_le_of_key_le {e e' : Entry} (h : e.key ≤ e'.key) : e.when ≤ e'.when := by
  rcases Prod.Lex.toLex_le_toLex.mp h with h | h
  · exact h.le
  · exact h.1.le

/-- The entries before the sentry of `getExpired`. -/
lemma key_lt_sentry {e : Entry} {now : ℤ} (ha : e.timer.address < uintptrMax) :
    e.key < toLex (now, uintptrMax) ↔ e.when ≤ now := by
  rw [key, Prod.Lex.toLex_lt_toLex]
  constructor
  · rintro (h | ⟨h, -⟩)
    · exact h.le
    · exact h.le
  · intro h
    rcases h.lt_or_eq with h | h
    · exact Or.inl h
    · exact Or.inr ⟨h, ha⟩

/-- The element of `activeTimers_` for an element of `timers_`. -/
def active (e : Entry) : ActiveTimer := ⟨e.timer, e.timer.object⟩

end Entry

@[simp] lemma Timer.restart_address (t : Timer) (now : ℤ) :
    (t.restart now).address = t.address := by
  unfold Timer.restart
  split <;> rfl

@[simp] lemma Timer.restart_sequence (t : Timer) (now : ℤ) :
    (t.restart now).sequence = t.sequence := by
  unfold Timer.restart
  split <;> rfl

lemma Timer.restart_eq (t : Timer) (now : ℤ) :
    t.restart now = { t with expiration := (t.restart now).expiration } := by
  unfold Timer.restart
  split <;> rfl

lemma Timer.restart_expiration_lt (t : Timer) (now : ℤ) : (t.restart now).expiration < 2 ^ 63 := by
  unfold Timer.restart
  split
  · exact int64_lt _
  · norm_num

lemma ActiveTimer.key_eq {a a' : ActiveTimer} :
    a.key = a'.key ↔ a.timer.address = a'.timer.address ∧ a.sequence = a'.sequence := by
  simp [key]

/-! ### Ownership -/

/-- The pointers `ptrs` are the owners of the timers in the heap, one for each timer. -/
structure Owns (heap : ℕ → Option Timer) (numCreated : ℕ) (ptrs : List TimerPtr) : Prop where
  count : ∀ o, (ptrs.map (·.object)).count o = if (heap o).isSome then 1 else 0
  address : ∀ p ∈ ptrs, ∀ t ∈ heap p.object, t.address = p.address
  timer : ∀ o, ∀ t ∈ heap o,
    t.sequence = o ∧ o ≤ numCreated ∧ t.address < uintptrMax ∧ t.expiration < 2 ^ 63
  distinct : ∀ o o', ∀ t ∈ heap o, ∀ t' ∈ heap o', t.address = t'.address → o = o'

namespace Owns

variable {heap : ℕ → Option Timer} {n : ℕ} {ptrs ptrs' : List TimerPtr} {p p' : TimerPtr}

lemma perm (h : Owns heap n ptrs) (hp : ptrs.Perm ptrs') : Owns heap n ptrs' := by
  refine ⟨fun o => ?_, fun p hmem => h.address p (hp.mem_iff.mpr hmem), h.timer, h.distinct⟩
  rw [← h.count o]
  exact ((hp.map _).count_eq o).symm

lemma live (h : Owns heap n ptrs) (hp : p ∈ ptrs) :
    ∃ t, heap p.object = some t ∧ t.address = p.address ∧ t.sequence = p.object := by
  have hpos : 0 < (ptrs.map (·.object)).count p.object :=
    List.count_pos_iff.mpr (List.mem_map_of_mem hp)
  rw [h.count] at hpos
  split at hpos
  · rename_i hsome
    obtain ⟨t, ht⟩ := Option.isSome_iff_exists.mp hsome
    exact ⟨t, ht, h.address p hp t ht, (h.timer _ t ht).1⟩
  · simp at hpos

lemma nodup (h : Owns heap n ptrs) : (ptrs.map (·.object)).Nodup := by
  rw [List.nodup_iff_count_le_one]
  intro o
  rw [h.count]
  split
  · exact le_rfl
  · exact Nat.zero_le 1

lemma eq_of_object (h : Owns heap n ptrs) (hp : p ∈ ptrs) (hp' : p' ∈ ptrs)
    (ho : p.object = p'.object) : p = p' :=
  List.inj_on_of_nodup_map h.nodup hp hp' ho

lemma eq_of_address (h : Owns heap n ptrs) (hp : p ∈ ptrs) (hp' : p' ∈ ptrs)
    (ha : p.address = p'.address) : p = p' := by
  obtain ⟨t, ht, hat, -⟩ := h.live hp
  obtain ⟨t', ht', hat', -⟩ := h.live hp'
  exact h.eq_of_object hp hp' (h.distinct _ _ t ht t' ht' (by rw [hat, hat', ha]))

/-- Every timer that is alive has an owner. -/
lemma exists_owner (h : Owns heap n ptrs) {o : ℕ} (ho : heap o ≠ none) :
    ∃ p ∈ ptrs, p.object = o := by
  have hpos : 0 < (ptrs.map (·.object)).count o := by
    rw [h.count, if_pos (Option.isSome_iff_ne_none.mpr ho)]
    exact Nat.one_pos
  simpa using List.count_pos_iff.mp hpos

lemma notMem_tail (h : Owns heap n (p :: ptrs)) (hp' : p' ∈ ptrs) : p'.object ≠ p.object := by
  have hnodup := h.nodup
  rw [List.map_cons, List.nodup_cons] at hnodup
  intro heq
  exact hnodup.1 (heq ▸ List.mem_map_of_mem hp')

/-- The owner of a timer deletes it. -/
lemma delete (h : Owns heap n (p :: ptrs)) :
    Owns (Function.update heap p.object none) n ptrs := by
  have hof {o : ℕ} {t : Timer} (ht : t ∈ Function.update heap p.object none o) :
      o ≠ p.object ∧ t ∈ heap o := by
    by_cases ho : o = p.object
    · simp [ho] at ht
    · exact ⟨ho, by simpa [ho] using ht⟩
  refine ⟨?_, ?_, fun o t ht => h.timer o t (hof ht).2,
    fun o o' t ht t' ht' => h.distinct o o' t (hof ht).2 t' (hof ht').2⟩
  · intro o
    have hcount := h.count o
    rw [List.map_cons, List.count_cons] at hcount
    by_cases ho : o = p.object
    · have hlive : (heap p.object).isSome := by
        obtain ⟨t, ht, -⟩ := h.live (List.mem_cons_self ..)
        simp [ht]
      simpa [ho, hlive] using hcount
    · simpa [ho, Ne.symm ho] using hcount
  · intro p' hp' t ht
    exact h.address p' (List.mem_cons_of_mem p hp') t (hof ht).2

/-- A timer is changed in place. -/
lemma store (h : Owns heap n ptrs) {t t' : Timer} (ht : heap p.object = some t)
    (ha : t'.address = t.address) (hs : t'.sequence = t.sequence) (he : t'.expiration < 2 ^ 63) :
    Owns (Function.update heap p.object (some t')) n ptrs := by
  -- each timer of the new heap has the address and the number of one in the old heap
  have hof {o : ℕ} {u : Timer} (hu : u ∈ Function.update heap p.object (some t') o) :
      ∃ v ∈ heap o, u.address = v.address ∧ u.sequence = v.sequence ∧ u.expiration < 2 ^ 63 := by
    by_cases ho : o = p.object
    · subst ho
      simp only [Function.update_self, Option.mem_some_iff] at hu
      exact ⟨t, ht, hu ▸ ha, hu ▸ hs, hu ▸ he⟩
    · rw [Function.update_of_ne ho] at hu
      exact ⟨u, hu, rfl, rfl, (h.timer o u hu).2.2.2⟩
  refine ⟨?_, ?_, ?_, ?_⟩
  · intro o
    rw [h.count]
    by_cases ho : o = p.object
    · simp [ho, ht]
    · simp [ho]
  · intro p' hp' u hu
    obtain ⟨v, hv, hav, -⟩ := hof hu
    rw [hav]
    exact h.address p' hp' v hv
  · intro o u hu
    obtain ⟨v, hv, hav, hsv, hlt⟩ := hof hu
    obtain ⟨hseq, hle, haddr, -⟩ := h.timer o v hv
    exact ⟨hsv.trans hseq, hle, hav ▸ haddr, hlt⟩
  · intro o o' u hu u' hu' heq
    obtain ⟨v, hv, hav, -⟩ := hof hu
    obtain ⟨v', hv', hav', -⟩ := hof hu'
    exact h.distinct o o' v hv v' hv' (by rw [← hav, ← hav', heq])

lemma next_eq_none (h : Owns heap n ptrs) : heap (n + 1) = none := by
  by_contra hne
  obtain ⟨u, hu⟩ := Option.ne_none_iff_exists'.mp hne
  exact absurd (h.timer _ u hu).2.1 (Nat.not_succ_le_self n)

/-- A new timer, at an address where none lives, belongs to whoever holds the pointer. -/
lemma allocate (h : Owns heap n ptrs) {t : Timer} (hs : t.sequence = n + 1)
    (ha : t.address < uintptrMax) (he : t.expiration < 2 ^ 63)
    (hfree : ∀ o < n + 1, ∀ u ∈ heap o, u.address ≠ t.address) :
    Owns (Function.update heap (n + 1) (some t)) (n + 1) (⟨t.address, n + 1⟩ :: ptrs) := by
  have hnone := h.next_eq_none
  have hof {o : ℕ} {u : Timer} (hu : u ∈ Function.update heap (n + 1) (some t) o) :
      o = n + 1 ∧ u = t ∨ o < n + 1 ∧ u ∈ heap o := by
    by_cases ho : o = n + 1
    · subst ho
      simp only [Function.update_self, Option.mem_some_iff] at hu
      exact Or.inl ⟨rfl, hu.symm⟩
    · rw [Function.update_of_ne ho] at hu
      have := (h.timer o u hu).2.1
      exact Or.inr ⟨by omega, hu⟩
  refine ⟨?_, ?_, ?_, ?_⟩
  · intro o
    rw [List.map_cons, List.count_cons, h.count]
    by_cases ho : o = n + 1
    · simp [ho, hnone]
    · simp [ho, Ne.symm ho]
  · intro p' hp' u hu
    rcases List.mem_cons.mp hp' with rfl | hp'
    · rcases hof hu with ⟨-, rfl⟩ | ⟨hlt, -⟩
      · rfl
      · simp at hlt
    · obtain ⟨v, hv, -⟩ := h.live hp'
      rcases hof hu with ⟨ho, -⟩ | ⟨-, hu⟩
      · simp [ho, hnone] at hv
      · exact h.address p' hp' u hu
  · intro o u hu
    rcases hof hu with ⟨rfl, rfl⟩ | ⟨-, hu⟩
    · exact ⟨hs, le_rfl, ha, he⟩
    · obtain ⟨hseq, hle, hlt⟩ := h.timer o u hu
      exact ⟨hseq, hle.trans (Nat.le_succ n), hlt⟩
  · intro o o' u hu u' hu' heq
    rcases hof hu with ⟨ho, ht⟩ | ⟨hlt, hold⟩
    · rcases hof hu' with ⟨ho', -⟩ | ⟨hlt', hold'⟩
      · rw [ho, ho']
      · exact absurd (ht ▸ heq.symm) (hfree o' hlt' u' hold')
    · rcases hof hu' with ⟨-, ht'⟩ | ⟨-, hold'⟩
      · exact absurd (ht' ▸ heq) (hfree o hlt u hold)
      · exact h.distinct o o' u hold u' hold' heq

end Owns

/-! ### The queue -/

namespace TimerQueue

/-- The owners of all timers: the entries of `timers_` and the pointers held elsewhere. -/
def pointers (q : TimerQueue) (elsewhere : List TimerPtr) : List TimerPtr :=
  q.timers.toList.map (·.timer) ++ elsewhere

structure Consistent (q : TimerQueue) (elsewhere : List TimerPtr) : Prop where
  owns : Owns q.heap q.numCreated (q.pointers elsewhere)
  expiration : ∀ e ∈ q.timers, ∀ t ∈ q.heap e.timer.object, t.expiration = e.when
  active : q.activeTimers.toList.Perm (q.timers.toList.map Entry.active)

variable {q : TimerQueue} {p : TimerPtr} {rest : List TimerPtr}

lemma mem_pointers_of_mem {e : Entry} (he : e ∈ q.timers) : e.timer ∈ q.pointers rest :=
  List.mem_append_left rest (List.mem_map_of_mem he)

namespace Consistent

lemma perm {rest' : List TimerPtr} (h : Consistent q rest) (hp : rest.Perm rest') :
    Consistent q rest' :=
  ⟨h.owns.perm (hp.append_left _), h.expiration, h.active⟩

lemma checkSizes (h : Consistent q rest) : q.checkSizes = .ok () := by
  have hlen := h.active.length_eq
  rw [List.length_map] at hlen
  simp [TimerQueue.checkSizes, check, SortedSet.size, hlen]

/-- An element of `activeTimers_` comes from an entry of `timers_`. -/
lemma exists_entry (h : Consistent q rest) {a : ActiveTimer} (ha : a ∈ q.activeTimers) :
    ∃ e ∈ q.timers, e.active = a := by
  obtain ⟨e, he, hea⟩ := List.mem_map.mp (h.active.mem_iff.mp ha)
  exact ⟨e, he, hea⟩

lemma active_mem (h : Consistent q rest) {e : Entry} (he : e ∈ q.timers) :
    e.active ∈ q.activeTimers :=
  h.active.mem_iff.mpr (List.mem_map_of_mem he)

/-- An entry reads the timer that it was made for. -/
lemma load_entry (h : Consistent q rest) {e : Entry} (he : e ∈ q.timers) :
    ∃ t, q.heap e.timer.object = some t ∧ t.address = e.timer.address ∧
      t.sequence = e.timer.object ∧ t.expiration = e.when := by
  obtain ⟨t, ht, ha, hs⟩ := h.owns.live (mem_pointers_of_mem he)
  exact ⟨t, ht, ha, hs, h.expiration e he t ht⟩

lemma mem_cons (_ : Consistent q (p :: rest)) : p ∈ q.pointers (p :: rest) :=
  List.mem_append_right _ (List.mem_cons_self ..)

/-- A timer whose owner is elsewhere is not in `timers_`. -/
lemma ne_of_mem (h : Consistent q (p :: rest)) {e : Entry} (he : e ∈ q.timers) :
    e.timer ≠ p ∧ e.timer.address ≠ p.address := by
  have hne : e.timer ≠ p := by
    rintro rfl
    have howns : Owns q.heap q.numCreated (e.timer :: q.pointers rest) :=
      h.owns.perm List.perm_middle
    exact howns.notMem_tail (mem_pointers_of_mem he) rfl
  exact ⟨hne, fun ha => hne (h.owns.eq_of_address (mem_pointers_of_mem he) h.mem_cons ha)⟩

end Consistent

lemma load_eq {t : Timer} (ht : q.heap p.object = some t) : q.load p = .ok t := by
  simp [load, ht, pure, Except.pure]

/-! ### insert and addTimerInLoop -/

/-- `insert` has put the timer `t` at `p` into both sets. -/
structure Inserted (q : TimerQueue) (p : TimerPtr) (t : Timer) (q' : TimerQueue)
    (earliestChanged : Bool) : Prop where
  timers : q'.timers.toList.Perm (⟨t.expiration, p⟩ :: q.timers.toList)
  activeTimers : q'.activeTimers.toList.Perm (⟨p, p.object⟩ :: q.activeTimers.toList)
  rest : q' = { q with timers := q'.timers, activeTimers := q'.activeTimers }
  earliest : earliestChanged = true ↔ ∀ e ∈ q.timers, t.expiration < e.when

lemma Inserted.consistent {t : Timer} {q' : TimerQueue} {b : Bool} (hi : Inserted q p t q' b)
    (h : Consistent q (p :: rest)) (ht : q.heap p.object = some t) : Consistent q' rest := by
  have hheap : q'.heap = q.heap := by rw [hi.rest]
  have hnum : q'.numCreated = q.numCreated := by rw [hi.rest]
  have hperm : (q.pointers (p :: rest)).Perm (q'.pointers rest) := by
    have hmoved := (hi.timers.map (·.timer)).append_right rest
    exact List.perm_middle.trans hmoved.symm
  refine ⟨?_, ?_, ?_⟩
  · rw [hheap, hnum]
    exact h.owns.perm hperm
  · intro e he u hu
    rw [hheap] at hu
    rcases List.mem_cons.mp (hi.timers.mem_iff.mp he) with rfl | he
    · rw [ht] at hu
      exact (Option.some.inj hu) ▸ rfl
    · exact h.expiration e he u hu
  · refine hi.activeTimers.trans (((h.active.cons _)).trans ?_)
    exact (hi.timers.map Entry.active).symm

/-- `earliestChanged`: the new expiration is before every other one. -/
lemma earliestChanged_iff (when : ℤ) :
    (match q.timers.begin? with
      | none => true
      | some it => decide (when < it.when)) = true ↔ ∀ e ∈ q.timers, when < e.when := by
  cases hb : q.timers.begin? with
  | none =>
    have hnil := SortedSet.begin?_eq_none.mp hb
    simp [SortedSet.mem_iff, hnil]
  | some it =>
    obtain ⟨hit, hmin⟩ := SortedSet.begin?_eq_some hb
    simp only [decide_eq_true_eq]
    constructor
    · intro hlt e he
      exact hlt.trans_le (Entry.when_le_of_key_le (hmin e he))
    · exact fun hall => hall it hit

theorem insert_spec (h : Consistent q (p :: rest)) {t : Timer} (ht : q.heap p.object = some t) :
    Yields (q.insert p) fun r => Inserted q p t r.1 r.2 ∧ Consistent r.1 rest := by
  have hseq : t.sequence = p.object := (h.owns.timer _ t ht).1
  have hnewT : ∀ e ∈ q.timers, e.key ≠ Entry.key ⟨t.expiration, p⟩ := by
    intro e he hk
    exact (h.ne_of_mem he).2 (Entry.key_eq.mp hk).2
  have hnewA : ∀ a ∈ q.activeTimers, a.key ≠ ActiveTimer.key ⟨p, t.sequence⟩ := by
    intro a ha hk
    obtain ⟨e, he, rfl⟩ := h.exists_entry ha
    exact (h.ne_of_mem he).2 (ActiveTimer.key_eq.mp hk).1
  obtain ⟨hT, hTperm⟩ := SortedSet.insert_of_new hnewT
  obtain ⟨hA, hAperm⟩ := SortedSet.insert_of_new hnewA
  rw [hseq] at hA hAperm
  have hi : Inserted q p t
      { q with
        timers := (q.timers.insert ⟨t.expiration, p⟩).1
        activeTimers := (q.activeTimers.insert ⟨p, p.object⟩).1 } _ :=
    ⟨hTperm, hAperm, rfl, earliestChanged_iff t.expiration⟩
  have hc := hi.consistent h ht
  refine ⟨(_, _), ?_, hi, hc⟩
  rw [insert, h.checkSizes]
  simp only [ok_bind, load_eq ht, hseq, check_of hT, check_of hA, hc.checkSizes]
  rfl

/-- The alarm is set if `earliestChanged`. -/
def armedIf (q : TimerQueue) (earliestChanged : Bool) (when : ℤ) : TimerQueue :=
  if earliestChanged then q.resetTimerfd when else q

lemma armedIf_eq (q : TimerQueue) (b : Bool) (when : ℤ) :
    q.armedIf b when = { q with timerfd := (q.armedIf b when).timerfd } := by
  cases b <;> rfl

/-- `addTimerInLoop` arms the timerfd when the timer is the first to expire. -/
theorem addTimerInLoop_spec (h : Consistent q (p :: rest)) {t : Timer}
    (ht : q.heap p.object = some t) :
    Yields (q.addTimerInLoop p) fun q' => Consistent q' rest ∧ ∃ q₁ b, Inserted q p t q₁ b ∧
      q' = q₁.armedIf b t.expiration := by
  obtain ⟨⟨q₁, b⟩, hins, hi, hc⟩ := insert_spec h ht
  replace hi : Inserted q p t q₁ b := hi
  replace hc : Consistent q₁ rest := hc
  have ht₁ : q₁.heap p.object = some t := by rw [hi.rest]; exact ht
  refine ⟨q₁.armedIf b t.expiration, ?_, ?_, q₁, b, hi, rfl⟩
  · rw [addTimerInLoop, hins]
    cases b with
    | true => simp only [ok_bind, if_true, load_eq ht₁]; rfl
    | false => rfl
  · cases b with
    | true => exact ⟨hc.owns, hc.expiration, hc.active⟩
    | false => exact hc

/-! ### cancelInLoop -/

/-- `cancelInLoop` has removed the timer of `e` from both sets and deleted it. -/
structure Cancelled (q : TimerQueue) (e : Entry) (q' : TimerQueue) : Prop where
  timers : q.timers.toList.Perm (e :: q'.timers.toList)
  heap : q'.heap = Function.update q.heap e.timer.object none
  rest : q' = { q with timers := q'.timers, activeTimers := q'.activeTimers, heap := q'.heap }

lemma mem_update_none {heap : ℕ → Option Timer} {o o' : ℕ} {t : Timer}
    (ht : t ∈ Function.update heap o none o') : t ∈ heap o' := by
  by_cases ho : o' = o
  · simp [ho] at ht
  · rwa [Function.update_of_ne ho] at ht

theorem cancelActive_spec (h : Consistent q rest) {e : Entry} (he : e ∈ q.timers) :
    Yields (q.cancelActive e.active) fun q' => Cancelled q e q' ∧ Consistent q' rest := by
  obtain ⟨t, ht, -, -, hexp⟩ := h.load_entry he
  obtain ⟨hone, htimers⟩ := SortedSet.erase_of_mem he
  obtain ⟨-, hactive⟩ := SortedSet.erase_of_mem (h.active_mem he)
  refine ⟨{ q with
    timers := (q.timers.erase e.key).1
    activeTimers := (q.activeTimers.erase e.active.key).1
    heap := Function.update q.heap e.timer.object none }, ?_, ⟨htimers, rfl, rfl⟩, ?_, ?_, ?_⟩
  · have hload : q.load e.active.timer = .ok t := load_eq ht
    have hkey : Entry.key ⟨t.expiration, e.active.timer⟩ = e.key := by rw [hexp]; rfl
    have hlive : (q.heap e.active.timer.object).isSome = true := by
      rw [show q.heap e.active.timer.object = some t from ht]; rfl
    simp only [cancelActive, hload, ok_bind, hkey, check_of hone, delete, check_of hlive]
    rfl
  · have hmoved := (htimers.map (fun e => e.timer)).append_right rest
    have howns : Owns q.heap q.numCreated
        (e.timer :: ((q.timers.erase e.key).1.toList.map (fun e => e.timer) ++ rest)) :=
      h.owns.perm hmoved
    exact howns.delete
  · intro e' he' u hu
    have hmem : e' ∈ q.timers := htimers.mem_iff.mpr (List.mem_cons_of_mem e he')
    exact h.expiration e' hmem u (mem_update_none hu)
  · have hboth := hactive.symm.trans (h.active.trans (htimers.map Entry.active))
    exact hboth.cons_inv

/-- What `cancelInLoop` does: the timer is in `timers_` and goes, or it is remembered while expired
timers are being called, or nothing happens. -/
inductive CancelInLoop (q : TimerQueue) (id : TimerId) : TimerQueue → Prop where
  | active (e : Entry) (q' : TimerQueue) (he : e ∈ q.timers)
      (hid : id = e.timer.id) (h : Cancelled q e q') : CancelInLoop q id q'
  | canceling (hnone : ∀ e ∈ q.timers, id ≠ e.timer.id)
      (hcalling : q.callingExpiredTimers = true) :
      CancelInLoop q id { q with cancelingTimers := Insert.insert id q.cancelingTimers }
  | absent (hnone : ∀ e ∈ q.timers, id ≠ e.timer.id)
      (hcalling : q.callingExpiredTimers = false) : CancelInLoop q id q

theorem cancelInLoop_spec (h : Consistent q rest) (id : TimerId) :
    Yields (q.cancelInLoop id) fun q' => CancelInLoop q id q' ∧ Consistent q' rest := by
  cases hfind : q.activeTimers.find? id.key with
  | some a =>
    obtain ⟨ha, hkey⟩ := SortedSet.find?_eq_some hfind
    obtain ⟨e, he, rfl⟩ := h.exists_entry ha
    have hid : id = e.timer.id := by
      have := congrArg ofLex hkey
      simp only [ActiveTimer.key, TimerId.key, Entry.active, ofLex_toLex, Prod.mk.injEq] at this
      cases id
      simp_all [TimerPtr.id]
    obtain ⟨q', hq', hc, hcon⟩ := cancelActive_spec h he
    refine ⟨q', ?_, .active e q' he hid hc, hcon⟩
    simp only [cancelInLoop, h.checkSizes, ok_bind, hfind, hq', hcon.checkSizes]
    rfl
  | none =>
    have hnone : ∀ e ∈ q.timers, id ≠ e.timer.id := by
      rintro e he rfl
      exact SortedSet.find?_eq_none hfind (h.active_mem he) rfl
    cases hcalling : q.callingExpiredTimers with
    | true =>
      have hcon :
          Consistent { q with cancelingTimers := Insert.insert id q.cancelingTimers } rest :=
        ⟨h.owns, h.expiration, h.active⟩
      refine ⟨_, ?_, .canceling hnone hcalling, hcon⟩
      simp only [cancelInLoop, h.checkSizes, ok_bind, hfind, if_pos hcalling, pure_bind,
        hcon.checkSizes]
      rfl
    | false =>
      refine ⟨_, ?_, .absent hnone hcalling, h⟩
      have hcalling' : ¬q.callingExpiredTimers = true := by simp [hcalling]
      simp only [cancelInLoop, h.checkSizes, ok_bind, hfind, if_neg hcalling', pure_bind]
      rfl

/-! ### getExpired -/

/-- `getExpired` has moved the entries that are due from `timers_` to `expired`. -/
structure Expired (q : TimerQueue) (now : ℤ) (q' : TimerQueue) (expired : List Entry) : Prop where
  timers : expired ++ q'.timers.toList = q.timers.toList
  due : ∀ e ∈ expired, e.when ≤ now
  later : ∀ e ∈ q'.timers, now < e.when
  rest : q' = { q with timers := q'.timers, activeTimers := q'.activeTimers }

/-- One turn of the loop takes the element of `activeTimers_` for its entry. -/
lemma eraseActive_spec {e : Entry} {l : List Entry} {t : Timer}
    (ht : q.heap e.timer.object = some t) (hseq : t.sequence = e.timer.object)
    (hperm : q.activeTimers.toList.Perm ((e :: l).map Entry.active)) :
    Safe (q.eraseActive e) fun q' =>
      q' = { q with activeTimers := q'.activeTimers } ∧
        q'.activeTimers.toList.Perm (l.map Entry.active) := by
  have hmem : e.active ∈ q.activeTimers := hperm.mem_iff.mpr (List.mem_cons_self ..)
  obtain ⟨hone, hactive⟩ := SortedSet.erase_of_mem hmem
  have hkey : ActiveTimer.key ⟨e.timer, t.sequence⟩ = e.active.key := by rw [hseq]; rfl
  simp only [eraseActive, load_eq ht, ok_bind, hkey, check_of hone]
  exact ⟨rfl, (hactive.symm.trans hperm).cons_inv⟩

/-- The loop leaves the elements of `activeTimers_` for the entries that stay in `timers_`. -/
lemma eraseLoop_spec (h : Consistent q rest) {due : List Entry} {timers : SortedSet Entry.key}
    (hsplit : due ++ timers.toList = q.timers.toList) :
    Safe (due.foldlM eraseActive { q with timers }) fun q' =>
      q' = { q with timers, activeTimers := q'.activeTimers } ∧
        q'.activeTimers.toList.Perm (timers.toList.map Entry.active) := by
  -- the elements still there are those of the entries not yet visited
  refine Safe.foldlM (fun l q' => (∀ e ∈ l, e ∈ q.timers) ∧
    q' = { q with timers, activeTimers := q'.activeTimers } ∧
      q'.activeTimers.toList.Perm ((l ++ timers.toList).map Entry.active)) ?_ ?_ |>.mono ?_
  · rintro e l q' ⟨hl, hq', hperm⟩
    obtain ⟨t, ht, -, hseq, -⟩ := h.load_entry (hl e (List.mem_cons_self ..))
    have ht' : q'.heap e.timer.object = some t := by rw [hq']; exact ht
    apply (eraseActive_spec ht' hseq hperm).mono
    intro q'' hq''
    refine ⟨fun e' he' => hl e' (List.mem_cons_of_mem e he'), ?_, hq''.2⟩
    rw [hq''.1, hq']
  · refine ⟨fun e he => ?_, rfl, by rw [hsplit]; exact h.active⟩
    exact SortedSet.mem_iff.mpr (hsplit ▸ List.mem_append_left _ he)
  · exact fun q' hq' => hq'.2

lemma Consistent.key_lt_sentry (h : Consistent q rest) {e : Entry} (he : e ∈ q.timers) {now : ℤ} :
    e.key < toLex (now, uintptrMax) ↔ e.when ≤ now := by
  obtain ⟨t, ht, ha, -⟩ := h.load_entry he
  exact Entry.key_lt_sentry (ha ▸ (h.owns.timer _ t ht).2.2.1)

theorem getExpired_spec (h : Consistent q rest) (now : ℤ) :
    Safe (q.getExpired now) fun r =>
      Expired q now r.1 r.2 ∧ Consistent r.1 (r.2.map (·.timer) ++ rest) := by
  set sentry : ℤ ×ₗ ℕ := toLex (now, uintptrMax) with hsentry
  have hsplit := q.timers.before_append sentry
  have hafter : ∀ e ∈ q.timers.eraseBefore sentry, e ∈ q.timers := fun e he =>
    SortedSet.mem_iff.mpr (hsplit ▸ List.mem_append_right _ he)
  have hdue : ∀ e ∈ q.timers.before sentry, e.when ≤ now := by
    intro e he
    have hin : e ∈ q.timers := SortedSet.mem_iff.mpr (hsplit ▸ List.mem_append_left _ he)
    exact (h.key_lt_sentry hin).mp (SortedSet.lt_of_mem_before he)
  have hlater : ∀ e ∈ q.timers.eraseBefore sentry, now < e.when := by
    intro e he
    by_contra hle
    have hlt := (h.key_lt_sentry (hafter e he)).mpr (not_lt.mp hle)
    exact absurd (SortedSet.le_of_mem_eraseBefore he) (not_le.mpr hlt)
  have hbound : ∀ it ∈ (q.timers.eraseBefore sentry).begin?, now < it.when :=
    fun it hit => hlater it (SortedSet.begin?_eq_some hit).1
  simp only [getExpired, h.checkSizes, ok_bind, ← hsentry, check_of hbound, safe_bind]
  apply (eraseLoop_spec h hsplit).mono
  rintro q' ⟨hq', hactive⟩
  have htimers : q'.timers = q.timers.eraseBefore sentry := by rw [hq']
  have hcon : Consistent q' ((q.timers.before sentry).map (·.timer) ++ rest) := by
    refine ⟨?_, ?_, by rw [htimers]; exact hactive⟩
    · rw [hq']
      apply h.owns.perm
      simp only [pointers]
      rw [← hsplit, List.map_append, ← List.append_assoc]
      exact List.perm_append_comm.append_right rest
    · intro e he u hu
      rw [htimers] at he
      apply h.expiration e (hafter e he) u
      rw [hq'] at hu
      exact hu
  rw [hcon.checkSizes]
  refine ⟨⟨by rw [htimers]; exact hsplit, hdue, by rw [htimers]; exact hlater, ?_⟩, hcon⟩
  rw [htimers]
  exact hq'

/-! ### reset -/

/-- What `reset` does with an entry of the batch: a timer that repeats and was not cancelled while
the batch was being called is restarted and inserted, any other is deleted. -/
inductive ResetEntry (now : ℤ) (q : TimerQueue) (it : Entry) : TimerQueue → Prop where
  | restarted (t : Timer) (q' : TimerQueue) (b : Bool) (ht : q.heap it.timer.object = some t)
      (hrepeats : t.repeats = true)
      (hnot : it.timer.id ∉ q.cancelingTimers)
      (h : Inserted (q.store it.timer (t.restart now)) it.timer (t.restart now) q' b) :
      ResetEntry now q it q'
  | deleted (t : Timer) (ht : q.heap it.timer.object = some t)
      (hwhy : t.repeats = false ∨ it.timer.id ∈ q.cancelingTimers) :
      ResetEntry now q it { q with heap := Function.update q.heap it.timer.object none }

lemma store_consistent (h : Consistent q (p :: rest)) {t t' : Timer}
    (ht : q.heap p.object = some t) (ha : t'.address = t.address)
    (hs : t'.sequence = t.sequence) (he : t'.expiration < 2 ^ 63) :
    Consistent (q.store p t') (p :: rest) := by
  refine ⟨h.owns.store ht ha hs he, fun e he u hu => ?_, h.active⟩
  have hne : e.timer.object ≠ p.object := fun ho =>
    (h.ne_of_mem he).1 (h.owns.eq_of_object (mem_pointers_of_mem he) h.mem_cons ho)
  simp only [store, Function.update_of_ne hne] at hu
  exact h.expiration e he u hu

theorem resetEntry_spec {it : Entry} (h : Consistent q (it.timer :: rest)) (now : ℤ) :
    Safe (resetEntry now q it) fun q' => ResetEntry now q it q' ∧ Consistent q' rest := by
  obtain ⟨t, ht, -, hseq⟩ := h.owns.live h.mem_cons
  simp only [resetEntry, load_eq ht, ok_bind, hseq]
  split
  · rename_i hc
    have hs := store_consistent h ht (t.restart_address now) (t.restart_sequence now)
      (t.restart_expiration_lt now)
    have ht' : (q.store it.timer (t.restart now)).heap it.timer.object = some (t.restart now) := by
      simp [store]
    obtain ⟨⟨q', b⟩, hins, hi, hcon⟩ := insert_spec hs ht'
    rw [hins]
    exact ⟨.restarted t q' b ht hc.1 hc.2 hi, hcon⟩
  · rename_i hc
    have hlive : (q.heap it.timer.object).isSome = true := by simp [ht]
    simp only [delete, check_of hlive, ok_bind]
    have hwhy : t.repeats = false ∨ it.timer.id ∈ q.cancelingTimers := by
      by_cases hr : t.repeats = true
      · exact Or.inr (by_contra fun hn => hc ⟨hr, hn⟩)
      · exact Or.inl (by simpa using hr)
    refine ⟨.deleted t ht hwhy, ?_, ?_, h.active⟩
    · exact (h.owns.perm List.perm_middle).delete
    · intro e he u hu
      exact h.expiration e he u (mem_update_none hu)

/-- The loop of `reset` over the entries `expired`. -/
structure WasReset (q : TimerQueue) (now : ℤ) (expired : List Entry) (q' : TimerQueue) : Prop where
  timers : ∀ e ∈ q'.timers, e ∈ q.timers ∨ ∃ it ∈ expired, ∃ t ∈ q.heap it.timer.object,
    t.repeats = true ∧ it.timer.id ∉ q.cancelingTimers ∧ e.when = addTime now t.interval
  heap : ∀ o, ∀ t' ∈ q'.heap o, ∃ t ∈ q.heap o, t' = { t with expiration := t'.expiration }
  cancelled : ∀ it ∈ expired, it.timer.id ∈ q.cancelingTimers → q'.heap it.timer.object = none
  rest : q' = { q with timers := q'.timers, activeTimers := q'.activeTimers, heap := q'.heap }

lemma WasReset.nil (q : TimerQueue) (now : ℤ) : WasReset q now [] q :=
  ⟨fun _ he => Or.inl he, fun _ t ht => ⟨t, ht, rfl⟩, by simp, rfl⟩

/-- A timer that lives afterwards lived before. -/
lemma ResetEntry.heap {now : ℤ} {it : Entry} {q' : TimerQueue} (h : ResetEntry now q it q') (o : ℕ)
    (t' : Timer) (ht' : t' ∈ q'.heap o) :
    ∃ t ∈ q.heap o, t' = { t with expiration := t'.expiration } := by
  cases h with
  | restarted t q' b ht hrepeats hnot hi =>
    have hheap : q'.heap = Function.update q.heap it.timer.object (some (t.restart now)) := by
      rw [hi.rest]
      rfl
    by_cases ho : o = it.timer.object
    · subst ho
      rw [hheap, Function.update_self, Option.mem_some_iff] at ht'
      exact ⟨t, ht, ht' ▸ t.restart_eq now⟩
    · rw [hheap, Function.update_of_ne ho] at ht'
      exact ⟨t', ht', rfl⟩
  | deleted t ht hwhy => exact ⟨t', mem_update_none ht', rfl⟩

lemma ResetEntry.cancelled {now : ℤ} {it : Entry} {q' : TimerQueue} (h : ResetEntry now q it q')
    (hin : it.timer.id ∈ q.cancelingTimers) : q'.heap it.timer.object = none := by
  cases h with
  | restarted t q' b ht hrepeats hnot hi => exact absurd hin hnot
  | deleted t ht hwhy => exact Function.update_self ..

lemma ResetEntry.timers {now : ℤ} {it : Entry} {q' : TimerQueue} (h : ResetEntry now q it q') :
    ∀ e ∈ q'.timers, e ∈ q.timers ∨ ∃ t ∈ q.heap it.timer.object,
      t.repeats = true ∧ it.timer.id ∉ q.cancelingTimers ∧ e.when = addTime now t.interval := by
  cases h with
  | restarted t q' b ht hrepeats hnot hi =>
    intro e he
    rcases List.mem_cons.mp (hi.timers.mem_iff.mp he) with rfl | he
    · exact Or.inr ⟨t, ht, hrepeats, hnot, by simp [Timer.restart, hrepeats]⟩
    · exact Or.inl he
  | deleted t ht hwhy => exact fun e he => Or.inl he

lemma ResetEntry.eq_rest {now : ℤ} {it : Entry} {q' : TimerQueue} (h : ResetEntry now q it q') :
    q' = { q with timers := q'.timers, activeTimers := q'.activeTimers, heap := q'.heap } := by
  cases h with
  | restarted t q' b ht hrepeats hnot hi =>
    rw [hi.rest]
    rfl
  | deleted t ht hwhy => rfl

lemma WasReset.concat {now : ℤ} {l : List Entry} {it : Entry} {q₁ q₂ : TimerQueue}
    (h : WasReset q now l q₁) (hr : ResetEntry now q₁ it q₂) : WasReset q now (l ++ [it]) q₂ := by
  have hcanceling : q₁.cancelingTimers = q.cancelingTimers := by rw [h.rest]
  refine ⟨?_, ?_, ?_, ?_⟩
  · intro e he
    rcases hr.timers e he with he | ⟨t₁, ht₁, hrepeats, hnot, hwhen⟩
    · refine (h.timers e he).imp_right fun ⟨it', hit', hr'⟩ => ?_
      exact ⟨it', List.mem_append_left _ hit', hr'⟩
    · obtain ⟨t, ht, hsame⟩ := h.heap _ t₁ ht₁
      rw [hsame] at hrepeats hwhen
      refine Or.inr ⟨it, List.mem_append_right _ (List.mem_singleton.mpr rfl), t, ht, ?_⟩
      exact ⟨hrepeats, hcanceling ▸ hnot, hwhen⟩
  · intro o t₂ ht₂
    obtain ⟨t₁, ht₁, hsame₁⟩ := hr.heap o t₂ ht₂
    obtain ⟨t₀, ht₀, hsame₀⟩ := h.heap o t₁ ht₁
    exact ⟨t₀, ht₀, by rw [hsame₁, hsame₀]⟩
  · intro it' hit' hin
    rcases List.mem_append.mp hit' with hit' | hit'
    · rw [Option.eq_none_iff_forall_not_mem]
      intro t₂ ht₂
      obtain ⟨t₁, ht₁, -⟩ := hr.heap _ t₂ ht₂
      simp [h.cancelled it' hit' hin] at ht₁
    · rw [List.mem_singleton.mp hit'] at hin ⊢
      exact hr.cancelled (hcanceling ▸ hin)
  · rw [hr.eq_rest, h.rest]

theorem resetLoop_spec {expired : List Entry} (h : Consistent q (expired.map (·.timer) ++ rest))
    (now : ℤ) :
    Safe (expired.foldlM (resetEntry now) q) fun q' =>
      WasReset q now expired q' ∧ Consistent q' rest := by
  refine (Safe.foldlM (fun l q' => (∃ l₀, expired = l₀ ++ l ∧ WasReset q now l₀ q') ∧
    Consistent q' (l.map (·.timer) ++ rest)) ?_ ⟨⟨[], rfl, .nil q now⟩, h⟩).mono ?_
  · rintro it l q' ⟨⟨l₀, hl₀, hw⟩, hcon⟩
    apply (resetEntry_spec hcon now).mono
    rintro q'' ⟨hr, hcon'⟩
    refine ⟨⟨l₀ ++ [it], ?_, ?_⟩, hcon'⟩
    · rw [hl₀]
      simp
    · exact hw.concat hr
  · rintro q' ⟨⟨l₀, hl₀, hw⟩, hcon⟩
    rw [List.append_nil] at hl₀
    exact ⟨hl₀ ▸ hw, hcon⟩

/-- The alarm is set for the first timer, unless that has an invalid time. -/
def rearmed (q : TimerQueue) : TimerQueue :=
  match q.timers.begin? with
  | none => q
  | some it => if 0 < it.when then q.resetTimerfd it.when else q

lemma rearmed_eq (q : TimerQueue) : q.rearmed = { q with timerfd := q.rearmed.timerfd } := by
  unfold rearmed
  split
  · rfl
  · split <;> rfl

lemma rearm_spec (h : Consistent q rest) : Yields q.rearm fun q' => q' = q.rearmed := by
  cases hb : q.timers.begin? with
  | none => exact ⟨q, by simp [rearm, hb, pure, Except.pure], by simp [rearmed, hb]⟩
  | some it =>
    obtain ⟨t, ht, -, -, hexp⟩ := h.load_entry (SortedSet.begin?_eq_some hb).1
    refine ⟨_, ?_, rfl⟩
    simp only [rearm, rearmed, hb, load_eq ht, ok_bind, hexp]
    rfl

/-! ### handleRead -/

lemma readTimerfd_eq (q : TimerQueue) :
    q.readTimerfd = { q with timerfd := q.readTimerfd.timerfd } := by
  unfold readTimerfd
  split
  · split <;> rfl
  · rfl

lemma readTimerfd_consistent (h : Consistent q rest) : Consistent q.readTimerfd rest := by
  rw [readTimerfd_eq]
  exact ⟨h.owns, h.expiration, h.active⟩

theorem beginHandleRead_spec (h : Consistent q rest) (readAt : Now) :
    Safe (q.beginHandleRead readAt) fun r => r.2.2 = q.clock ∧
      (∃ q₁, Expired (readTimerfd { q with clock := readAt }) q.clock q₁ r.2.1 ∧
        r.1 = { q₁ with callingExpiredTimers := true, cancelingTimers := ∅ }) ∧
      Consistent r.1 (r.2.1.map (·.timer) ++ rest) := by
  have h' : Consistent { q with clock := readAt } rest := ⟨h.owns, h.expiration, h.active⟩
  simp only [beginHandleRead, safe_bind]
  apply (getExpired_spec (readTimerfd_consistent h') q.clock).mono
  rintro ⟨q₁, expired⟩ ⟨he, hcon⟩
  exact ⟨rfl, ⟨q₁, he, rfl⟩, hcon.owns, hcon.expiration, hcon.active⟩

theorem endHandleRead_spec {expired : List Entry} {now : ℤ}
    (h : Consistent q (expired.map (·.timer) ++ rest)) :
    Safe (q.endHandleRead expired now) fun q' => Consistent q' rest ∧
      ∃ q₁, WasReset { q with callingExpiredTimers := false } now expired q₁ ∧ q' = q₁.rearmed := by
  have h' : Consistent { q with callingExpiredTimers := false } (expired.map (·.timer) ++ rest) :=
    ⟨h.owns, h.expiration, h.active⟩
  simp only [endHandleRead, reset, safe_bind]
  apply (resetLoop_spec h' now).mono
  rintro q₁ ⟨hw, hcon⟩
  apply (rearm_spec hcon).safe.mono
  intro q' hq'
  refine ⟨?_, q₁, hw, hq'⟩
  rw [hq', rearmed_eq]
  exact ⟨hcon.owns, hcon.expiration, hcon.active⟩

/-! ### allocate -/

/-- The queue after `new Timer`. -/
def allocated (q : TimerQueue) (t : Timer) : TimerQueue :=
  { q with
    heap := Function.update q.heap (q.numCreated + 1) (some t), numCreated := q.numCreated + 1 }

theorem allocate_spec (h : Consistent q rest) (address : ℕ) (when : Int64) (interval : ℕ)
    (repeats : Bool) :
    Safe (q.allocate address when interval repeats) fun r =>
      r = (q.allocated ⟨address, when.toInt, interval, repeats, q.numCreated + 1⟩,
        ⟨address, q.numCreated + 1⟩) ∧ q.heap (q.numCreated + 1) = none ∧
      Consistent r.1 (r.2 :: rest) := by
  simp only [allocate, safe_bind, safe_require]
  rintro ⟨haddr, hfree⟩
  have hnone := h.owns.next_eq_none
  refine ⟨rfl, hnone, ?_, ?_, h.active⟩
  · have howns := h.owns.allocate
      (t := ⟨address, when.toInt, interval, repeats, q.numCreated + 1⟩) rfl haddr when.toInt_lt
      hfree
    exact howns.perm List.perm_middle.symm
  · intro e he u hu
    have hne : e.timer.object ≠ q.numCreated + 1 := by
      obtain ⟨v, hv, -⟩ := h.load_entry he
      rintro heq
      simp [heq, hnone] at hv
    exact h.expiration e he u (by simpa [Function.update_of_ne hne] using hu)

end TimerQueue
end Muduo

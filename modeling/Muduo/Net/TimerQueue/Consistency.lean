import Muduo.Net.TimerQueue.Properties

/-!
# Consistency and ownership of timers

In every run of the timer queue, with callbacks that add and cancel timers while a batch is being
processed, with other threads that add and cancel through the loop's queue, and with new timers at
the addresses of deleted ones: the two sets describe the same timers, no assertion fails, no timer
is used after its deletion or deleted twice, and no timer is forgotten.
-/

namespace Muduo
namespace TimerQueue

open Machine

/-- The timer that a functor will add. -/
def Functor.timer : Functor → Option TimerPtr
  | .addTimerInLoop p => some p
  | .cancelInLoop _ => none

namespace System

/-- The batch that `handleRead` is processing. -/
def expired (s : System) : List Entry :=
  match s.batch with
  | none => []
  | some b => b.expired

/-- The timers for which `addTimerInLoop` has not run yet. -/
def waiting (s : System) : List TimerPtr := s.inFlight ++ s.functors.filterMap Functor.timer

/-- The owners of the timers that are not in `timers_`. -/
def elsewhere (s : System) : List TimerPtr := s.expired.map (·.timer) ++ s.waiting

/-- Where the owner of a timer is. -/
lemma mem_pointers {s : System} {p : TimerPtr} (hp : p ∈ s.queue.pointers s.elsewhere) :
    (∃ e ∈ s.queue.timers, e.timer = p) ∨ (∃ e ∈ s.expired, e.timer = p) ∨ p ∈ s.waiting := by
  rcases List.mem_append.mp hp with hp | hp
  · exact Or.inl (List.mem_map.mp hp)
  · rcases List.mem_append.mp hp with hp | hp
    · exact Or.inr (Or.inl (List.mem_map.mp hp))
    · exact Or.inr (Or.inr hp)

structure Inv (s : System) : Prop where
  consistent : s.queue.Consistent s.elsewhere
  todo : ∀ b ∈ s.batch, b.todo <:+ b.expired
  calling : s.queue.callingExpiredTimers = true ↔ s.batch ≠ none

lemma init_inv (clock : Now) : Inv (init clock) := by
  refine ⟨⟨⟨?_, ?_, ?_, ?_⟩, ?_, ?_⟩, ?_, ?_⟩
  · intro o
    simp [init, new, pointers, elsewhere, expired, waiting, SortedSet.empty]
  · simp [init, new, pointers, elsewhere, expired, waiting, SortedSet.empty]
  · simp [init, new]
  · simp [init, new]
  · simp [init, new]
  · simp [init, new, SortedSet.empty]
  · simp [init]
  · simp [init, new]

/-! ### What a step does -/

/-- What each step does to a system that satisfies the invariant. -/
inductive Stepped (s : System) : Event → System → Prop where
  | setClock (now : Now) :
      Stepped s (.setClock now) { s with queue := { s.queue with clock := now } }
  | addTimer (t : Timer) (when : Int64) (hwhen : t.expiration = when.toInt) (q : TimerQueue)
      (earliestChanged : Bool)
      (hi : Inserted (s.queue.allocated t) ⟨t.address, s.queue.numCreated + 1⟩ t q
        earliestChanged) :
      Stepped s (.addTimer t.address when t.interval t.repeats)
        { s with queue := q.armedIf earliestChanged t.expiration }
  | newTimer (t : Timer) (when : Int64) (hwhen : t.expiration = when.toInt) :
      Stepped s (.newTimer t.address when t.interval t.repeats)
        { s with
          queue := s.queue.allocated t
          inFlight := s.inFlight ++ [⟨t.address, s.queue.numCreated + 1⟩] }
  | queueTimer (i : ℕ) (p : TimerPtr) (hp : s.inFlight[i]? = some p) :
      Stepped s (.queueTimer i)
        { s with
          inFlight := s.inFlight.eraseIdx i, functors := s.functors ++ [.addTimerInLoop p] }
  | cancel (id : TimerId) (q : TimerQueue) (hc : CancelInLoop s.queue id q) :
      Stepped s (.cancel id) { s with queue := q }
  | queueCancel (id : TimerId) :
      Stepped s (.queueCancel id) { s with functors := s.functors ++ [.cancelInLoop id] }
  | addTimerInLoop (p : TimerPtr) (t : Timer) (q : TimerQueue) (earliestChanged : Bool)
      (functors : List Functor) (hbatch : s.batch = none)
      (hfunctors : s.functors = .addTimerInLoop p :: functors)
      (ht : s.queue.heap p.object = some t)
      (hi : Inserted s.queue p t q earliestChanged) :
      Stepped s .doPendingFunctor
        { s with queue := q.armedIf earliestChanged t.expiration, functors }
  | cancelInLoop (id : TimerId) (q : TimerQueue) (functors : List Functor) (hbatch : s.batch = none)
      (hfunctors : s.functors = .cancelInLoop id :: functors) (hc : CancelInLoop s.queue id q) :
      Stepped s .doPendingFunctor { s with queue := q, functors }
  | handleRead (readAt : Now) (q : TimerQueue) (expired : List Entry) (hbatch : s.batch = none)
      (hx : Expired (readTimerfd { s.queue with clock := readAt }) s.queue.clock q expired) :
      Stepped s (.handleRead readAt)
        { s with
          queue := { q with callingExpiredTimers := true, cancelingTimers := ∅ }
          batch := some ⟨s.queue.clock, expired, expired⟩ }
  | runTimer (now : ℤ) (expired : List Entry) (it : Entry) (todo : List Entry)
      (hbatch : s.batch = some ⟨now, expired, it :: todo⟩) :
      Stepped s .runTimer { s with batch := some ⟨now, expired, todo⟩ }
  | endHandleRead (now : ℤ) (expired : List Entry) (q : TimerQueue)
      (hbatch : s.batch = some ⟨now, expired, []⟩)
      (hw : WasReset { s.queue with callingExpiredTimers := false } now expired q) :
      Stepped s .endHandleRead { s with queue := q.rearmed, batch := none }

/-- A step that changes the queue only. -/
lemma Inv.queue {s : System} (h : Inv s) {q : TimerQueue} (hq : q.Consistent s.elsewhere)
    (hcalling : q.callingExpiredTimers = s.queue.callingExpiredTimers) :
    Inv { s with queue := q } :=
  ⟨hq, h.todo, by rw [hcalling]; exact h.calling⟩

lemma armedIf_calling {q q₁ : TimerQueue} {p : TimerPtr} {t : Timer} {b : Bool}
    (hi : Inserted q p t q₁ b) :
    (q₁.armedIf b t.expiration).callingExpiredTimers = q.callingExpiredTimers := by
  rw [armedIf_eq, hi.rest]

lemma cancelInLoop_calling {q q' : TimerQueue} {id : TimerId} (h : CancelInLoop q id q') :
    q'.callingExpiredTimers = q.callingExpiredTimers := by
  cases h with
  | active e q' he hid hc => rw [hc.rest]
  | canceling hnone hcalling => rfl
  | absent hnone hcalling => rfl

lemma doPendingFunctor_spec {s : System} (h : Inv s) {f : Functor} {fs : List Functor}
    (hfs : s.functors = f :: fs) (hbatch : s.batch = none) :
    Safe (runFunctor s.queue f) fun q' =>
      Inv { s with queue := q', functors := fs } ∧
        Stepped s .doPendingFunctor { s with queue := q', functors := fs } := by
  cases f with
  | addTimerInLoop p =>
    have hcon : s.queue.Consistent (p :: elsewhere { s with functors := fs }) := by
      apply h.consistent.perm
      simp only [elsewhere, expired, hbatch, waiting, hfs, List.filterMap_cons, Functor.timer]
      exact List.perm_middle
    obtain ⟨t, ht, -⟩ := hcon.owns.live hcon.mem_cons
    apply (addTimerInLoop_spec hcon ht).safe.mono
    rintro q' ⟨hcon', q₁, b, hi, rfl⟩
    refine ⟨⟨hcon', h.todo, ?_⟩, .addTimerInLoop p t q₁ b fs hbatch hfs ht hi⟩
    rw [armedIf_calling hi]
    exact h.calling
  | cancelInLoop id =>
    have hcon : s.queue.Consistent (elsewhere { s with functors := fs }) := by
      have hcon := h.consistent
      rwa [elsewhere, waiting, hfs, List.filterMap_cons_none rfl] at hcon
    apply (cancelInLoop_spec hcon id).safe.mono
    rintro q' ⟨hc, hcon'⟩
    refine ⟨⟨hcon', h.todo, ?_⟩, .cancelInLoop id q' fs hbatch hfs hc⟩
    rw [cancelInLoop_calling hc]
    exact h.calling

/-- Another thread has allocated a timer. -/
lemma Inv.newTimer {s : System} (h : Inv s) {q : TimerQueue} {p : TimerPtr}
    (hq : q.Consistent (p :: s.elsewhere))
    (hcalling : q.callingExpiredTimers = s.queue.callingExpiredTimers) :
    Inv { s with queue := q, inFlight := s.inFlight ++ [p] } := by
  refine ⟨hq.perm ?_, h.todo, by rw [hcalling]; exact h.calling⟩
  simp only [elsewhere, expired, waiting, List.append_assoc, List.singleton_append]
  refine List.perm_middle.symm.trans (List.Perm.append_left _ ?_)
  exact List.perm_middle.symm

/-- Another thread hands the timer over to the loop's queue. -/
lemma Inv.queueTimer {s : System} (h : Inv s) {i : ℕ} {p : TimerPtr}
    (hi : s.inFlight[i]? = some p) :
    Inv { s with
      inFlight := s.inFlight.eraseIdx i, functors := s.functors ++ [.addTimerInLoop p] } := by
  obtain ⟨hlt, rfl⟩ := List.getElem?_eq_some_iff.mp hi
  refine ⟨h.consistent.perm (List.Perm.append_left _ ?_), h.todo, h.calling⟩
  simp only [waiting, List.filterMap_append]
  have herase := (List.getElem_cons_eraseIdx_perm hlt).symm.append_right
    (s.functors.filterMap Functor.timer)
  apply herase.trans
  simp only [List.filterMap_cons, List.filterMap_nil, Functor.timer, List.cons_append]
  rw [← List.append_assoc]
  exact (List.perm_append_singleton _ _).symm

lemma handleRead_spec {s : System} (h : Inv s) (hbatch : s.batch = none) (readAt : Now) :
    Safe (s.queue.beginHandleRead readAt) fun r =>
      Inv { s with queue := r.1, batch := some ⟨r.2.2, r.2.1, r.2.1⟩ } ∧
        Stepped s (.handleRead readAt)
          { s with queue := r.1, batch := some ⟨r.2.2, r.2.1, r.2.1⟩ } := by
  have hcon : s.queue.Consistent s.waiting := by
    simpa [elsewhere, expired, hbatch] using h.consistent
  apply (beginHandleRead_spec hcon readAt).mono
  rintro ⟨q, expired, now⟩ ⟨rfl, ⟨q₁, hx, rfl⟩, hcon'⟩
  refine ⟨⟨hcon', ?_, by simp⟩, .handleRead readAt q₁ expired hbatch hx⟩
  rintro b ⟨⟩
  exact List.suffix_rfl

/-- The timer whose callback `handleRead` runs next is alive. -/
lemma Inv.next_live {s : System} (h : Inv s) {now : ℤ} {expired todo : List Entry} {it : Entry}
    (hbatch : s.batch = some ⟨now, expired, it :: todo⟩) :
    ∃ t, s.queue.heap it.timer.object = some t := by
  have hin : it ∈ s.expired := by
    simp only [System.expired, hbatch]
    exact (h.todo _ hbatch).subset (List.mem_cons_self ..)
  have hmem : it.timer ∈ s.elsewhere := List.mem_append_left _ (List.mem_map_of_mem hin)
  obtain ⟨t, ht, -⟩ := h.consistent.owns.live (List.mem_append_right _ hmem)
  exact ⟨t, ht⟩

lemma Inv.runTimer {s : System} (h : Inv s) {now : ℤ} {expired todo : List Entry} {it : Entry}
    (hbatch : s.batch = some ⟨now, expired, it :: todo⟩) :
    Inv { s with batch := some ⟨now, expired, todo⟩ } := by
  refine ⟨?_, ?_, ?_⟩
  · have hcon := h.consistent
    simp only [elsewhere, System.expired, hbatch] at hcon
    exact hcon
  · rintro b ⟨⟩
    exact (List.suffix_cons it todo).trans (h.todo _ hbatch)
  · simp [h.calling, hbatch]

lemma endHandleRead_stepped {s : System} (h : Inv s) {now : ℤ} {expired : List Entry}
    (hbatch : s.batch = some ⟨now, expired, []⟩) :
    Safe (s.queue.endHandleRead expired now) fun q' =>
      Inv { s with queue := q', batch := none } ∧
        Stepped s .endHandleRead { s with queue := q', batch := none } := by
  have hcon : s.queue.Consistent (expired.map (·.timer) ++ s.waiting) := by
    simpa [elsewhere, System.expired, hbatch] using h.consistent
  apply (endHandleRead_spec hcon).mono
  rintro q' ⟨hcon', q₁, hw, rfl⟩
  refine ⟨⟨hcon', by simp, ?_⟩, .endHandleRead now expired q₁ hbatch hw⟩
  rw [rearmed_eq, hw.rest]
  simp

theorem step_spec {s : System} (h : Inv s) (e : Event) :
    Safe (s.step e) fun s' => Inv s' ∧ Stepped s e s' := by
  cases e with
  | setClock now =>
    have hcon := h.consistent
    exact ⟨h.queue ⟨hcon.owns, hcon.expiration, hcon.active⟩ rfl, .setClock now⟩
  | addTimer address when interval repeats =>
    simp only [step, safe_bind]
    apply (allocate_spec h.consistent address when interval repeats).mono
    rintro ⟨q, p⟩ ⟨hr, -, hcon⟩
    obtain ⟨rfl, rfl⟩ := Prod.mk.inj hr
    apply (addTimerInLoop_spec hcon (Function.update_self ..)).safe.mono
    rintro q' ⟨hcon', q₁, b, hi, rfl⟩
    refine ⟨h.queue hcon' ((armedIf_calling hi).trans rfl), ?_⟩
    exact .addTimer ⟨address, when.toInt, interval, repeats, _⟩ when rfl q₁ b hi
  | newTimer address when interval repeats =>
    simp only [step, safe_bind]
    apply (allocate_spec h.consistent address when interval repeats).mono
    rintro ⟨q, p⟩ ⟨hr, -, hcon⟩
    obtain ⟨rfl, rfl⟩ := Prod.mk.inj hr
    refine ⟨h.newTimer hcon rfl, ?_⟩
    exact .newTimer ⟨address, when.toInt, interval, repeats, _⟩ when rfl
  | queueTimer i =>
    simp only [step]
    split
    · rename_i p hp
      exact ⟨h.queueTimer hp, .queueTimer i p hp⟩
    · trivial
  | cancel id =>
    simp only [step, safe_bind]
    apply (cancelInLoop_spec h.consistent id).safe.mono
    rintro q' ⟨hc, hcon⟩
    exact ⟨h.queue hcon (cancelInLoop_calling hc), .cancel id q' hc⟩
  | queueCancel id =>
    have hsame : (s.functors ++ [Functor.cancelInLoop id]).filterMap Functor.timer =
        s.functors.filterMap Functor.timer := by
      rw [List.filterMap_append, List.filterMap_cons_none rfl, List.filterMap_nil, List.append_nil]
    refine ⟨⟨?_, h.todo, h.calling⟩, .queueCancel id⟩
    rw [elsewhere, waiting, hsame]
    exact h.consistent
  | doPendingFunctor =>
    simp only [step]
    split
    · rename_i f fs hbatch hfs
      simp only [safe_bind]
      exact doPendingFunctor_spec h hfs hbatch
    · trivial
  | handleRead readAt =>
    simp only [step]
    split
    · rename_i hbatch
      simp only [safe_bind]
      exact handleRead_spec h hbatch readAt
    · trivial
  | runTimer =>
    simp only [step]
    split
    · rename_i now expired it todo hbatch
      obtain ⟨t, ht⟩ := h.next_live hbatch
      rw [load_eq ht, ok_bind]
      exact ⟨h.runTimer hbatch, .runTimer now expired it todo hbatch⟩
    · trivial
  | endHandleRead =>
    simp only [step]
    split
    · rename_i now expired hbatch
      simp only [safe_bind]
      exact endHandleRead_stepped h hbatch
    · trivial

theorem step_inv {s : System} (h : Inv s) (e : Event) : Safe (s.step e) Inv :=
  (step_spec h e).mono fun _ hs' => hs'.1

/-- In every run no assertion fails and no timer is used after its deletion or deleted twice, and in
every state reached: an entry with time `when` and timer `p` is in `timers_` if and only if `p` with
its sequence number is in `activeTimers_` and `when` is its current expiration; and every timer that
was added and not deleted is in `timers_` or in the batch being processed. -/
theorem timers_consistent (clock : Now) (es : List Event) :
    Safe (run step (init clock) es) fun s =>
      (∀ when p, ⟨when, p⟩ ∈ s.queue.timers ↔
        ∃ t, s.queue.heap p.object = some t ∧ ⟨p, t.sequence⟩ ∈ s.queue.activeTimers ∧
          when = t.expiration) ∧
      ∀ o, s.queue.heap o ≠ none → (∀ p ∈ s.waiting, p.object ≠ o) →
        (∃ e ∈ s.queue.timers, e.timer.object = o) ∨ ∃ e ∈ s.expired, e.timer.object = o := by
  refine (run_invariant (fun s e hs => step_inv hs e) (init_inv clock) es).mono ?_
  intro s hs
  constructor
  · intro when p
    constructor
    · intro hmem
      obtain ⟨t, ht, -, hseq, hexp⟩ := hs.consistent.load_entry hmem
      refine ⟨t, ht, ?_, hexp.symm⟩
      rw [hseq]
      exact hs.consistent.active_mem hmem
    · rintro ⟨t, ht, hactive, rfl⟩
      obtain ⟨e, he, heq⟩ := hs.consistent.exists_entry hactive
      obtain ⟨rfl, -⟩ := ActiveTimer.mk.inj heq
      have hexp := hs.consistent.expiration e he t ht
      rwa [hexp]
  · intro o ho hwaiting
    obtain ⟨p, hp, rfl⟩ := hs.consistent.owns.exists_owner ho
    rcases mem_pointers hp with ⟨e, he, rfl⟩ | ⟨e, he, rfl⟩ | hp
    · exact Or.inl ⟨e, he, rfl⟩
    · exact Or.inr ⟨e, he, rfl⟩
    · exact absurd rfl (hwaiting p hp)

end System
end TimerQueue
end Muduo

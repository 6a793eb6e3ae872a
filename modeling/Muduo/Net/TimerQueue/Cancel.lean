import Muduo.Machine.Log
import Muduo.Net.TimerQueue.Consistency

/-!
# Cancelled timers

A cancel of a timer that is in `timers_` deletes it, and a cancel of a timer whose callback runs or
has run in the current batch keeps it from being inserted again. In two other cases `cancelInLoop`
does nothing that lasts: the timer is in the batch and its callback has not been started, which
`handleRead` then starts without a look at `cancelingTimers_`; or its `addTimerInLoop` is still
queued, and will insert it. `Timely` excludes the two, and a cancelled timer then stays cancelled.
-/

namespace Muduo
namespace TimerQueue

open Machine

/-- What happens to timers, in order. -/
inductive TimerLog where
  /-- `addTimer` has returned the id. -/
  | issued (id : TimerId)
  /-- `cancelInLoop` has been executed for the id. -/
  | cancelled (id : TimerId)
  /-- The callback of the timer is started. -/
  | started (id : TimerId)
  deriving DecidableEq, Repr

namespace System

/-- The id for which a step executes `cancelInLoop`. -/
def cancels (s : System) : Event → Option TimerId
  | .cancel id => some id
  | .doPendingFunctor =>
    match s.functors with
    | .cancelInLoop id :: _ => some id
    | _ => none
  | _ => none

def noteTimer (s : System) (e : Event) (log : List TimerLog) : List TimerLog :=
  match e with
  | .addTimer address _ _ _ => log ++ [.issued ⟨address, s.queue.numCreated + 1⟩]
  | .queueTimer i => log ++ (s.inFlight[i]?.map fun p => .issued p.id).toList
  | .runTimer =>
    match s.batch with
    | some ⟨_, _, it :: _⟩ => log ++ [.started it.timer.id]
    | _ => log
  | e => log ++ ((s.cancels e).map .cancelled).toList

/-- When `cancelInLoop` is executed for a timer, the timer has been added, and if it is in the
batch, its callback has been started. -/
def Timely (s : System) (e : Event) : Prop :=
  ∀ id ∈ s.cancels e, (∀ p ∈ s.waiting, p.id ≠ id) ∧
    ∀ b ∈ s.batch, ∀ it ∈ b.todo, it.timer.id ≠ id

instance (s : System) (e : Event) : Decidable (s.Timely e) :=
  inferInstanceAs (Decidable (∀ id ∈ s.cancels e, _))

/-- The id was returned by `addTimer`, and later `cancelInLoop` was executed for it. -/
def CancelledIn (id : TimerId) (log : List TimerLog) : Prop :=
  ∃ pre post, log = pre ++ .cancelled id :: post ∧ .issued id ∈ pre

lemma CancelledIn.concat {id : TimerId} {log : List TimerLog} {x : TimerLog}
    (h : CancelledIn id (log ++ [x])) :
    CancelledIn id log ∨ x = .cancelled id ∧ .issued id ∈ log := by
  obtain ⟨pre, post, heq, hid⟩ := h
  rcases concat_eq_append_cons heq with ⟨rfl, hx⟩ | ⟨post', hlog⟩
  · exact Or.inr ⟨hx, hid⟩
  · exact Or.inl ⟨pre, post', hlog, hid⟩

/-! ### What a step does to a timer -/

/-- A timer object that exists keeps its address, and one that is gone does not come back. -/
structure Evolves (q q' : TimerQueue) : Prop where
  numCreated : q.numCreated ≤ q'.numCreated
  heap : ∀ o ≤ q.numCreated, ∀ t' ∈ q'.heap o, ∃ t ∈ q.heap o, t'.address = t.address

lemma Evolves.of_heap {q q' : TimerQueue} (hn : q'.numCreated = q.numCreated)
    (hh : q'.heap = q.heap) : Evolves q q' :=
  ⟨hn.ge, fun _ _ t ht => ⟨t, hh ▸ ht, rfl⟩⟩

lemma Evolves.trans {q q' q'' : TimerQueue} (h : Evolves q q') (h' : Evolves q' q'') :
    Evolves q q'' := by
  refine ⟨h.numCreated.trans h'.numCreated, fun o ho t'' ht'' => ?_⟩
  obtain ⟨t', ht', ha'⟩ := h'.heap o (ho.trans h.numCreated) t'' ht''
  obtain ⟨t, ht, ha⟩ := h.heap o ho t' ht'
  exact ⟨t, ht, ha'.trans ha⟩

lemma Evolves.none {q q' : TimerQueue} (h : Evolves q q') {o : ℕ} (ho : o ≤ q.numCreated)
    (hnone : q.heap o = none) : q'.heap o = none := by
  rw [Option.eq_none_iff_forall_not_mem]
  intro t' ht'
  obtain ⟨t, ht, -⟩ := h.heap o ho t' ht'
  simp [hnone] at ht

lemma allocated_evolves (q : TimerQueue) (t : Timer) : Evolves q (q.allocated t) := by
  refine ⟨Nat.le_succ _, fun o ho t' ht' => ?_⟩
  have hne : o ≠ q.numCreated + 1 := by
    rintro rfl
    exact absurd ho (Nat.not_succ_le_self _)
  simp only [allocated, Function.update_of_ne hne] at ht'
  exact ⟨t', ht', rfl⟩

lemma added_evolves {q q₁ : TimerQueue} {p : TimerPtr} {t : Timer} {b : Bool}
    (hi : Inserted q p t q₁ b) :
    Evolves q (q₁.armedIf b t.expiration) ∧
      (q₁.armedIf b t.expiration).cancelingTimers = q.cancelingTimers := by
  rw [armedIf_eq, hi.rest]
  exact ⟨.of_heap rfl rfl, rfl⟩

lemma cancelInLoop_evolves {q q' : TimerQueue} {id : TimerId} (h : CancelInLoop q id q') :
    Evolves q q' ∧ q.cancelingTimers ⊆ q'.cancelingTimers := by
  cases h with
  | active e q' he hid hc =>
    have hn : q'.numCreated = q.numCreated := by rw [hc.rest]
    have hcanceling : q'.cancelingTimers = q.cancelingTimers := by rw [hc.rest]
    refine ⟨⟨hn.ge, fun o _ t' ht' => ?_⟩, hcanceling ▸ Finset.Subset.refl _⟩
    rw [hc.heap] at ht'
    exact ⟨t', mem_update_none ht', rfl⟩
  | canceling hnone hcalling => exact ⟨.of_heap rfl rfl, Finset.subset_insert _ _⟩
  | absent hnone hcalling => exact ⟨.of_heap rfl rfl, Finset.Subset.refl _⟩

/-- The timer is in the batch, its callback has been started, and `reset` will delete it. -/
def Doomed (s : System) (id : TimerId) : Prop :=
  ∃ b ∈ s.batch, (∃ it ∈ b.expired, it.timer.id = id) ∧ (∀ it ∈ b.todo, it.timer.id ≠ id) ∧
    id ∈ s.queue.cancelingTimers

/-- The timer's callback will not be started any more. -/
def Silenced (s : System) (id : TimerId) : Prop :=
  s.queue.heap id.sequence = none ∨ s.Doomed id

structure Progress (s s' : System) : Prop where
  evolves : Evolves s.queue s'.queue
  doomed : ∀ id, s.Doomed id → s'.Silenced id

/-- A step that leaves the batch alone and forgets no cancel. -/
lemma progress_of_evolves {s s' : System} (hb : s'.batch = s.batch)
    (he : Evolves s.queue s'.queue)
    (hc : s.queue.cancelingTimers ⊆ s'.queue.cancelingTimers) : Progress s s' := by
  refine ⟨he, ?_⟩
  rintro id ⟨b, hbatch, hin, htodo, hid⟩
  exact Or.inr ⟨b, hb ▸ hbatch, hin, htodo, hc hid⟩

/-- A step outside `handleRead`. -/
lemma progress_of_idle {s s' : System} (hb : s.batch = none) (he : Evolves s.queue s'.queue) :
    Progress s s' := by
  refine ⟨he, ?_⟩
  rintro id ⟨b, hbatch, -⟩
  simp [hb] at hbatch

lemma endHandleRead_progress {s : System} {now : ℤ} {expired todo : List Entry} {q : TimerQueue}
    (hbatch : s.batch = some ⟨now, expired, todo⟩)
    (hw : WasReset { s.queue with callingExpiredTimers := false } now expired q) :
    Progress s { s with queue := q.rearmed, batch := none } := by
  have hheap : q.rearmed.heap = q.heap := by rw [rearmed_eq]
  have hnum : q.rearmed.numCreated = s.queue.numCreated := by rw [rearmed_eq, hw.rest]
  refine ⟨⟨hnum.ge, fun o _ t' ht' => ?_⟩, ?_⟩
  · obtain ⟨t, ht, hsame⟩ := hw.heap o t' (hheap ▸ ht')
    exact ⟨t, ht, by rw [hsame]⟩
  · rintro id ⟨b, hb, ⟨it, hit, rfl⟩, -, hid⟩
    rw [hbatch, Option.mem_some_iff] at hb
    subst hb
    apply Or.inl
    rw [hheap]
    exact hw.cancelled it hit hid

theorem Stepped.progress {s s' : System} {e : Event} (h : Stepped s e s') : Progress s s' := by
  cases h with
  | setClock now => exact progress_of_evolves rfl (.of_heap rfl rfl) (Finset.Subset.refl _)
  | addTimer t when hwhen q b hi =>
    obtain ⟨he, hc⟩ := added_evolves hi
    exact progress_of_evolves rfl ((allocated_evolves _ _).trans he) (by rw [hc]; rfl)
  | newTimer t when hwhen =>
    exact progress_of_evolves rfl (allocated_evolves _ _) (Finset.Subset.refl _)
  | queueTimer i p hp => exact progress_of_evolves rfl (.of_heap rfl rfl) (Finset.Subset.refl _)
  | cancel id q hc =>
    obtain ⟨he, hsub⟩ := cancelInLoop_evolves hc
    exact progress_of_evolves rfl he hsub
  | queueCancel id => exact progress_of_evolves rfl (.of_heap rfl rfl) (Finset.Subset.refl _)
  | addTimerInLoop p t q b fs hbatch hfs ht hi => exact progress_of_idle hbatch (added_evolves hi).1
  | cancelInLoop id q fs hbatch hfs hc =>
    exact progress_of_idle hbatch (cancelInLoop_evolves hc).1
  | handleRead readAt q expired hbatch hx =>
    refine progress_of_idle hbatch (.of_heap ?_ ?_)
    · rw [hx.rest, readTimerfd_eq]
    · rw [hx.rest, readTimerfd_eq]
  | runTimer now expired it todo hbatch =>
    refine ⟨.of_heap rfl rfl, ?_⟩
    rintro id ⟨b, hb, hin, htodo, hid⟩
    rw [hbatch, Option.mem_some_iff] at hb
    subst hb
    exact Or.inr ⟨_, rfl, hin, fun it' hit' => htodo it' (List.mem_cons_of_mem it hit'), hid⟩
  | endHandleRead now expired q hbatch hw => exact endHandleRead_progress hbatch hw

lemma Progress.silenced {s s' : System} (h : Progress s s') {id : TimerId}
    (hid : id.sequence ≤ s.queue.numCreated) (hs : s.Silenced id) : s'.Silenced id := by
  rcases hs with hnone | hdoomed
  · exact Or.inl (h.evolves.none hid hnone)
  · exact h.doomed id hdoomed

/-- The id names a timer object, at its address as long as it lives. -/
def Known (q : TimerQueue) (id : TimerId) : Prop :=
  id.sequence ≤ q.numCreated ∧ ∀ t ∈ q.heap id.sequence, t.address = id.address

lemma Known.evolves {q q' : TimerQueue} {id : TimerId} (h : Known q id) (he : Evolves q q') :
    Known q' id := by
  refine ⟨h.1.trans he.numCreated, fun t' ht' => ?_⟩
  obtain ⟨t, ht, ha⟩ := he.heap _ h.1 t' ht'
  exact ha.trans (h.2 t ht)

/-- A live timer that is neither in `timers_` nor waiting is in the batch. -/
lemma Inv.expired_of_live {s : System} (h : Inv s) {id : TimerId} (hknown : Known s.queue id)
    (hlive : s.queue.heap id.sequence ≠ none) (hnone : ∀ e ∈ s.queue.timers, id ≠ e.timer.id)
    (hwaiting : ∀ p ∈ s.waiting, p.id ≠ id) : ∃ it ∈ s.expired, it.timer.id = id := by
  obtain ⟨p, hp, ho⟩ := h.consistent.owns.exists_owner hlive
  obtain ⟨t, ht, ha, -⟩ := h.consistent.owns.live hp
  have hid : p.id = id := by
    have haddr := hknown.2 t (ho ▸ ht)
    rw [TimerPtr.id, ← ha, haddr, ho]
  rcases mem_pointers hp with ⟨e, he, rfl⟩ | ⟨it, hit, rfl⟩ | hp
  · exact absurd hid.symm (hnone e he)
  · exact ⟨it, hit, hid⟩
  · exact absurd hid (hwaiting p hp)

/-- A timely cancel of an issued id silences the timer. -/
lemma cancelInLoop_silences {s : System} (h : Inv s) {id : TimerId} {q' : TimerQueue}
    (hc : CancelInLoop s.queue id q') (hknown : Known s.queue id)
    (hwaiting : ∀ p ∈ s.waiting, p.id ≠ id)
    (htodo : ∀ b ∈ s.batch, ∀ it ∈ b.todo, it.timer.id ≠ id) :
    Silenced { s with queue := q' } id := by
  cases hc with
  | active e q' he hid hc =>
    apply Or.inl
    rw [hc.heap, hid]
    exact Function.update_self ..
  | canceling hnone hcalling =>
    by_cases hlive : s.queue.heap id.sequence = none
    · exact Or.inl hlive
    · obtain ⟨it, hit, hid⟩ := h.expired_of_live hknown hlive hnone hwaiting
      obtain ⟨b, hb⟩ := Option.ne_none_iff_exists'.mp (h.calling.mp hcalling)
      simp only [System.expired, hb] at hit
      exact Or.inr ⟨b, hb, ⟨it, hit, hid⟩, htodo b hb, Finset.mem_insert_self _ _⟩
  | absent hnone hcalling =>
    by_cases hlive : s.queue.heap id.sequence = none
    · exact Or.inl hlive
    · obtain ⟨it, hit, -⟩ := h.expired_of_live hknown hlive hnone hwaiting
      have hb : s.batch = none := by
        by_contra hb
        simp [h.calling.mpr hb] at hcalling
      simp [System.expired, hb] at hit

/-! ### Runs -/

structure CancelInv (s : System) (log : List TimerLog) : Prop where
  inv : Inv s
  issued : ∀ id, .issued id ∈ log → Known s.queue id
  cancelled : ∀ id, CancelledIn id log → s.Silenced id
  started : ∀ id, AtEach (.started id) (fun pre => ¬CancelledIn id pre) log

lemma init_cancelInv (clock : Now) : CancelInv (init clock) [] := by
  refine ⟨init_inv clock, by simp, ?_, fun id => atEach_of_notMem (by simp)⟩
  rintro id ⟨pre, post, heq, -⟩
  simp at heq

lemma CancelledIn.issued {id : TimerId} {log : List TimerLog} (h : CancelledIn id log) :
    .issued id ∈ log := by
  obtain ⟨pre, post, rfl, hid⟩ := h
  exact List.mem_append_left _ hid

lemma CancelInv.step {s s' : System} {log : List TimerLog} (h : CancelInv s log) (hinv : Inv s')
    (hp : Progress s s') : CancelInv s' log :=
  ⟨hinv, fun id hid => (h.issued id hid).evolves hp.evolves,
    fun id hid => hp.silenced (h.issued id hid.issued).1 (h.cancelled id hid), h.started⟩

lemma CancelInv.step_concat {s s' : System} {log : List TimerLog} {x : TimerLog}
    (h : CancelInv s log) (hinv : Inv s') (hp : Progress s s')
    (hissued : ∀ id, x = .issued id → Known s'.queue id)
    (hcancelled : ∀ id, x = .cancelled id → .issued id ∈ log → s'.Silenced id)
    (hstarted : ∀ id, x = .started id → ¬CancelledIn id log) : CancelInv s' (log ++ [x]) := by
  have h' := h.step hinv hp
  refine ⟨hinv, ?_, ?_, ?_⟩
  · intro id hid
    rcases List.mem_append.mp hid with hid | hid
    · exact h'.issued id hid
    · exact hissued id (List.mem_singleton.mp hid).symm
  · intro id hid
    rcases hid.concat with hid | ⟨hx, hid⟩
    · exact h'.cancelled id hid
    · exact hcancelled id hx hid
  · intro id
    by_cases hx : x = .started id
    · exact (h.started id).concat (hstarted id hx)
    · exact (h.started id).concat_of_ne hx

lemma Stepped.addTimer_known {s s' : System} {address : ℕ} {when : Int64} {interval : ℕ}
    {repeats : Bool} (h : Stepped s (.addTimer address when interval repeats) s') :
    Known s'.queue ⟨address, s.queue.numCreated + 1⟩ := by
  cases h with
  | addTimer t when hwhen q b hi =>
    refine Known.evolves ⟨le_rfl, ?_⟩ (added_evolves hi).1
    simp [allocated]

lemma Inv.waiting_known {s : System} (h : Inv s) {p : TimerPtr} (hp : p ∈ s.waiting) :
    Known s.queue p.id := by
  have hmem : p ∈ s.queue.pointers s.elsewhere :=
    List.mem_append_right _ (List.mem_append_right _ hp)
  obtain ⟨t, ht, -⟩ := h.consistent.owns.live hmem
  exact ⟨(h.consistent.owns.timer _ t ht).2.1, h.consistent.owns.address p hmem⟩

/-- The timer whose callback is started next is not silenced. -/
lemma Inv.next_not_silenced {s : System} (h : Inv s) {now : ℤ} {expired todo : List Entry}
    {it : Entry} (hbatch : s.batch = some ⟨now, expired, it :: todo⟩) :
    ¬s.Silenced it.timer.id := by
  rintro (hnone | ⟨b, hb, -, htodo, -⟩)
  · obtain ⟨t, ht⟩ := h.next_live hbatch
    simp [TimerPtr.id, ht] at hnone
  · rw [hbatch, Option.mem_some_iff] at hb
    subst hb
    exact htodo it (List.mem_cons_self ..) rfl

/-- A timely step that executes `cancelInLoop` silences the timer. -/
lemma Stepped.silences {s s' : System} {e : Event} (hs : Stepped s e s') (h : Inv s) {id : TimerId}
    (hc : s.cancels e = some id) (hknown : Known s.queue id) (ht : s.Timely e) :
    s'.Silenced id := by
  obtain ⟨hwaiting, htodo⟩ := ht id hc
  cases hs with
  | cancel id' q hq =>
    cases hc
    exact cancelInLoop_silences h hq hknown hwaiting htodo
  | cancelInLoop id' q fs hbatch hfs hq =>
    simp only [cancels, hfs, Option.some.injEq] at hc
    subst hc
    exact cancelInLoop_silences h hq hknown hwaiting htodo
  | addTimerInLoop p t q b fs hbatch hfs ht hi => simp [cancels, hfs] at hc
  | _ => simp [cancels] at hc

lemma Stepped.cancelInv {s s' : System} {e : Event} {log : List TimerLog} (hs : Stepped s e s')
    (h : CancelInv s log) (hinv : Inv s') (ht : s.Timely e) :
    CancelInv s' (s.noteTimer e log) := by
  have hp := hs.progress
  unfold noteTimer
  split
  · refine h.step_concat hinv hp ?_ (by simp) (by simp)
    intro id hid
    cases hid
    exact hs.addTimer_known
  · rename_i i
    match hi : s.inFlight[i]? with
    | none => simpa using h.step hinv hp
    | some p =>
      refine h.step_concat hinv hp ?_ (by simp) (by simp)
      intro id hid
      cases hid
      have hmem : p ∈ s.waiting := List.mem_append_left _ (List.mem_of_getElem? hi)
      exact (h.inv.waiting_known hmem).evolves hp.evolves
  · split
    · rename_i now expired it todo hbatch
      refine h.step_concat hinv hp (by simp) (by simp) ?_
      intro id hid hcancelled
      cases hid
      exact h.inv.next_not_silenced hbatch (h.cancelled _ hcancelled)
    · exact h.step hinv hp
  · match hc : s.cancels e with
    | none => simpa using h.step hinv hp
    | some id =>
      refine h.step_concat hinv hp (by simp) ?_ (by simp)
      intro id' hid' hissued
      cases hid'
      exact hs.silences h.inv hc (h.issued id hissued) ht

lemma step_cancelInv {s : System} {log : List TimerLog} (h : CancelInv s log) {e : Event}
    (ht : s.Timely e) : Safe (s.step e) fun s' => CancelInv s' (s.noteTimer e log) :=
  (step_spec h.inv e).mono fun _ ⟨hinv, hs⟩ => hs.cancelInv h hinv ht

/-- In every run whose cancels are timely, a timer whose id `addTimer` has returned is not started
after `cancelInLoop` has been executed for it. -/
theorem cancelled_stays_cancelled {clock : Now} {es : List Event}
    (h : Along (track step noteTimer) (fun p e => p.1.Timely e) (init clock, []) es) :
    Safe (run (track step noteTimer) (init clock, []) es) fun p =>
      ∀ id pre post, p.2 = pre ++ .cancelled id :: post → .issued id ∈ pre →
        .started id ∉ post := by
  have hrun := run_safe (I := fun p : System × List TimerLog => CancelInv p.1 p.2)
    (fun p e hp hP => safe_track.mpr (step_cancelInv hp hP)) (init_cancelInv clock) h
  apply hrun.mono
  rintro ⟨s, log⟩ hinv id pre post heq hissued hstarted
  obtain ⟨mid, post', rfl⟩ := List.append_of_mem hstarted
  refine hinv.started id (pre ++ .cancelled id :: mid) post' ?_ ⟨pre, mid, rfl, hissued⟩
  simpa using heq

/-- A repeating timer that its own callback cancels, and one that another thread cancels while it
waits. -/
@[irreducible] def timelyCancels : List Event :=
  [.addTimer 1 5 3 true, .newTimer 2 20 0 false, .queueTimer 0, .doPendingFunctor,
    .handleRead ⟨10, by decide⟩, .runTimer, .cancel ⟨1, 1⟩, .endHandleRead, .queueCancel ⟨2, 2⟩,
    .doPendingFunctor, .setClock ⟨30, by decide⟩, .handleRead ⟨30, by decide⟩, .endHandleRead]

theorem cancelled_stays_cancelled_twice :
    Yields (run (track step noteTimer) (init ⟨10, by decide⟩, []) timelyCancels) fun p =>
      p.2 = [.issued ⟨1, 1⟩, .issued ⟨2, 2⟩, .started ⟨1, 1⟩, .cancelled ⟨1, 1⟩,
        .cancelled ⟨2, 2⟩] ∧
      ∀ id pre post, p.2 = pre ++ .cancelled id :: post → .issued id ∈ pre →
        .started id ∉ post := by
  have h : Along (track step noteTimer) (fun p e => p.1.Timely e) (init ⟨10, by decide⟩, [])
      timelyCancels := by decide +kernel
  have hrun : Yields (run (track step noteTimer) (init ⟨10, by decide⟩, []) timelyCancels) fun p =>
      p.2 = [.issued ⟨1, 1⟩, .issued ⟨2, 2⟩, .started ⟨1, 1⟩, .cancelled ⟨1, 1⟩,
        .cancelled ⟨2, 2⟩] := by decide +kernel
  obtain ⟨p, hp, hlog⟩ := hrun
  exact ⟨p, hp, hlog, (cancelled_stays_cancelled h).of_ok hp⟩

/-- Two timers expire together, and the callback of the first cancels the second. -/
def cancelsInBatch : List Event :=
  [.addTimer 1 5 0 false, .addTimer 2 5 0 false, .handleRead ⟨10, by decide⟩, .runTimer,
    .cancel ⟨2, 2⟩, .runTimer]

/-- The loop thread cancels a timer that another thread has added, before its `addTimerInLoop`
runs. -/
def cancelsBeforeAdded : List Event :=
  [.newTimer 1 5 0 false, .queueTimer 0, .newTimer 2 5 0 false, .queueTimer 0, .cancel ⟨2, 2⟩,
    .doPendingFunctor, .doPendingFunctor, .handleRead ⟨10, by decide⟩, .runTimer, .runTimer]

/-- The second timer is started after it was cancelled. -/
def StartsCancelled (es : List Event) : Prop :=
  Yields (run (track step noteTimer) (init ⟨10, by decide⟩, []) es) fun p =>
    ∃ pre post, p.2 = pre ++ .cancelled ⟨2, 2⟩ :: post ∧ .issued ⟨2, 2⟩ ∈ pre ∧
      .started ⟨2, 2⟩ ∈ post

theorem cancelled_timer_started :
    StartsCancelled cancelsInBatch ∧ StartsCancelled cancelsBeforeAdded := by
  have hbatch : Yields (run (track step noteTimer) (init ⟨10, by decide⟩, []) cancelsInBatch)
      fun p => p.2 = [.issued ⟨1, 1⟩, .issued ⟨2, 2⟩, .started ⟨1, 1⟩] ++
        .cancelled ⟨2, 2⟩ :: [.started ⟨2, 2⟩] := by decide +kernel
  have hadded : Yields (run (track step noteTimer) (init ⟨10, by decide⟩, []) cancelsBeforeAdded)
      fun p => p.2 = [.issued ⟨1, 1⟩, .issued ⟨2, 2⟩] ++
        .cancelled ⟨2, 2⟩ :: [.started ⟨1, 1⟩, .started ⟨2, 2⟩] := by decide +kernel
  constructor
  · obtain ⟨p, hp, hlog⟩ := hbatch
    exact ⟨p, hp, _, _, hlog, by simp, by simp⟩
  · obtain ⟨p, hp, hlog⟩ := hadded
    exact ⟨p, hp, _, _, hlog, by simp, by simp⟩

end System
end TimerQueue
end Muduo

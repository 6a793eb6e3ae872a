import Muduo.Net.TimerQueue.Alarm
import Muduo.Net.TimerQueue.Cancel

/-!
# Expiry

`getExpired` cuts `timers_` at `(now, UINTPTR_MAX)`, which no entry equals: the entries before it
are those that are due. Over a run, the callbacks that `handleRead` starts are those of due timers.
`reset` then restarts the timers of the batch that repeat and deletes the others, so a timer that
does not repeat is started once.
-/

namespace Muduo

open Machine

@[simp] lemma Timer.restart_repeats (t : Timer) (now : ℤ) :
    (t.restart now).repeats = t.repeats := by
  unfold Timer.restart
  split <;> rfl

namespace TimerQueue

variable {q : TimerQueue} {p : TimerPtr} {rest : List TimerPtr}

/-! ### The functions of the queue do not wait -/

lemma load_enabled (q : TimerQueue) (p : TimerPtr) : Enabled (q.load p) := by
  unfold load
  split <;> simp

lemma checkSizes_enabled (q : TimerQueue) : Enabled q.checkSizes := enabled_check _ _

lemma eraseActive_enabled (q : TimerQueue) (it : Entry) : Enabled (q.eraseActive it) := by
  apply (load_enabled q it.timer).bind
  intro t
  exact (enabled_check _ _).bind fun _ => enabled_pure _

lemma getExpired_enabled (q : TimerQueue) (now : ℤ) : Enabled (q.getExpired now) := by
  apply (checkSizes_enabled q).bind
  intro _
  apply (enabled_check _ _).bind
  intro _
  apply (Enabled.foldlM eraseActive_enabled _ _).bind
  intro q'
  exact (checkSizes_enabled q').bind fun _ => enabled_pure _

lemma insert_enabled (q : TimerQueue) (p : TimerPtr) : Enabled (q.insert p) := by
  apply (checkSizes_enabled q).bind
  intro _
  apply (load_enabled q p).bind
  intro t
  apply (enabled_check _ _).bind
  intro _
  apply (enabled_check _ _).bind
  intro _
  exact (checkSizes_enabled _).bind fun _ => enabled_pure _

lemma resetEntry_enabled (now : ℤ) (q : TimerQueue) (it : Entry) :
    Enabled (resetEntry now q it) := by
  apply (load_enabled q it.timer).bind
  intro t
  split
  · exact (insert_enabled _ _).bind fun _ => enabled_pure _
  · exact (enabled_check _ _).bind fun _ => enabled_pure _

lemma rearm_enabled (q : TimerQueue) : Enabled q.rearm := by
  unfold rearm
  split
  · exact enabled_pure q
  · exact (load_enabled _ _).bind fun _ => enabled_pure _

lemma endHandleRead_enabled (q : TimerQueue) (expired : List Entry) (now : ℤ) :
    Enabled (q.endHandleRead expired now) :=
  (Enabled.foldlM (resetEntry_enabled now) _ _).bind rearm_enabled

/-! ### getExpired -/

/-- `getExpired(now)` has split `timers_` at `now`: it returns the timers whose expiration is not
after `now`, once each and in the order of their expirations, and leaves the others. -/
structure SplitAt (q : TimerQueue) (now : ℤ) (q' : TimerQueue) (expired : List Entry) : Prop where
  due : ∀ e, e ∈ expired ↔ e ∈ q.timers ∧ e.when ≤ now
  later : ∀ e, e ∈ q'.timers ↔ e ∈ q.timers ∧ now < e.when
  ordered : expired.Pairwise fun e e' => e.when ≤ e'.when
  once : (expired.map (·.timer)).Nodup

lemma Expired.splitAt {now : ℤ} {q' : TimerQueue} {expired : List Entry}
    (h : Expired q now q' expired) (hc : Consistent q rest) : SplitAt q now q' expired := by
  have hmem (e : Entry) : e ∈ q.timers ↔ e ∈ expired ∨ e ∈ q'.timers := by
    rw [SortedSet.mem_iff, ← h.timers, List.mem_append]
    rfl
  refine ⟨?_, ?_, ?_, ?_⟩
  · intro e
    rw [hmem]
    constructor
    · exact fun he => ⟨Or.inl he, h.due e he⟩
    · rintro ⟨he | he, hle⟩
      · exact he
      · exact absurd (h.later e he) (not_lt.mpr hle)
  · intro e
    rw [hmem]
    constructor
    · exact fun he => ⟨Or.inr he, h.later e he⟩
    · rintro ⟨he | he, hlt⟩
      · exact absurd (h.due e he) (not_le.mpr hlt)
      · exact he
  · have hsorted := q.timers.sorted
    rw [← h.timers] at hsorted
    exact (List.pairwise_append.mp hsorted).1.imp fun hlt => Entry.when_le_of_key_le hlt.le
  · have hnodup := hc.owns.nodup
    rw [pointers, ← h.timers, List.map_append, List.map_append, List.map_append] at hnodup
    exact List.Nodup.of_map _ (List.nodup_append.mp (List.nodup_append.mp hnodup).1).1

/-! ### reset -/

/-- The timer of an entry of the batch after `reset`. -/
def restartedTimer (q : TimerQueue) (now : ℤ) (it : Entry) : Option Timer :=
  match q.heap it.timer.object with
  | some t =>
    if t.repeats ∧ it.timer.id ∉ q.cancelingTimers then some (t.restart now) else none
  | none => none

lemma restartedTimer_eq_some {now : ℤ} {it : Entry} {t t' : Timer}
    (ht : q.heap it.timer.object = some t) :
    q.restartedTimer now it = some t' ↔
      t.repeats = true ∧ it.timer.id ∉ q.cancelingTimers ∧
        t' = { t with expiration := addTime now t.interval } := by
  by_cases hr : t.repeats = true
  · by_cases hc : it.timer.id ∈ q.cancelingTimers
    · simp [restartedTimer, ht, hc]
    · simp [restartedTimer, ht, hr, hc, Timer.restart, eq_comm]
  · simp [restartedTimer, ht, hr]

/-- The loop of `reset` has restarted some timers of the batch and deleted the others. -/
structure ResetExactly (q : TimerQueue) (now : ℤ) (expired : List Entry) (q' : TimerQueue) :
    Prop where
  timers : ∀ it ∈ expired, ∀ t ∈ q.restartedTimer now it, ⟨t.expiration, it.timer⟩ ∈ q'.timers
  heap : ∀ it ∈ expired, q'.heap it.timer.object = q.restartedTimer now it
  others : ∀ o, (∀ it ∈ expired, it.timer.object ≠ o) → q'.heap o = q.heap o
  canceling : q'.cancelingTimers = q.cancelingTimers
  numCreated : q'.numCreated = q.numCreated

lemma ResetExactly.nil (q : TimerQueue) (now : ℤ) : ResetExactly q now [] q :=
  ⟨by simp, by simp, fun _ _ => rfl, rfl, rfl⟩

/-- What one turn of the loop does. -/
lemma ResetEntry.exactly {now : ℤ} {it : Entry} {q' : TimerQueue} (h : ResetEntry now q it q') :
    (∀ t ∈ q.restartedTimer now it, ⟨t.expiration, it.timer⟩ ∈ q'.timers) ∧
      (∀ e ∈ q.timers, e ∈ q'.timers) ∧
      q'.heap = Function.update q.heap it.timer.object (q.restartedTimer now it) ∧
      q'.cancelingTimers = q.cancelingTimers ∧ q'.numCreated = q.numCreated := by
  cases h with
  | restarted t q' b ht hrepeats hnot hi =>
    have hr : q.restartedTimer now it = some (t.restart now) := by
      simp [restartedTimer, ht, hrepeats, hnot]
    rw [hr]
    refine ⟨?_, ?_, ?_, ?_⟩
    · rintro t' ⟨⟩
      exact hi.timers.mem_iff.mpr (List.mem_cons_self ..)
    · exact fun e he => hi.timers.mem_iff.mpr (List.mem_cons_of_mem _ he)
    · rw [hi.rest]
      rfl
    · rw [hi.rest]
      exact ⟨rfl, rfl⟩
  | deleted t ht hwhy =>
    have hr : q.restartedTimer now it = none := by
      rcases hwhy with hwhy | hwhy <;> simp [restartedTimer, ht, hwhy]
    rw [hr]
    exact ⟨by simp, fun e he => he, rfl, rfl, rfl⟩

lemma ResetExactly.concat {now : ℤ} {l : List Entry} {it : Entry} {q₁ q₂ : TimerQueue}
    (h : ResetExactly q now l q₁) (hr : ResetEntry now q₁ it q₂)
    (hnew : ∀ it' ∈ l, it'.timer.object ≠ it.timer.object) :
    ResetExactly q now (l ++ [it]) q₂ := by
  obtain ⟨htimers, hold, hheap, hcanceling, hnum⟩ := hr.exactly
  have hsame : q₁.restartedTimer now it = q.restartedTimer now it := by
    simp only [restartedTimer, h.others _ hnew, h.canceling]
  rw [hsame] at htimers hheap
  refine ⟨?_, ?_, ?_, hcanceling.trans h.canceling, hnum.trans h.numCreated⟩
  · intro it' hit' t ht
    rcases List.mem_append.mp hit' with hit' | hit'
    · exact hold _ (h.timers it' hit' t ht)
    · rw [List.mem_singleton.mp hit'] at ht ⊢
      exact htimers t ht
  · intro it' hit'
    rcases List.mem_append.mp hit' with hit' | hit'
    · rw [hheap, Function.update_of_ne (hnew it' hit'), h.heap it' hit']
    · rw [List.mem_singleton.mp hit', hheap, Function.update_self]
  · intro o ho
    have hne : it.timer.object ≠ o := ho it (by simp)
    rw [hheap, Function.update_of_ne hne.symm]
    exact h.others o fun it' hit' => ho it' (List.mem_append_left _ hit')

/-- The entries of a batch belong to different timers. -/
lemma Consistent.batch_nodup {expired : List Entry}
    (h : Consistent q (expired.map (·.timer) ++ rest)) :
    (expired.map (·.timer.object)).Nodup := by
  have hnodup := h.owns.nodup
  rw [pointers, List.map_append, List.map_append] at hnodup
  have := (List.nodup_append.mp (List.nodup_append.mp hnodup).2.1).1
  rwa [List.map_map] at this

theorem resetLoop_exactly {expired : List Entry}
    (h : Consistent q (expired.map (·.timer) ++ rest)) (now : ℤ) :
    Safe (expired.foldlM (resetEntry now) q) fun q' =>
      ResetExactly q now expired q' ∧ Consistent q' rest := by
  have hnodup := h.batch_nodup
  refine (Safe.foldlM (fun l q' => (∃ l₀, expired = l₀ ++ l ∧ ResetExactly q now l₀ q') ∧
    Consistent q' (l.map (·.timer) ++ rest)) ?_ ⟨⟨[], rfl, .nil q now⟩, h⟩).mono ?_
  · rintro it l q' ⟨⟨l₀, hl₀, hw⟩, hcon⟩
    apply (resetEntry_spec hcon now).mono
    rintro q'' ⟨hr, hcon'⟩
    refine ⟨⟨l₀ ++ [it], by simp [hl₀], hw.concat hr ?_⟩, hcon'⟩
    intro it' hit' heq
    rw [hl₀, List.map_append, List.map_cons] at hnodup
    refine (List.nodup_append.mp hnodup).2.2 _ (List.mem_map_of_mem hit') _ ?_ heq
    exact List.mem_cons_self ..
  · rintro q' ⟨⟨l₀, hl₀, hw⟩, hcon⟩
    rw [List.append_nil] at hl₀
    exact ⟨hl₀ ▸ hw, hcon⟩

/-- A timer that lives after `reset` lived before. If it is of the batch, it repeats. -/
lemma ResetExactly.repeats {now : ℤ} {expired : List Entry} {q' : TimerQueue}
    (h : ResetExactly q now expired q') {o : ℕ} {t' : Timer} (ht' : q'.heap o = some t') :
    ∃ t, q.heap o = some t ∧ t'.repeats = t.repeats ∧
      ((∃ it ∈ expired, it.timer.object = o) → t.repeats = true) := by
  by_cases ho : ∃ it ∈ expired, it.timer.object = o
  · obtain ⟨it, hit, rfl⟩ := ho
    rw [h.heap it hit, restartedTimer] at ht'
    split at ht'
    · rename_i t ht
      split at ht'
      · rename_i hc
        cases ht'
        exact ⟨t, ht, t.restart_repeats now, fun _ => hc.1⟩
      · cases ht'
    · cases ht'
  · rw [h.others o fun it hit heq => ho ⟨it, hit, heq⟩] at ht'
    exact ⟨t', ht', rfl, fun hex => absurd hex ho⟩

theorem endHandleRead_exactly {expired : List Entry} {now : ℤ}
    (h : Consistent q (expired.map (·.timer) ++ rest)) :
    Yields (q.endHandleRead expired now) fun q' => Consistent q' rest ∧
      ∃ q₁, ResetExactly { q with callingExpiredTimers := false } now expired q₁ ∧
        q' = q₁.rearmed := by
  have h' : Consistent { q with callingExpiredTimers := false } (expired.map (·.timer) ++ rest) :=
    ⟨h.owns, h.expiration, h.active⟩
  refine Safe.yields ?_ (endHandleRead_enabled q expired now)
  simp only [endHandleRead, reset, safe_bind]
  apply (resetLoop_exactly h' now).mono
  rintro q₁ ⟨hw, hcon⟩
  apply (rearm_spec hcon).safe.mono
  intro q' hq'
  refine ⟨?_, q₁, hw, hq'⟩
  rw [hq', rearmed_eq]
  exact ⟨hcon.owns, hcon.expiration, hcon.active⟩

/-! ### Histories -/

/-- The start of a timer's callback: what the timer was at that moment, and the time. -/
structure Start where
  timer : TimerPtr
  repeats : Bool
  expiration : ℤ
  clock : ℤ
  deriving DecidableEq, Repr

structure History where
  starts : List Start
  /-- The ids for which `cancelInLoop` has been executed since the last batch was collected. -/
  cancelled : List TimerId
  deriving DecidableEq, Repr

namespace System

def noteStart (s : System) (e : Event) (h : History) : History :=
  match e with
  | .handleRead _ => { h with cancelled := [] }
  | .runTimer =>
    match s.batch with
    | some ⟨_, _, it :: _⟩ =>
      match s.queue.heap it.timer.object with
      | some t =>
        { h with starts := h.starts ++ [⟨it.timer, t.repeats, t.expiration, s.queue.clock⟩] }
      | none => h
    | _ => h
  | e => { h with cancelled := h.cancelled ++ (s.cancels e).toList }

/-! ### What a step retains -/

/-- No timer is changed, and none that is gone comes back. -/
structure Retains (q q' : TimerQueue) : Prop where
  numCreated : q.numCreated ≤ q'.numCreated
  heap : ∀ o ≤ q.numCreated, ∀ t ∈ q'.heap o, t ∈ q.heap o

lemma Retains.of_heap {q q' : TimerQueue} (hn : q'.numCreated = q.numCreated)
    (hh : q'.heap = q.heap) : Retains q q' :=
  ⟨hn.ge, fun _ _ _ ht => hh ▸ ht⟩

lemma Retains.trans {q q' q'' : TimerQueue} (h : Retains q q') (h' : Retains q' q'') :
    Retains q q'' :=
  ⟨h.numCreated.trans h'.numCreated,
    fun o ho t ht => h.heap o ho t (h'.heap o (ho.trans h.numCreated) t ht)⟩

lemma Retains.none {q q' : TimerQueue} (h : Retains q q') {o : ℕ} (ho : o ≤ q.numCreated)
    (hnone : q.heap o = none) : q'.heap o = none := by
  rw [Option.eq_none_iff_forall_not_mem]
  intro t ht
  have := h.heap o ho t ht
  simp [hnone] at this

lemma allocated_retains (q : TimerQueue) (t : Timer) : Retains q (q.allocated t) := by
  refine ⟨Nat.le_succ _, fun o ho t' ht' => ?_⟩
  have hne : o ≠ q.numCreated + 1 := by
    rintro rfl
    exact absurd ho (Nat.not_succ_le_self _)
  simpa only [allocated, Function.update_of_ne hne] using ht'

lemma added_retains {q q₁ : TimerQueue} {p : TimerPtr} {t : Timer} {b : Bool}
    (hi : Inserted q p t q₁ b) : Retains q (q₁.armedIf b t.expiration) := by
  rw [armedIf_eq, hi.rest]
  exact .of_heap rfl rfl

lemma cancelInLoop_retains {q q' : TimerQueue} {id : TimerId} (h : CancelInLoop q id q') :
    Retains q q' := by
  cases h with
  | active e q' he hid hc =>
    have hn : q'.numCreated = q.numCreated := by rw [hc.rest]
    refine ⟨hn.ge, fun o _ t ht => ?_⟩
    rw [hc.heap] at ht
    exact mem_update_none ht
  | canceling hnone hcalling => exact .of_heap rfl rfl
  | absent hnone hcalling => exact .of_heap rfl rfl

/-- Every step but `reset` only adds and deletes timers. -/
lemma Stepped.retains {s s' : System} {e : Event} (h : Stepped s e s') (he : e ≠ .endHandleRead) :
    Retains s.queue s'.queue := by
  cases h with
  | setClock now => exact .of_heap rfl rfl
  | addTimer t when hwhen q b hi => exact (allocated_retains _ _).trans (added_retains hi)
  | newTimer t when hwhen => exact allocated_retains _ _
  | queueTimer i p hp => exact .of_heap rfl rfl
  | cancel id q hc => exact cancelInLoop_retains hc
  | queueCancel id => exact .of_heap rfl rfl
  | addTimerInLoop p t q b fs hbatch hfs ht hi => exact added_retains hi
  | cancelInLoop id q fs hbatch hfs hc => exact cancelInLoop_retains hc
  | handleRead readAt q expired hbatch hx =>
    apply Retains.of_heap
    · rw [hx.rest, readTimerfd_eq]
    · rw [hx.rest, readTimerfd_eq]
  | runTimer now expired it todo hbatch => exact .of_heap rfl rfl
  | endHandleRead now expired q hbatch hw => exact absurd rfl he

/-- What a step can do to the batch. -/
lemma Stepped.batch {s s' : System} {e : Event} (h : Stepped s e s') (hrun : e ≠ .runTimer)
    (hend : e ≠ .endHandleRead) : s'.batch = s.batch ∨ s.batch = none := by
  cases h with
  | handleRead readAt q expired hbatch hx => exact Or.inr hbatch
  | runTimer now expired it todo hbatch => exact absurd rfl hrun
  | endHandleRead now expired q hbatch hw => exact absurd rfl hend
  | _ => exact Or.inl rfl

lemma Stepped.clock {s s' : System} {e : Event} (h : Stepped s e s') (hadv : s.ClockAdvances e) :
    s.queue.clock ≤ s'.queue.clock := by
  cases h with
  | setClock now => exact hadv
  | addTimer t when hwhen q b hi =>
    rw [armedIf_eq, hi.rest]
    exact le_rfl
  | cancel id q hc => exact (cancelInLoop_frame hc).2.1.ge
  | addTimerInLoop p t q b fs hbatch hfs ht hi =>
    rw [armedIf_eq, hi.rest]
  | cancelInLoop id q fs hbatch hfs hc => exact (cancelInLoop_frame hc).2.1.ge
  | handleRead readAt q expired hbatch hx =>
    rw [hx.rest, readTimerfd_eq]
    exact hadv
  | endHandleRead now expired q hbatch hw =>
    rw [rearmed_eq, hw.rest]
  | _ => exact le_rfl

lemma Inv.mem_pointers_of_expired {s : System} {it : Entry} (hit : it ∈ s.expired) :
    it.timer ∈ s.queue.pointers s.elsewhere :=
  List.mem_append_right _ (List.mem_append_left _ (List.mem_map_of_mem hit))

lemma Inv.expired_le {s : System} (h : Inv s) {it : Entry} (hit : it ∈ s.expired) :
    it.timer.object ≤ s.queue.numCreated := by
  obtain ⟨t, ht, -⟩ := h.consistent.owns.live (Inv.mem_pointers_of_expired hit)
  exact (h.consistent.owns.timer _ t ht).2.1

/-- A timer of the batch is not in `timers_`. -/
lemma Inv.expired_ne {s : System} (h : Inv s) {it e : Entry} (hit : it ∈ s.expired)
    (he : e ∈ s.queue.timers) : it.timer.object ≠ e.timer.object := by
  have hnodup := h.consistent.owns.nodup
  rw [pointers, List.map_append] at hnodup
  have hdisjoint := (List.nodup_append.mp hnodup).2.2
  intro heq
  refine hdisjoint _ (List.mem_map_of_mem (List.mem_map_of_mem he)) _ ?_ heq.symm
  exact List.mem_map_of_mem (List.mem_append_left _ (List.mem_map_of_mem hit))

lemma Inv.expired_nodup {s : System} (h : Inv s) : (s.expired.map (·.timer.object)).Nodup :=
  h.consistent.batch_nodup

/-! ### One-shot timers -/

/-- The callback of the timer has run and will not run again, unless the timer repeats: the timer is
gone, or it is of the batch, which is past it. -/
def Over (s : System) (o : ℕ) : Prop :=
  s.queue.heap o = none ∨
    ∃ b ∈ s.batch, (∃ it ∈ b.expired, it.timer.object = o) ∧ ∀ it ∈ b.todo, it.timer.object ≠ o

lemma Over.step {s s' : System} {o : ℕ} (h : s.Over o) (ho : o ≤ s.queue.numCreated)
    (hr : Retains s.queue s'.queue) (hb : s'.batch = s.batch ∨ s.batch = none) : s'.Over o := by
  rcases h with hnone | ⟨b, hbatch, hin, htodo⟩
  · exact Or.inl (hr.none ho hnone)
  · rcases hb with hb | hb
    · exact Or.inr ⟨b, hb ▸ hbatch, hin, htodo⟩
    · simp [hb] at hbatch

structure HistoryInv (s : System) (h : History) : Prop where
  inv : Inv s
  cancelled : ∀ it ∈ s.expired,
    it.timer.id ∈ s.queue.cancelingTimers ↔ it.timer.id ∈ h.cancelled
  started : ∀ x ∈ h.starts, x.timer.object ≤ s.queue.numCreated ∧
    ∀ t ∈ s.queue.heap x.timer.object, t.repeats = x.repeats
  past : ∀ x ∈ h.starts, x.repeats = false → s.Over x.timer.object
  once : h.starts.Pairwise fun x y =>
    x.timer.object = y.timer.object → x.repeats = true ∧ y.repeats = true

lemma init_historyInv (clock : Now) : HistoryInv (init clock) ⟨[], []⟩ :=
  ⟨init_inv clock, by simp [init, expired], by simp, by simp, List.Pairwise.nil⟩

/-- A step that starts no callback. -/
lemma HistoryInv.step {s s' : System} {h h' : History} (hh : HistoryInv s h) (hinv : Inv s')
    (hr : Retains s.queue s'.queue) (hb : s'.batch = s.batch ∨ s.batch = none)
    (hstarts : h'.starts = h.starts)
    (hcancelled : ∀ it ∈ s'.expired,
      it.timer.id ∈ s'.queue.cancelingTimers ↔ it.timer.id ∈ h'.cancelled) : HistoryInv s' h' := by
  refine ⟨hinv, hcancelled, ?_, ?_, by rw [hstarts]; exact hh.once⟩
  · intro x hx
    obtain ⟨hle, hrep⟩ := hh.started x (hstarts ▸ hx)
    exact ⟨hle.trans hr.numCreated, fun t ht => hrep t (hr.heap _ hle t ht)⟩
  · intro x hx hone
    have hx := hstarts ▸ hx
    exact (hh.past x hx hone).step (hh.started x hx).1 hr hb

/-- `cancelInLoop` puts a timer of the batch into `cancelingTimers_`, and no other id of the batch.
-/
lemma HistoryInv.cancelInLoop {s : System} {h : History} (hh : HistoryInv s h) {id : TimerId}
    {q : TimerQueue} (hc : CancelInLoop s.queue id q) {it : Entry} (hit : it ∈ s.expired) :
    it.timer.id ∈ q.cancelingTimers ↔ it.timer.id ∈ h.cancelled ++ [id] := by
  have hold := hh.cancelled it hit
  cases hc with
  | active e q' he hid hc =>
    have hne : it.timer.id ≠ id := by
      rintro heq
      rw [hid] at heq
      exact hh.inv.expired_ne hit he (congrArg TimerId.sequence heq)
    rw [hc.rest]
    simpa [hne] using hold
  | canceling hnone hcalling =>
    rw [Finset.mem_insert, List.mem_append, List.mem_singleton, hold, or_comm]
  | absent hnone hcalling =>
    have hb : s.batch = none := by
      by_contra hb
      simp [hh.inv.calling.mpr hb] at hcalling
    simp [System.expired, hb] at hit

lemma HistoryInv.runTimer {s : System} {h : History} (hh : HistoryInv s h) {now : ℤ}
    {expired todo : List Entry} {it : Entry} (hbatch : s.batch = some ⟨now, expired, it :: todo⟩)
    (hinv : Inv { s with batch := some ⟨now, expired, todo⟩ }) {t : Timer}
    (ht : s.queue.heap it.timer.object = some t) :
    HistoryInv { s with batch := some ⟨now, expired, todo⟩ }
      { h with starts := h.starts ++ [⟨it.timer, t.repeats, t.expiration, s.queue.clock⟩] } := by
  have hsuffix : it :: todo <:+ expired := hh.inv.todo _ hbatch
  have hin : it ∈ expired := hsuffix.subset (List.mem_cons_self ..)
  have hexpired : s.expired = expired := by simp [System.expired, hbatch]
  have hnext : ∀ it' ∈ todo, it'.timer.object ≠ it.timer.object := by
    have hnodup := hh.inv.expired_nodup
    rw [hexpired] at hnodup
    have htodo := hnodup.sublist (hsuffix.sublist.map (·.timer.object))
    rw [List.map_cons, List.nodup_cons] at htodo
    intro it' hit' heq
    exact htodo.1 (heq ▸ List.mem_map_of_mem hit')
  refine ⟨hinv, ?_, ?_, ?_, ?_⟩
  · intro it' hit'
    exact hh.cancelled it' (hexpired ▸ hit')
  · intro x hx
    rcases List.mem_append.mp hx with hx | hx
    · exact hh.started x hx
    · rw [List.mem_singleton.mp hx]
      refine ⟨hh.inv.expired_le (hexpired ▸ hin), ?_⟩
      intro t' ht'
      rw [Option.mem_def, ht, Option.some.injEq] at ht'
      rw [ht']
  · intro x hx hone
    rcases List.mem_append.mp hx with hx | hx
    · rcases hh.past x hx hone with hnone | ⟨b, hb, hin', htodo⟩
      · exact Or.inl hnone
      · rw [hbatch, Option.mem_some_iff] at hb
        subst hb
        exact Or.inr ⟨_, rfl, hin', fun it' hit' => htodo it' (List.mem_cons_of_mem it hit')⟩
    · rw [List.mem_singleton.mp hx]
      exact Or.inr ⟨_, rfl, ⟨it, hin, rfl⟩, hnext⟩
  · refine List.pairwise_append.mpr ⟨hh.once, List.pairwise_singleton _ _, ?_⟩
    intro x hx y hy heq
    rw [List.mem_singleton.mp hy] at heq ⊢
    replace heq : x.timer.object = it.timer.object := heq
    have hrep := (hh.started x hx).2 t (heq ▸ ht)
    -- a one-shot timer that has been started is not the next one
    have hx' : x.repeats = true := by
      by_contra hone
      rcases hh.past x hx (by simpa using hone) with hnone | ⟨b, hb, -, htodo⟩
      · rw [heq, ht] at hnone
        cases hnone
      · rw [hbatch, Option.mem_some_iff] at hb
        subst hb
        exact htodo it (List.mem_cons_self ..) heq.symm
    exact ⟨hx', hrep.trans hx'⟩

lemma HistoryInv.endHandleRead {s s' : System} {h : History} (hh : HistoryInv s h) {now : ℤ}
    {expired : List Entry} {q : TimerQueue} (hinv : Inv s')
    (hbatch : s.batch = some ⟨now, expired, []⟩)
    (hx : ResetExactly { s.queue with callingExpiredTimers := false } now expired q)
    (hheap : s'.queue.heap = q.heap) (hnum : s'.queue.numCreated = s.queue.numCreated)
    (hbatch' : s'.batch = none) : HistoryInv s' h := by
  refine ⟨hinv, by simp [System.expired, hbatch'], ?_, ?_, hh.once⟩
  · intro x hx'
    obtain ⟨hle, hrep⟩ := hh.started x hx'
    refine ⟨hnum ▸ hle, fun t' ht' => ?_⟩
    rw [hheap] at ht'
    obtain ⟨t, ht, heq, -⟩ := hx.repeats ht'
    exact heq.trans (hrep t ht)
  · intro x hx' hone
    apply Or.inl
    rw [Option.eq_none_iff_forall_not_mem]
    intro t' ht'
    rw [hheap] at ht'
    obtain ⟨t, ht, -, hrepeats⟩ := hx.repeats ht'
    rcases hh.past x hx' hone with hnone | ⟨b, hb, hin, -⟩
    · rw [show s.queue.heap x.timer.object = some t from ht] at hnone
      cases hnone
    · rw [hbatch, Option.mem_some_iff] at hb
      subst hb
      have htrue := hrepeats hin
      rw [(hh.started x hx').2 t ht, hone] at htrue
      cases htrue

/-- The end of `handleRead`, as a step. -/
lemma endHandleRead_step {s : System} (h : Inv s) {now : ℤ} {expired : List Entry}
    (hbatch : s.batch = some ⟨now, expired, []⟩) :
    Yields (s.step .endHandleRead) fun s' => Inv s' ∧
      ∃ q, ResetExactly { s.queue with callingExpiredTimers := false } now expired q ∧
        s' = { s with queue := q.rearmed, batch := none } := by
  have hcon : s.queue.Consistent (expired.map (·.timer) ++ s.waiting) := by
    simpa [elsewhere, System.expired, hbatch] using h.consistent
  obtain ⟨q', hq', -, q, hx, rfl⟩ : Yields (s.queue.endHandleRead expired now) _ :=
    endHandleRead_exactly hcon
  have hstep : s.step .endHandleRead = .ok { s with queue := q.rearmed, batch := none } := by
    simp only [step, hbatch, hq', ok_bind]
    rfl
  exact ⟨_, hstep, (step_inv h .endHandleRead).of_ok hstep, q, hx, rfl⟩

lemma Stepped.historyInv {s s' : System} {e : Event} {h : History} (hs : Stepped s e s')
    (hh : HistoryInv s h) (hinv : Inv s') (hend : e ≠ .endHandleRead) :
    HistoryInv s' (s.noteStart e h) := by
  by_cases hrun : e = .runTimer
  · subst hrun
    cases hs with
    | runTimer now expired it todo hbatch =>
      obtain ⟨t, ht⟩ := hh.inv.next_live hbatch
      simp only [noteStart, hbatch, ht]
      exact hh.runTimer hbatch hinv ht
  have hstarts : (s.noteStart e h).starts = h.starts := by
    unfold noteStart
    split
    · rfl
    · exact absurd rfl hrun
    · rfl
  refine hh.step hinv (hs.retains hend) (hs.batch hrun hend) hstarts ?_
  -- what is left is that both sides of `cancelled` learn of the same ids
  cases hs with
  | cancel id q hc => exact fun it hit => hh.cancelInLoop hc hit
  | cancelInLoop id q fs hbatch hfs hc => simp [System.expired, hbatch]
  | addTimerInLoop p t q b fs hbatch hfs ht hi => simp [System.expired, hbatch]
  | handleRead readAt q expired hbatch hx => simp [noteStart]
  | runTimer now expired it todo hbatch => exact absurd rfl hrun
  | endHandleRead now expired q hbatch hw => exact absurd rfl hend
  | addTimer t when hwhen q b hi =>
    intro it hit
    rw [armedIf_eq, hi.rest]
    simpa [noteStart, cancels, allocated] using hh.cancelled it hit
  | _ =>
    intro it hit
    simpa [noteStart, cancels, allocated] using hh.cancelled it hit

theorem step_historyInv {s : System} {h : History} (hh : HistoryInv s h) (e : Event) :
    Safe (s.step e) fun s' => HistoryInv s' (s.noteStart e h) := by
  by_cases hend : e = .endHandleRead
  · subst hend
    match hbatch : s.batch with
    | some ⟨now, expired, []⟩ =>
      apply (endHandleRead_step hh.inv hbatch).safe.mono
      rintro s' ⟨hinv, q, hx, rfl⟩
      have hsame : s.noteStart .endHandleRead h = h := by simp [noteStart, cancels]
      rw [hsame]
      refine hh.endHandleRead hinv hbatch hx ?_ ?_ rfl
      · rw [rearmed_eq]
      · rw [rearmed_eq]
        exact hx.numCreated
    | some ⟨now, expired, it :: todo⟩ => simp [step, hbatch]
    | none => simp [step, hbatch]
  · apply (step_spec hh.inv e).mono
    rintro s' ⟨hinv, hs⟩
    exact hs.historyInv hh hinv hend

/-- What `reset` leaves in `timers_` for the timers of the batch. -/
lemma HistoryInv.reinserted {s : System} {h : History} (hh : HistoryInv s h) {now : ℤ}
    {expired : List Entry} (hbatch : s.batch = some ⟨now, expired, []⟩) :
    Yields (s.step .endHandleRead) fun s' =>
      ∀ it ∈ expired, ∃ t, s.queue.heap it.timer.object = some t ∧
        ∀ when, ⟨when, it.timer⟩ ∈ s'.queue.timers ↔
          t.repeats = true ∧ it.timer.id ∉ h.cancelled ∧ when = addTime now t.interval := by
  obtain ⟨s', hs', hinv, q, hx, rfl⟩ := endHandleRead_step hh.inv hbatch
  refine ⟨_, hs', fun it hit => ?_⟩
  have hin : it ∈ s.expired := by simpa [System.expired, hbatch] using hit
  obtain ⟨t, ht, -⟩ := hh.inv.consistent.owns.live (Inv.mem_pointers_of_expired hin)
  have hsome (t' : Timer) : restartedTimer { s.queue with callingExpiredTimers := false } now it =
      some t' ↔ _ := restartedTimer_eq_some ht
  refine ⟨t, ht, fun when => ⟨fun hmem => ?_, ?_⟩⟩
  · obtain ⟨t', ht', -, -, hexp⟩ := hinv.consistent.load_entry hmem
    rw [rearmed_eq] at ht'
    rw [show q.heap it.timer.object = _ from hx.heap it hit] at ht'
    obtain ⟨hr, hc, rfl⟩ := (hsome t').mp ht'
    exact ⟨hr, fun hmem' => hc ((hh.cancelled it hin).mpr hmem'), hexp.symm⟩
  · rintro ⟨hr, hc, rfl⟩
    have hrestarted := (hsome _).mpr ⟨hr, fun hmem => hc ((hh.cancelled it hin).mp hmem), rfl⟩
    rw [rearmed_eq]
    exact hx.timers it hit _ hrestarted

/-! ### Start times -/

/-- What a clock that does not go back keeps. -/
structure DueInv (s : System) (h : History) : Prop where
  inv : Inv s
  now : ∀ b ∈ s.batch, b.now ≤ s.queue.clock
  due : ∀ b ∈ s.batch, ∀ it ∈ b.expired, it.when ≤ b.now ∧
    ∀ t ∈ s.queue.heap it.timer.object, t.expiration = it.when
  starts : ∀ x ∈ h.starts, x.expiration ≤ x.clock

lemma init_dueInv (clock : Now) : DueInv (init clock) ⟨[], []⟩ :=
  ⟨init_inv clock, by simp [init], by simp [init], by simp⟩

/-- A step that leaves the batch alone and starts no callback. -/
lemma DueInv.step {s s' : System} {h h' : History} (hd : DueInv s h) (hinv : Inv s')
    (hr : Retains s.queue s'.queue) (hb : s'.batch = s.batch)
    (hclock : s.queue.clock ≤ s'.queue.clock) (hstarts : h'.starts = h.starts) :
    DueInv s' h' := by
  refine ⟨hinv, ?_, ?_, by rw [hstarts]; exact hd.starts⟩
  · intro b hb'
    exact (hd.now b (hb ▸ hb')).trans hclock
  · intro b hb' it hit
    rw [hb] at hb'
    obtain ⟨hle, hexp⟩ := hd.due b hb' it hit
    have hin : it ∈ s.expired := by
      rw [Option.mem_def] at hb'
      simpa [System.expired, hb'] using hit
    exact ⟨hle, fun t ht => hexp t (hr.heap _ (hd.inv.expired_le hin) t ht)⟩

lemma DueInv.handleRead {s s' : System} {h : History} (hd : DueInv s h) (hinv : Inv s')
    {readAt : Now} (hs : Stepped s (.handleRead readAt) s') (hadv : s.queue.clock ≤ readAt) :
    DueInv s' { h with cancelled := [] } := by
  cases hs with
  | handleRead readAt q expired hbatch hx =>
    have hfrom : ∀ it ∈ expired, it ∈ s.queue.timers := by
      intro it hit
      have hmem := hx.timers ▸ List.mem_append_left q.timers.toList hit
      rw [readTimerfd_eq] at hmem
      exact hmem
    refine ⟨hinv, ?_, ?_, hd.starts⟩
    · rintro b ⟨⟩
      rw [hx.rest, readTimerfd_eq]
      exact hadv
    · rintro b ⟨⟩ it hit
      refine ⟨hx.due it hit, fun t ht => ?_⟩
      rw [hx.rest, readTimerfd_eq] at ht
      exact hd.inv.consistent.expiration it (hfrom it hit) t ht

lemma DueInv.runTimer {s : System} {h : History} (hd : DueInv s h) {now : ℤ}
    {expired todo : List Entry} {it : Entry} (hbatch : s.batch = some ⟨now, expired, it :: todo⟩)
    (hinv : Inv { s with batch := some ⟨now, expired, todo⟩ }) {t : Timer}
    (ht : s.queue.heap it.timer.object = some t) :
    DueInv { s with batch := some ⟨now, expired, todo⟩ }
      { h with starts := h.starts ++ [⟨it.timer, t.repeats, t.expiration, s.queue.clock⟩] } := by
  have hin : it ∈ expired := (hd.inv.todo _ hbatch).subset (List.mem_cons_self ..)
  refine ⟨hinv, ?_, ?_, ?_⟩
  · rintro b ⟨⟩
    exact hd.now ⟨now, expired, it :: todo⟩ hbatch
  · rintro b ⟨⟩
    exact hd.due ⟨now, expired, it :: todo⟩ hbatch
  · intro x hx
    rcases List.mem_append.mp hx with hx | hx
    · exact hd.starts x hx
    · rw [List.mem_singleton.mp hx]
      obtain ⟨hle, hexp⟩ := hd.due _ hbatch it hin
      calc t.expiration = it.when := hexp t ht
        _ ≤ now := hle
        _ ≤ s.queue.clock := hd.now _ hbatch

lemma Stepped.dueInv {s s' : System} {e : Event} {h : History} (hs : Stepped s e s')
    (hd : DueInv s h) (hinv : Inv s') (hadv : s.ClockAdvances e) :
    DueInv s' (s.noteStart e h) := by
  have hclock := hs.clock hadv
  have hretains := hs.retains
  cases hs with
  | handleRead readAt q expired hbatch hx =>
    exact hd.handleRead hinv (.handleRead readAt q expired hbatch hx) hadv
  | runTimer now expired it todo hbatch =>
    obtain ⟨t, ht⟩ := hd.inv.next_live hbatch
    simp only [noteStart, hbatch, ht]
    exact hd.runTimer hbatch hinv ht
  | endHandleRead now expired q hbatch hw =>
    exact ⟨hinv, by simp, by simp, hd.starts⟩
  | _ => exact hd.step hinv (hretains (by simp)) rfl hclock rfl

lemma step_dueInv {s : System} {h : History} (hd : DueInv s h) {e : Event}
    (hadv : s.ClockAdvances e) : Safe (s.step e) fun s' => DueInv s' (s.noteStart e h) :=
  (step_spec hd.inv e).mono fun _ ⟨hinv, hs⟩ => hs.dueInv hd hinv hadv

/-! ### Runs -/

/-- In every run, in every state reached: whatever `now` is, `getExpired(now)` returns exactly the
timers whose expiration is not after `now`, in the order of their expirations, and leaves the
others; a timer whose callback was started twice repeats; and when `handleRead` has run the last
callback of a batch, `reset` yields, and a timer of the batch is then in `timers_` if and only if it
repeats and was not cancelled while the batch was processed, with the time of the batch plus its
interval as its expiration. If the clock does not go back, no callback is started before the
expiration that its timer has at that moment. -/
theorem expiry_exact (clock : Now) (es : List Event) :
    Safe (run (track step noteStart) (init clock, ⟨[], []⟩) es) fun p =>
      (∀ e ∈ p.1.queue.timers, ∃ t, p.1.queue.heap e.timer.object = some t ∧
        t.expiration = e.when) ∧
      (∀ now, Yields (p.1.queue.getExpired now) fun r => SplitAt p.1.queue now r.1 r.2) ∧
      (p.2.starts.Pairwise fun x y =>
        x.timer.object = y.timer.object → x.repeats = true ∧ y.repeats = true) ∧
      (∀ now expired, p.1.batch = some ⟨now, expired, []⟩ →
        Yields (p.1.step .endHandleRead) fun s' =>
          ∀ it ∈ expired, ∃ t, p.1.queue.heap it.timer.object = some t ∧
            ∀ when, ⟨when, it.timer⟩ ∈ s'.queue.timers ↔
              t.repeats = true ∧ it.timer.id ∉ p.2.cancelled ∧ when = addTime now t.interval) ∧
      (Along (track step noteStart) (fun p e => p.1.ClockAdvances e) (init clock, ⟨[], []⟩) es →
        ∀ x ∈ p.2.starts, x.expiration ≤ x.clock) := by
  have hall : Safe (run (track step noteStart) (init clock, ⟨[], []⟩) es) fun p =>
      HistoryInv p.1 p.2 :=
    run_invariant (I := fun p : System × History => HistoryInv p.1 p.2)
      (fun p e hp => safe_track.mpr (step_historyInv hp e)) (init_historyInv clock) es
  have hdue (hadv : Along (track step noteStart) (fun p e => p.1.ClockAdvances e)
      (init clock, ⟨[], []⟩) es) :=
    run_safe (I := fun p : System × History => DueInv p.1 p.2)
      (fun p e hp hP => safe_track.mpr (step_dueInv hp hP)) (init_dueInv clock) hadv
  apply (hall.and_imp hdue).mono
  rintro ⟨s, h⟩ ⟨hh, hdue⟩
  refine ⟨?_, ?_, hh.once, fun now expired hbatch => hh.reinserted hbatch, ?_⟩
  · intro e he
    obtain ⟨t, ht, -, -, hexp⟩ := hh.inv.consistent.load_entry he
    exact ⟨t, ht, hexp⟩
  · intro now
    have hspec := getExpired_spec hh.inv.consistent now
    exact (hspec.mono fun r hr => hr.1.splitAt hh.inv.consistent).yields
      (getExpired_enabled s.queue now)
  · exact fun hadv => (hdue hadv).starts

end System
end TimerQueue
end Muduo

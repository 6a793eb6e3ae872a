import Muduo.Net.TimerQueue.Consistency

/-!
# The alarm of the timerfd

The queue sets its alarm when a new timer is the earliest one and at the end of `reset`, and never
when a timer is cancelled. Between two calls of `handleRead` the alarm covers every timer. While a
batch is processed the alarm may have been read, and it covers only the timers that `reset` will not
set it for: those whose expiration is not after the Epoch, since `reset` takes such a time for an
invalid one. No such timer is left after `getExpired`, and a callback that adds one sets the alarm.

`TimesFit` excludes the two overflows of `int64_t`: of the alarm for a timer that is added more than
`2 ^ 63` microseconds late, and of the next expiration of a timer that repeats.
-/

namespace Muduo
namespace TimerQueue

open Machine

/-- The timerfd is readable, or it becomes readable by the time `when`, or as soon as the shortest
alarm allows. -/
def Covers (q : TimerQueue) (when : ℤ) : Prop :=
  ∃ a ∈ q.timerfd, a.deadline ≤ q.clock ∨ a.deadline ≤ max when (a.armedAt + 100)

variable {q q' : TimerQueue} {when when' : ℤ}

lemma Covers.mono (h : q.Covers when) (hle : when ≤ when') : q.Covers when' := by
  obtain ⟨a, ha, hclock | hmax⟩ := h
  · exact ⟨a, ha, Or.inl hclock⟩
  · exact ⟨a, ha, Or.inr (hmax.trans (max_le_max_right _ hle))⟩

lemma Covers.frame (h : q.Covers when) (hfd : q'.timerfd = q.timerfd)
    (hclock : q.clock ≤ q'.clock) : q'.Covers when := by
  obtain ⟨a, ha, hdue | hmax⟩ := h
  · exact ⟨a, hfd ▸ ha, Or.inl (hdue.trans hclock)⟩
  · exact ⟨a, hfd ▸ ha, Or.inr hmax⟩

lemma resetTimerfd_covers (hle : q.clock - 2 ^ 63 ≤ when) (hlt : when < 2 ^ 63) :
    (q.resetTimerfd when).Covers when := by
  refine ⟨_, rfl, Or.inr ?_⟩
  have hpos := q.clock.property.1
  have hfits : int64 (when - q.clock) = when - q.clock := int64_eq (by omega) (by omega)
  simp only [howMuchTimeFromNow, hfits]
  split <;> omega

/-- The time of an entry is a value of `int64_t`. -/
lemma Consistent.when_lt {rest : List TimerPtr} (h : Consistent q rest) {e : Entry}
    (he : e ∈ q.timers) : e.when < 2 ^ 63 := by
  obtain ⟨t, ht, -, -, hexp⟩ := h.load_entry he
  exact hexp ▸ (h.owns.timer _ t ht).2.2.2

lemma cancelInLoop_frame {id : TimerId} (h : CancelInLoop q id q') :
    q'.timerfd = q.timerfd ∧ q'.clock = q.clock ∧ ∀ e ∈ q'.timers, e ∈ q.timers := by
  cases h with
  | active e q' he hid hc =>
    have htimers : ∀ e ∈ q'.timers, e ∈ q.timers := fun e he =>
      hc.timers.mem_iff.mpr (List.mem_cons_of_mem _ he)
    rw [hc.rest]
    exact ⟨rfl, rfl, htimers⟩
  | canceling hnone hcalling => exact ⟨rfl, rfl, fun _ he => he⟩
  | absent hnone hcalling => exact ⟨rfl, rfl, fun _ he => he⟩

namespace System

/-- The clock does not go back. -/
def ClockAdvances (s : System) : Event → Prop
  | .setClock now => s.queue.clock ≤ now
  | .handleRead readAt => s.queue.clock ≤ readAt
  | _ => True

instance (s : System) : ∀ e, Decidable (s.ClockAdvances e)
  | .setClock now | .handleRead now => inferInstanceAs (Decidable (s.queue.clock.val ≤ now.val))
  | .addTimer .. | .newTimer .. | .queueTimer _ | .cancel _ | .queueCancel _ | .doPendingFunctor
  | .runTimer | .endHandleRead => inferInstanceAs (Decidable True)

/-- The differences of times that `resetTimerfd` takes and the sums that `restart` takes are values
of `int64_t`. -/
def TimesFit (s : System) : Event → Prop
  | .addTimer _ when _ _ => s.queue.clock - 2 ^ 63 ≤ when.toInt
  | .doPendingFunctor => ∀ f ∈ s.functors.head?, ∀ p ∈ f.timer, ∀ t ∈ s.queue.heap p.object,
      s.queue.clock - 2 ^ 63 ≤ t.expiration
  | .endHandleRead => ∀ b ∈ s.batch, ∀ it ∈ b.expired, ∀ t ∈ s.queue.heap it.timer.object,
      t.repeats = true → it.timer.id ∉ s.queue.cancelingTimers → b.now + t.interval < 2 ^ 63
  | _ => True

instance (s : System) : ∀ e, Decidable (s.TimesFit e)
  | .addTimer .. => by unfold TimesFit; infer_instance
  | .doPendingFunctor => by unfold TimesFit; infer_instance
  | .endHandleRead => by unfold TimesFit; infer_instance
  | .setClock _ | .newTimer .. | .queueTimer _ | .cancel _ | .queueCancel _ | .handleRead _
  | .runTimer => inferInstanceAs (Decidable True)

/-- The timers that the alarm has to cover: all of them, or while a batch is processed those that
`reset` does not set it for. -/
def MustCover (s : System) (when : ℤ) : Prop := s.batch = none ∨ when ≤ 0

structure AlarmInv (s : System) : Prop where
  inv : Inv s
  covers : ∀ e ∈ s.queue.timers, s.MustCover e.when → s.queue.Covers e.when
  now : ∀ b ∈ s.batch, 0 < b.now

lemma init_alarmInv (clock : Now) : AlarmInv (init clock) :=
  ⟨init_inv clock, fun _ he => absurd he (List.not_mem_nil), by simp [init]⟩

/-- A step that keeps the batch and the alarm and adds no timer. -/
lemma AlarmInv.frame {s s' : System} (h : AlarmInv s) (hinv : Inv s')
    (hb : s'.batch.map (·.now) = s.batch.map (·.now)) (hfd : s'.queue.timerfd = s.queue.timerfd)
    (hclock : s.queue.clock ≤ s'.queue.clock)
    (htimers : ∀ e ∈ s'.queue.timers, e ∈ s.queue.timers) : AlarmInv s' := by
  refine ⟨hinv, ?_, ?_⟩
  · intro e he hmust
    have hmust' : s.MustCover e.when := by
      apply hmust.imp_left
      intro hnone
      rw [hnone, Option.map_none] at hb
      exact Option.map_eq_none_iff.mp hb.symm
    exact (h.covers e (htimers e he) hmust').frame hfd hclock
  · intro b hb'
    have hmem : b.now ∈ s.batch.map (·.now) := hb ▸ Option.mem_map_of_mem _ hb'
    obtain ⟨b', hb', hnow⟩ := Option.mem_map.mp hmem
    exact hnow ▸ h.now b' hb'

/-- `addTimerInLoop` sets the alarm if the new timer is the earliest. If not, the alarm covers an
earlier one. -/
lemma AlarmInv.added {s s' : System} (h : AlarmInv s) {q q₁ : TimerQueue} {p : TimerPtr} {t : Timer}
    {b : Bool} (hinv : Inv s') (hbatch : s'.batch = s.batch)
    (htimers : q.timers = s.queue.timers) (hfd : q.timerfd = s.queue.timerfd)
    (hclock : q.clock = s.queue.clock) (hfits : s.queue.clock - 2 ^ 63 ≤ t.expiration)
    (hlt : t.expiration < 2 ^ 63) (hi : Inserted q p t q₁ b)
    (hq' : s'.queue = q₁.armedIf b t.expiration) : AlarmInv s' := by
  have hmem {e : Entry} (he : e ∈ q₁.timers) : e = ⟨t.expiration, p⟩ ∨ e ∈ s.queue.timers := by
    have := hi.timers.mem_iff.mp he
    rw [List.mem_cons] at this
    exact htimers ▸ this
  refine ⟨hinv, fun e he hmust => ?_, fun b hb => h.now b (hbatch ▸ hb)⟩
  replace hmust : s.MustCover e.when := hmust.imp_left fun hnone => hbatch ▸ hnone
  have hrest : q₁.timerfd = s.queue.timerfd ∧ q₁.clock = s.queue.clock := by
    rw [hi.rest]
    exact ⟨hfd, hclock⟩
  cases b with
  | true =>
    rw [armedIf, if_pos rfl] at hq'
    have hle : t.expiration ≤ e.when := by
      rw [hq'] at he
      rcases hmem he with rfl | he
      · exact le_rfl
      · exact (hi.earliest.mp rfl e (htimers ▸ he)).le
    rw [hq']
    exact (resetTimerfd_covers (hrest.2 ▸ hfits) hlt).mono hle
  | false =>
    rw [armedIf, if_neg Bool.false_ne_true] at hq'
    rw [hq'] at he ⊢
    have hold {e : Entry} (he : e ∈ s.queue.timers) (hmust : s.MustCover e.when) :
        q₁.Covers e.when := (h.covers e he hmust).frame hrest.1 hrest.2.ge
    rcases hmem he with rfl | he
    · have hearlier : ∃ e ∈ q.timers, e.when ≤ t.expiration := by
        by_contra hno
        push Not at hno
        exact Bool.false_ne_true (hi.earliest.mpr hno)
      obtain ⟨e, he, hle⟩ := hearlier
      exact (hold (htimers ▸ he) (hmust.imp_right fun h0 => hle.trans h0)).mono hle
    · exact hold he hmust

/-- At the end of `handleRead` the alarm is set for the first timer. If that has an invalid time, a
callback has added it. -/
lemma AlarmInv.endHandleRead {s s' : System} (h : AlarmInv s) {now : ℤ} {expired : List Entry}
    {q : TimerQueue} (hinv : Inv s') (hbatch : s.batch = some ⟨now, expired, []⟩)
    (hw : WasReset { s.queue with callingExpiredTimers := false } now expired q)
    (hfits : s.TimesFit .endHandleRead) (hq' : s'.queue = q.rearmed) (hbatch' : s'.batch = none) :
    AlarmInv s' := by
  refine ⟨hinv, fun e he _ => ?_, by simp [hbatch']⟩
  have htimers : q.rearmed.timers = q.timers := by rw [rearmed_eq]
  rw [hq', htimers] at he
  rw [hq']
  cases hb : q.timers.begin? with
  | none =>
    rw [SortedSet.begin?_eq_none] at hb
    change e ∈ q.timers.toList at he
    simp [hb] at he
  | some it =>
    obtain ⟨hit, hfirst⟩ := SortedSet.begin?_eq_some hb
    refine Covers.mono ?_ (Entry.when_le_of_key_le (hfirst e he))
    simp only [rearmed, hb]
    split
    · rename_i hvalid
      have hlt := q.clock.property.2
      have hin : it ∈ s'.queue.timers := by
        rw [hq', htimers]
        exact hit
      exact resetTimerfd_covers (by omega) (hinv.consistent.when_lt hin)
    · rename_i hinvalid
      have hnow : 0 < now := h.now _ hbatch
      have hold : it ∈ s.queue.timers := by
        rcases hw.timers it hit with hold | ⟨it', hit', t, ht, hrepeats, hnot, hwhen⟩
        · exact hold
        · have hsum : now + t.interval < 2 ^ 63 := hfits _ hbatch it' hit' t ht hrepeats hnot
          have hle : 0 < it.when := by
            rw [hwhen, addTime, int64_eq (by omega) hsum]
            omega
          exact absurd hle hinvalid
      have hrest : q.timerfd = s.queue.timerfd ∧ q.clock = s.queue.clock := by
        rw [hw.rest]
        exact ⟨rfl, rfl⟩
      exact (h.covers it hold (Or.inr (not_lt.mp hinvalid))).frame hrest.1 hrest.2.ge

lemma Stepped.alarmInv {s s' : System} {e : Event} (hs : Stepped s e s') (h : AlarmInv s)
    (hinv : Inv s') (hclock : s.ClockAdvances e) (hfits : s.TimesFit e) : AlarmInv s' := by
  cases hs with
  | setClock now => exact h.frame hinv rfl rfl hclock fun _ he => he
  | addTimer t when hwhen q b hi =>
    have hlt : t.expiration < 2 ^ 63 := hwhen ▸ when.toInt_lt
    exact h.added (q := s.queue.allocated t) hinv rfl rfl rfl rfl (hwhen ▸ hfits) hlt hi rfl
  | newTimer t when hwhen => exact h.frame hinv rfl rfl le_rfl fun _ he => he
  | queueTimer i p hp => exact h.frame hinv rfl rfl le_rfl fun _ he => he
  | cancel id q hc =>
    obtain ⟨hfd, hclock, htimers⟩ := cancelInLoop_frame hc
    exact h.frame hinv rfl hfd hclock.ge htimers
  | queueCancel id => exact h.frame hinv rfl rfl le_rfl fun _ he => he
  | addTimerInLoop p t q b fs hbatch hfs ht hi =>
    have hle := hfits (.addTimerInLoop p) (by simp [hfs]) p rfl t ht
    exact h.added hinv rfl rfl rfl rfl hle (h.inv.consistent.owns.timer _ t ht).2.2.2 hi rfl
  | cancelInLoop id q fs hbatch hfs hc =>
    obtain ⟨hfd, hclock, htimers⟩ := cancelInLoop_frame hc
    exact h.frame hinv rfl hfd hclock.ge htimers
  | handleRead readAt q expired hbatch hx =>
    -- the timers that are left expire after `now`, which is after the Epoch
    refine ⟨hinv, ?_, ?_⟩
    · intro e he hmust
      have hlater : (s.queue.clock : ℤ) < e.when := hx.later e he
      have hpos := s.queue.clock.property.1
      rcases hmust with hnone | hle
      · cases hnone
      · omega
    · rintro b ⟨⟩
      exact s.queue.clock.property.1
  | runTimer now expired it todo hbatch =>
    exact h.frame hinv (by simp [hbatch]) rfl le_rfl fun _ he => he
  | endHandleRead now expired q hbatch hw => exact h.endHandleRead hinv hbatch hw hfits rfl rfl

/-- In every run on a clock that does not go back and without an overflow of times, no assertion
fails, and whenever control is outside `handleRead` and `timers_` is not empty, the timerfd is
readable, or it is armed for the earliest expiration or for 100 microseconds after it was armed, if
that is later. -/
theorem alarm_covers_earliest {clock : Now} {es : List Event}
    (h : Along step (fun s e => s.ClockAdvances e ∧ s.TimesFit e) (init clock) es) :
    Safe (run step (init clock) es) fun s =>
      s.batch = none → ∀ it ∈ s.queue.timers.begin?, ∃ a ∈ s.queue.timerfd,
        a.deadline ≤ s.queue.clock ∨ a.deadline ≤ max it.when (a.armedAt + 100) := by
  have hrun := run_safe (I := AlarmInv)
    (fun s e hs hP => (step_spec hs.inv e).mono fun _ ⟨hinv, hst⟩ => hst.alarmInv hs hinv hP.1 hP.2)
    (init_alarmInv clock) h
  apply hrun.mono
  intro s hs hbatch it hit
  exact hs.covers it (SortedSet.begin?_eq_some hit).1 (Or.inl hbatch)

/-- The alarm goes off early, is read, and is set again; its timer is cancelled, and a callback adds
a timer that was due before the Epoch. -/
@[irreducible] def alarmIsReset : List Event :=
  [.addTimer 1 300 0 false, .addTimer 2 600 0 false, .handleRead ⟨12, by decide⟩, .endHandleRead,
    .cancel ⟨1, 1⟩, .setClock ⟨310, by decide⟩, .handleRead ⟨320, by decide⟩,
    .addTimer 3 (-5) 0 false, .endHandleRead]

theorem alarm_covers_earliest_reset :
    Yields (run step (init ⟨10, by decide⟩) alarmIsReset) fun s =>
      s.batch = none ∧ s.queue.timers.begin? = some ⟨-5, ⟨3, 3⟩⟩ ∧
      s.queue.timerfd = some ⟨320, 420⟩ ∧
      ∀ it ∈ s.queue.timers.begin?, ∃ a ∈ s.queue.timerfd,
        a.deadline ≤ s.queue.clock ∨ a.deadline ≤ max it.when (a.armedAt + 100) := by
  have h : Along step (fun s e => s.ClockAdvances e ∧ s.TimesFit e) (init ⟨10, by decide⟩)
      alarmIsReset := by decide +kernel
  have hrun : Yields (run step (init ⟨10, by decide⟩) alarmIsReset) fun s =>
      s.batch = none ∧ s.queue.timers.begin? = some ⟨-5, ⟨3, 3⟩⟩ ∧
      s.queue.timerfd = some ⟨320, 420⟩ := by decide +kernel
  obtain ⟨s, hs, hbatch, hit, hfd⟩ := hrun
  exact ⟨s, hs, hbatch, hit, hfd, (alarm_covers_earliest h).of_ok hs hbatch⟩

/-- A timer whose time is the least value of `int64_t` is added at time 10. -/
@[irreducible] def addedTooLate : List Event := [.addTimer 1 Int64.minValue 0 false]

/-- A timer that repeats after `2 ^ 63 - 1` microseconds has run once. -/
@[irreducible] def repeatedTooLate : List Event :=
  [.addTimer 1 20 (2 ^ 63 - 1) true, .setClock ⟨200, by decide⟩, .handleRead ⟨200, by decide⟩,
    .runTimer, .endHandleRead]

/-- When a difference or a sum of times overflows, the timer is forgotten. `when - now` wraps to
`2 ^ 63 - 10`, for which the alarm is then set; `now + interval` wraps below zero, where `reset`
takes it for an invalid time and sets no alarm. In both runs the timer is overdue and control is
outside `handleRead`. -/
theorem alarm_misses_earliest :
    (Along step ClockAdvances (init ⟨10, by decide⟩) addedTooLate ∧
      Yields (run step (init ⟨10, by decide⟩) addedTooLate) fun s =>
        s.batch = none ∧ s.queue.timers.begin? = some ⟨-2 ^ 63, ⟨1, 1⟩⟩ ∧
        s.queue.timerfd = some ⟨10, 2 ^ 63⟩ ∧
        ¬ ∀ it ∈ s.queue.timers.begin?, ∃ a ∈ s.queue.timerfd,
          a.deadline ≤ s.queue.clock ∨ a.deadline ≤ max it.when (a.armedAt + 100)) ∧
    (Along step ClockAdvances (init ⟨10, by decide⟩) repeatedTooLate ∧
      Yields (run step (init ⟨10, by decide⟩) repeatedTooLate) fun s =>
        s.batch = none ∧ s.queue.timers.begin? = some ⟨199 - 2 ^ 63, ⟨1, 1⟩⟩ ∧
        s.queue.timerfd = none ∧
        ¬ ∀ it ∈ s.queue.timers.begin?, ∃ a ∈ s.queue.timerfd,
          a.deadline ≤ s.queue.clock ∨ a.deadline ≤ max it.when (a.armedAt + 100)) := by
  decide +kernel

end System
end TimerQueue
end Muduo

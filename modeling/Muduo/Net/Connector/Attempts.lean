import Muduo.Net.Connector.Properties

/-!
# One attempt at a time

A `start` that follows a `stop` does not wait for the last attempt to be over. If that is still
under way, or has succeeded, or its channel is not destroyed yet, an assertion fails; if its
`startInLoop` is still queued or its retry timer is still set, a second attempt will begin beside
the new one. A retry timer that fires before the functors queued ahead of it finds the channel of
its own attempt. Without these there is only one attempt, and at most one socket.
-/

namespace Muduo
namespace Connector
namespace System

open Machine

/-! ### The conditions -/

/-- The functors of calls that have not run. -/
def pending (s : System) : List Functor := s.connector.functors ++ s.inFlight

/-- A `start` is called when nothing is left of the one before: its `startInLoop` has run, no
attempt is under way or has succeeded, the channel is destroyed, and no retry timer is set. -/
def StartsAfresh (s : System) : Event → Prop
  | .start _ | .remoteStart => s.connector.Quiet ∧ .startInLoop ∉ s.pending
  | _ => True

instance (s : System) : ∀ e, Decidable (s.StartsAfresh e)
  | .start _ | .remoteStart => inferInstanceAs (Decidable (_ ∧ _))
  | .stop | .remoteStop | .queueInLoop _ | .doPendingFunctor _ | .retryTimer .. | .poll _
  | .handleEvent .. => inferInstanceAs (Decidable True)

/-- A retry timer fires after the functors that were queued before it was set. -/
def InOrder (s : System) : Event → Prop
  | .retryTimer i _ => ∀ t ∈ s.connector.timers[i]?, t.ahead = 0
  | _ => True

instance (s : System) : ∀ e, Decidable (s.InOrder e)
  | .retryTimer i _ => inferInstanceAs (Decidable (∀ t ∈ s.connector.timers[i]?, t.ahead = 0))
  | .start _ | .remoteStart | .stop | .remoteStop | .queueInLoop _ | .doPendingFunctor _ | .poll _
  | .handleEvent .. => inferInstanceAs (Decidable True)

/-! ### What a step does -/

structure Inv (s : System) : Prop where
  connector : s.connector.Inv
  /-- Calls in flight queue `startInLoop` or `stopInLoop`. -/
  inFlight : .resetChannel ∉ s.inFlight
  /-- Nothing happens before a pending `startInLoop`. -/
  starting : .startInLoop ∈ s.pending → s.connector.Quiet
  once : s.pending.count .startInLoop ≤ 1
  /-- The write callback runs last. -/
  handling : s.handling.Sublist [.error, .write]
  notConnected : s.handling ≠ [] → s.connector.state ≠ .kConnected

lemma init_inv : Inv init :=
  ⟨new_inv, List.not_mem_nil, by simp [init, pending, new], by simp [init, pending, new],
    List.nil_sublist _, by simp [init]⟩

/-- What each step does to a system that satisfies the invariant. -/
inductive Stepped (s : System) : Event → System → Prop where
  | start (savedErrno : Option Errno) (c : Connector) (hq : s.connector.Quiet)
      (hb : Begins { s.connector with connect_ := true } c) :
      Stepped s (.start savedErrno) { s with connector := c, started := true }
  | remoteStart :
      Stepped s .remoteStart
        { s with
          connector := { s.connector with connect_ := true }
          inFlight := s.inFlight ++ [.startInLoop]
          started := true }
  | stop :
      Stepped s .stop
        { s with connector := s.connector.clearConnect.queueInLoop .stopInLoop, started := false }
  | remoteStop :
      Stepped s .remoteStop
        { s with
          connector := s.connector.clearConnect
          inFlight := s.inFlight ++ [.stopInLoop]
          started := false }
  | queueInLoop (i : ℕ) (f : Functor) (hf : s.inFlight[i]? = some f) :
      Stepped s (.queueInLoop i)
        { s with connector := s.connector.queueInLoop f, inFlight := s.inFlight.eraseIdx i }
  | startInLoop (savedErrno : Option Errno) (fs : List Functor) (c : Connector)
      (hfs : s.connector.functors = .startInLoop :: fs) (hq : (s.connector.takeFunctor fs).Quiet)
      (hb : Begins (s.connector.takeFunctor fs) c) :
      Stepped s (.doPendingFunctor savedErrno) { s with connector := c }
  | stopInLoop (savedErrno : Option Errno) (fs : List Functor) (c : Connector)
      (hfs : s.connector.functors = .stopInLoop :: fs) (he : Ends (s.connector.takeFunctor fs) c) :
      Stepped s (.doPendingFunctor savedErrno) { s with connector := c }
  | resetChannel (savedErrno : Option Errno) (fs : List Functor)
      (hfs : s.connector.functors = .resetChannel :: fs) :
      Stepped s (.doPendingFunctor savedErrno)
        { s with connector := { s.connector.takeFunctor fs with channel := none } }
  | retryTimer (i : ℕ) (savedErrno : Option Errno) (c : Connector)
      (hq : Quiet { s.connector with timers := [] })
      (hb : Begins { s.connector with timers := [] } c) :
      Stepped s (.retryTimer i savedErrno) { s with connector := c }
  | poll (revents : PollEvents) (channel : Channel)
      (hchannel : s.connector.channel = some channel) :
      Stepped s (.poll revents)
        { s with
          connector := { s.connector with channel := some (channel.setRevents revents) }
          handling := callbacks (channel.setRevents revents) }
  | handleEvent (err : Option Errno) (isSelfConnect : Bool) (handling : List EventCallback)
      (c : Connector) (he : Ends s.connector c) :
      Stepped s (.handleEvent err isSelfConnect) { s with connector := c, handling }

/-! ### The steps keep the invariant -/

lemma callbacks_sublist (channel : Channel) : (callbacks channel).Sublist [.error, .write] := by
  simp only [callbacks, Channel.handleEventWithGuard]
  split_ifs <;> decide

lemma takeFunctor_quiet {c : Connector} (h : c.Quiet) (fs : List Functor) :
    (c.takeFunctor fs).Quiet :=
  ⟨h.state, h.channel, by simp [takeFunctor, h.timers]⟩

/-- The end of an attempt leaves a pending `startInLoop` alone. -/
lemma ends_starting {c c' : Connector} {rest : List Functor} (he : Ends c c')
    (hstarting : .startInLoop ∈ c.functors ++ rest → c.Quiet)
    (honce : (c.functors ++ rest).count .startInLoop ≤ 1) :
    (.startInLoop ∈ c'.functors ++ rest → c'.Quiet) ∧
      (c'.functors ++ rest).count .startInLoop ≤ 1 := by
  have hcount :
      (c'.functors ++ rest).count .startInLoop = (c.functors ++ rest).count .startInLoop := by
    rw [List.count_append, List.count_append, he.count_startInLoop]
  refine ⟨fun hin => ?_, hcount ▸ honce⟩
  rw [← List.count_pos_iff, hcount, List.count_pos_iff] at hin
  have hq := hstarting hin
  rwa [he.eq_of_quiet hq]

lemma Inv.doPendingFunctor {s : System} (h : Inv s) {f : Functor} {fs : List Functor}
    (hfs : s.connector.functors = f :: fs) (hhandling : s.handling = [])
    (savedErrno : Option Errno) :
    Safe ((s.connector.takeFunctor fs).runFunctor savedErrno f) fun c =>
      Inv { s with connector := c } ∧
        Stepped s (.doPendingFunctor savedErrno) { s with connector := c } := by
  have hpending : s.pending = f :: (fs ++ s.inFlight) := by rw [pending, hfs, List.cons_append]
  have hstarting : .startInLoop ∈ fs ++ s.inFlight → (s.connector.takeFunctor fs).Quiet := by
    intro hin
    exact takeFunctor_quiet (h.starting (hpending ▸ List.mem_cons_of_mem f hin)) fs
  have honce : (fs ++ s.inFlight).count .startInLoop ≤ 1 := by
    refine le_trans ?_ h.once
    rw [hpending]
    exact List.count_le_count_cons
  have hnot {c : Connector} : s.handling ≠ [] → c.state ≠ .kConnected := fun hne =>
    absurd hhandling hne
  cases f with
  | startInLoop =>
    have hq := takeFunctor_quiet (h.starting (hpending ▸ List.mem_cons_self ..)) fs
    apply (startInLoop_spec hq savedErrno).safe.mono
    intro c hb
    have hnone : (fs ++ s.inFlight).count .startInLoop = 0 := by
      have hone := h.once
      rw [hpending, List.count_cons_self] at hone
      omega
    have hfunctors : c.functors = fs := hb.functors
    refine ⟨⟨hb.inv (takeFunctor_inv h.connector hfs (by simp)) hq, h.inFlight, ?_, ?_, h.handling,
      hnot⟩, .startInLoop savedErrno fs c hfs hq hb⟩
    · intro hin
      rw [pending, hfunctors] at hin
      exact absurd hin (List.count_eq_zero.mp hnone)
    · rw [pending, hfunctors, hnone]
      exact Nat.zero_le 1
  | stopInLoop =>
    have hinv := takeFunctor_inv h.connector hfs (by simp)
    apply (stopInLoop_spec hinv).safe.mono
    intro c he
    obtain ⟨hstarting', honce'⟩ := ends_starting he hstarting honce
    exact ⟨⟨he.inv hinv, h.inFlight, hstarting', honce', h.handling, hnot⟩,
      .stopInLoop savedErrno fs c hfs he⟩
  | resetChannel =>
    apply (resetChannel_spec h.connector hfs).safe.mono
    rintro c ⟨rfl, hinv⟩
    refine ⟨⟨hinv, h.inFlight, fun hin => ?_, honce, h.handling, hnot⟩,
      .resetChannel savedErrno fs hfs⟩
    have hq := hstarting hin
    exact ⟨hq.state, rfl, hq.timers⟩

lemma Inv.start {s : System} (h : Inv s) (hq : s.connector.Quiet)
    (hpending : .startInLoop ∉ s.pending) (savedErrno : Option Errno) :
    Safe (startInLoop { s.connector with connect_ := true } savedErrno) fun c =>
      Inv { s with connector := c, started := true } ∧
        Stepped s (.start savedErrno) { s with connector := c, started := true } := by
  apply (startInLoop_spec (hq.connect true) savedErrno).safe.mono
  intro c hb
  have hsame : c.functors ++ s.inFlight = s.pending := by rw [pending, hb.functors]
  have honce : (c.functors ++ s.inFlight).count .startInLoop ≤ 1 := hsame ▸ h.once
  refine ⟨⟨hb.inv (h.connector.connect true) (hq.connect true), h.inFlight, ?_, honce, h.handling,
    ?_⟩, .start savedErrno c hq hb⟩
  · intro hin
    exact absurd (hsame ▸ hin) hpending
  · exact fun _ => hb.state_ne hq.state

lemma Inv.remoteStart {s : System} (h : Inv s) (hq : s.connector.Quiet)
    (hpending : .startInLoop ∉ s.pending) :
    Inv { s with
      connector := { s.connector with connect_ := true }
      inFlight := s.inFlight ++ [.startInLoop]
      started := true } := by
  refine ⟨h.connector.connect true, ?_, fun _ => hq.connect true, ?_, h.handling, h.notConnected⟩
  · simpa using h.inFlight
  · have hzero : s.pending.count .startInLoop = 0 := List.count_eq_zero.mpr hpending
    rw [pending] at hzero
    simp [pending, ← List.append_assoc, hzero]

/-- The two halves of `stop`. -/
lemma Inv.stop {s : System} (h : Inv s) :
    Inv { s with
      connector := s.connector.clearConnect.queueInLoop .stopInLoop
      started := false } := by
  refine ⟨queueInLoop_inv h.connector.clearConnect (by simp), h.inFlight, ?_, ?_,
    h.handling, h.notConnected⟩
  · intro hin
    have hq : s.connector.Quiet := by
      apply h.starting
      simpa [pending, queueInLoop, clearConnect] using hin
    exact ⟨hq.state, hq.channel, hq.timers⟩
  · simpa [pending, queueInLoop, clearConnect] using h.once

lemma Inv.remoteStop {s : System} (h : Inv s) :
    Inv { s with
      connector := s.connector.clearConnect
      inFlight := s.inFlight ++ [.stopInLoop]
      started := false } := by
  refine ⟨h.connector.clearConnect, ?_, ?_, ?_, h.handling, h.notConnected⟩
  · simpa using h.inFlight
  · intro hin
    have hq : s.connector.Quiet := by
      apply h.starting
      simpa [pending, clearConnect] using hin
    exact ⟨hq.state, hq.channel, hq.timers⟩
  · simpa [pending, clearConnect] using h.once

lemma Inv.queueInLoop {s : System} (h : Inv s) {i : ℕ} {f : Functor}
    (hf : s.inFlight[i]? = some f) :
    Inv { s with connector := s.connector.queueInLoop f, inFlight := s.inFlight.eraseIdx i } := by
  obtain ⟨hlt, rfl⟩ := List.getElem?_eq_some_iff.mp hf
  have hperm :
      (s.connector.functors ++ [s.inFlight[i]] ++ s.inFlight.eraseIdx i).Perm s.pending := by
    rw [List.append_assoc]
    exact (List.getElem_cons_eraseIdx_perm hlt).append_left _
  have hne : s.inFlight[i] ≠ .resetChannel := fun heq => h.inFlight (heq ▸ List.getElem_mem hlt)
  refine ⟨queueInLoop_inv h.connector hne, ?_, ?_, ?_, h.handling, h.notConnected⟩
  · intro hin
    exact h.inFlight (List.mem_of_mem_eraseIdx hin)
  · intro hin
    have hq := h.starting (hperm.mem_iff.mp hin)
    exact ⟨hq.state, hq.channel, hq.timers⟩
  · exact (hperm.count_eq _).trans_le h.once

/-- A retry timer that fires in order finds the connector quiet. -/
lemma Inv.retryTimer {s : System} (h : Inv s) {i : ℕ} {t : RetryTimer}
    (ht : s.connector.timers[i]? = some t) (hahead : t.ahead = 0) (savedErrno : Option Errno) :
    Safe (startInLoop { s.connector with timers := s.connector.timers.eraseIdx i } savedErrno)
      fun c => Inv { s with connector := c } ∧
        Stepped s (.retryTimer i savedErrno) { s with connector := c } := by
  obtain ⟨hone, hstate, hreset⟩ := h.connector.timers t (List.mem_of_getElem? ht)
  rw [hahead, List.drop_zero] at hreset
  have hchannel := h.connector.channel_eq_none (by simp [hstate]) hreset
  have herase : s.connector.timers.eraseIdx i = [] := by
    rw [hone] at ht ⊢
    cases i with
    | zero => rfl
    | succ i => simp at ht
  have hq : Quiet { s.connector with timers := [] } := ⟨hstate, hchannel, rfl⟩
  have hinv : Connector.Inv { s.connector with timers := [] } := by
    obtain ⟨held, hattempt, hledger⟩ := h.connector.attempt
    exact ⟨⟨held, hattempt.congr rfl rfl (fun _ => rfl) rfl, hledger⟩, h.connector.fresh, by simp⟩
  rw [herase]
  apply (startInLoop_spec hq savedErrno).safe.mono
  intro c hb
  have hsame : c.functors ++ s.inFlight = s.pending := by rw [pending, hb.functors]
  have honce : (c.functors ++ s.inFlight).count .startInLoop ≤ 1 := hsame ▸ h.once
  refine ⟨⟨hb.inv hinv hq, h.inFlight, fun hin => ?_, honce, h.handling,
    fun _ => hb.state_ne hstate⟩, .retryTimer i savedErrno c hq hb⟩
  have hquiet := h.starting (hsame ▸ hin)
  simp [hquiet.timers] at hone

/-- The poller reports only the channel of an attempt that is under way. -/
lemma Inv.poll {s : System} (h : Inv s) {channel : Channel} {revents : PollEvents}
    (hchannel : s.connector.channel = some channel) (hreport : channel.mayReport revents = true) :
    Inv { s with
      connector := { s.connector with channel := some (channel.setRevents revents) }
      handling := callbacks (channel.setRevents revents) } := by
  obtain ⟨held, hattempt, hledger⟩ := h.connector.attempt
  cases hattempt with
  | connecting channel' hstate hchannel' htimers hreset =>
    rw [hchannel, Option.some.injEq] at hchannel'
    subst hchannel'
    refine ⟨⟨⟨_, .connecting (channel.setRevents revents) hstate rfl htimers hreset, hledger⟩,
      h.connector.fresh, h.connector.timers⟩, h.inFlight, fun hin => ?_, h.once,
      callbacks_sublist _, fun _ => by simp [hstate]⟩
    have hquiet := h.starting hin
    simp [hquiet.state] at hstate
  | resetting channel' hstate hchannel' hdetached hreset =>
    rw [hchannel, Option.some.injEq] at hchannel'
    subst hchannel'
    simp [Channel.mayReport, hdetached.1] at hreport
  | idle hstate hchannel' hreset => simp [hchannel] at hchannel'

lemma Inv.handleWrite {s : System} (h : Inv s) {handling : List EventCallback}
    (hhandling : s.handling = .write :: handling) (err : Option Errno) (isSelfConnect : Bool) :
    Safe (s.connector.handleWrite err isSelfConnect) fun c =>
      Inv { s with connector := c, handling } ∧
        Stepped s (.handleEvent err isSelfConnect) { s with connector := c, handling } := by
  have hnot : s.connector.state ≠ .kConnected := h.notConnected (by simp [hhandling])
  have hlast : handling = [] := by
    have hsub := h.handling
    rw [hhandling] at hsub
    rcases List.sublist_cons_iff.mp hsub with hsub | ⟨r, hr, -⟩
    · exact List.sublist_nil.mp (List.cons_sublist_cons.mp hsub)
    · simp at hr
  apply (handleWrite_spec h.connector hnot err isSelfConnect).safe.mono
  intro c he
  obtain ⟨hstarting, honce⟩ := ends_starting he h.starting h.once
  exact ⟨⟨he.inv h.connector, h.inFlight, hstarting, honce, hlast ▸ List.nil_sublist _,
    fun hne => absurd hlast hne⟩, .handleEvent err isSelfConnect handling c he⟩

lemma Inv.handleError {s : System} (h : Inv s) {handling : List EventCallback}
    (hhandling : s.handling = .error :: handling) (err : Option Errno) (isSelfConnect : Bool) :
    Safe s.connector.handleError fun c =>
      Inv { s with connector := c, handling } ∧
        Stepped s (.handleEvent err isSelfConnect) { s with connector := c, handling } := by
  have hnot : s.connector.state ≠ .kConnected := h.notConnected (by simp [hhandling])
  have hsub : handling.Sublist [.error, .write] :=
    (List.sublist_cons_self _ _).trans (hhandling ▸ h.handling)
  apply (handleError_spec h.connector).safe.mono
  rintro c ⟨he, hstate⟩
  obtain ⟨hstarting, honce⟩ := ends_starting he h.starting h.once
  exact ⟨⟨he.inv h.connector, h.inFlight, hstarting, honce, hsub, fun _ => hstate hnot⟩,
    .handleEvent err isSelfConnect handling c he⟩

theorem step_spec {s : System} (h : Inv s) {e : Event} (hstart : s.StartsAfresh e)
    (horder : s.InOrder e) : Safe (s.step e) fun s' => Inv s' ∧ Stepped s e s' := by
  cases e with
  | start savedErrno =>
    simp only [step, safe_bind, safe_require]
    exact fun _ => h.start hstart.1 hstart.2 savedErrno
  | remoteStart =>
    simp only [step, safe_bind, safe_require]
    exact fun _ => ⟨h.remoteStart hstart.1 hstart.2, .remoteStart⟩
  | stop => exact ⟨h.stop, .stop⟩
  | remoteStop => exact ⟨h.remoteStop, .remoteStop⟩
  | queueInLoop i =>
    simp only [step]
    split
    · rename_i f hf
      exact ⟨h.queueInLoop hf, .queueInLoop i f hf⟩
    · trivial
  | doPendingFunctor savedErrno =>
    simp only [step]
    split
    · rename_i f fs hhandling hfs
      simp only [safe_bind]
      exact h.doPendingFunctor hfs hhandling savedErrno
    · trivial
  | retryTimer i savedErrno =>
    simp only [step]
    split
    · rename_i t ht
      simp only [safe_bind]
      exact h.retryTimer ht (horder t ht) savedErrno
    · trivial
  | poll revents =>
    simp only [step]
    split
    · rename_i channel hchannel hhandling
      simp only [safe_bind, safe_require]
      exact fun hreport => ⟨h.poll hchannel hreport, .poll revents channel hchannel⟩
    · trivial
  | handleEvent err isSelfConnect =>
    simp only [step]
    split
    · rename_i handling hhandling
      simp only [safe_bind]
      exact h.handleWrite hhandling err isSelfConnect
    · rename_i handling hhandling
      simp only [safe_bind]
      exact h.handleError hhandling err isSelfConnect
    · trivial

/-- In every run whose starts begin afresh and whose timers fire in order, no assertion fails, and
at most one socket is neither closed nor handed to `newConnectionCallback_`. -/
theorem one_attempt_at_a_time {es : List Event}
    (h : Along step (fun s e => s.StartsAfresh e ∧ s.InOrder e) init es) :
    Safe (run step init es) fun s =>
      ∀ sockfd sockfd', s.connector.IsOpen sockfd → s.connector.IsOpen sockfd' →
        sockfd = sockfd' := by
  have hrun := run_safe (I := Inv)
    (fun s e hs hP => (step_spec hs hP.1 hP.2).mono fun _ hs' => hs'.1) init_inv h
  apply hrun.mono
  intro s hs sockfd sockfd' hopen hopen'
  exact (hs.connector.isCurrent_of_isOpen hopen).eq (hs.connector.isCurrent_of_isOpen hopen')

/-- An attempt is refused and retried, fails, and is stopped; the next one is stopped while it is
under way, and the last one is left connecting. -/
@[irreducible] def startsAfresh : List Event :=
  [.start (some .ECONNREFUSED), .retryTimer 0 (some .EINPROGRESS),
    .poll { pollout := true, pollerr := true }, .remoteStop, .handleEvent none false,
    .handleEvent none false, .doPendingFunctor none, .queueInLoop 0, .doPendingFunctor none,
    .remoteStart, .queueInLoop 0, .doPendingFunctor (some .EINTR), .stop, .doPendingFunctor none,
    .doPendingFunctor none, .start (some .EINPROGRESS)]

theorem one_attempt_at_a_time_stopped :
    Yields (run step init startsAfresh) fun s =>
      s.connector.log = [.opened 0, .closed 0, .opened 1, .stopped, .closed 1, .opened 2, .stopped,
        .closed 2, .opened 3] ∧
      ∀ sockfd sockfd', s.connector.IsOpen sockfd → s.connector.IsOpen sockfd' →
        sockfd = sockfd' := by
  have h : Along step (fun s e => s.StartsAfresh e ∧ s.InOrder e) init startsAfresh := by
    decide +kernel
  have hrun : Yields (run step init startsAfresh) fun s =>
      s.connector.log = [.opened 0, .closed 0, .opened 1, .stopped, .closed 1, .opened 2, .stopped,
        .closed 2, .opened 3] := by decide +kernel
  obtain ⟨s, hs, hlog⟩ := hrun
  exact ⟨s, hs, hlog, (one_attempt_at_a_time h).of_ok hs⟩

/-- The connection is established when `start` is called again. -/
def startsConnected : List Event :=
  [.start (some .EINPROGRESS), .poll { pollout := true }, .handleEvent none false,
    .doPendingFunctor none, .stop, .doPendingFunctor none, .start (some .EINPROGRESS)]

/-- The `stopInLoop` of the `stop` is still queued. -/
def startsBeforeStopInLoop : List Event :=
  [.start (some .EINPROGRESS), .stop, .start (some .EINPROGRESS)]

/-- The `resetChannel` of the attempt that was stopped is still queued. -/
def startsBeforeResetChannel : List Event :=
  [.start (some .EINPROGRESS), .stop, .doPendingFunctor none, .start (some .EINPROGRESS)]

/-- The retry timer of the attempt before the `stop` fires after the next `start`. -/
def startsBeforeRetryTimer : List Event :=
  [.start (some .ECONNREFUSED), .stop, .doPendingFunctor none, .start (some .EINPROGRESS),
    .retryTimer 0 (some .EINPROGRESS)]

/-- The `startInLoop` of another thread's `start` is still queued. -/
def startsTwice : List Event :=
  [.remoteStart, .queueInLoop 0, .stop, .start (some .EINPROGRESS),
    .doPendingFunctor (some .EINPROGRESS)]

/-- A retry timer fires before the `resetChannel` that was queued ahead of it. -/
def retryTimerFirst : List Event :=
  [.start (some .EINPROGRESS), .poll { pollerr := true }, .handleEvent none false,
    .retryTimer 0 (some .EINPROGRESS)]

theorem two_attempts_at_once :
    (∀ es ∈ [startsConnected, startsBeforeStopInLoop, startsBeforeRetryTimer, startsTwice],
      run step init es = .error (.failed .startInLoop)) ∧
    ∀ es ∈ [startsBeforeResetChannel, retryTimerFirst],
      run step init es = .error (.failed .connecting) := by
  have hstart :
      ∀ es ∈ [startsConnected, startsBeforeStopInLoop, startsBeforeRetryTimer, startsTwice],
        failure (run step init es) = some .startInLoop := by decide +kernel
  have hconnecting : ∀ es ∈ [startsBeforeResetChannel, retryTimerFirst],
      failure (run step init es) = some .connecting := by decide +kernel
  exact ⟨fun es hes => failure_eq_some.mp (hstart es hes),
    fun es hes => failure_eq_some.mp (hconnecting es hes)⟩

end System
end Connector
end Muduo

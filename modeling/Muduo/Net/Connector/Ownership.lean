import Muduo.Machine.Log
import Muduo.Net.Connector.Attempts

/-!
# Who closes a socket

With one `start` and any number of `stop`s there is one attempt at a time, whatever the order of the
events. Every socket that `connect` creates leaves the connector once: it is closed, or it is handed
to `newConnectionCallback_`, which does not happen after a `stop`. Once a `stopInLoop` has run, no
socket is left.
-/

namespace Muduo
namespace Connector

open Machine

variable {c c' : Connector}

/-! ### Nothing is passed on after a stop -/

structure Guarded (c : Connector) : Prop where
  stopped : .stopped ∈ c.log → c.connect_ = false
  passed : ∀ sockfd, AtEach (.passed sockfd) (fun pre => .stopped ∉ pre) c.log

lemma Guarded.concat (h : Guarded c) {x : Action} (hconnect : c'.connect_ = c.connect_)
    (hlog : c'.log = c.log ++ [x]) (hstopped : x ≠ .stopped)
    (hpassed : ∀ sockfd, x = .passed sockfd → c.connect_ = true) : Guarded c' := by
  constructor
  · intro hin
    rw [hlog, List.mem_append, List.mem_singleton] at hin
    rcases hin with hin | hin
    · rw [hconnect]
      exact h.stopped hin
    · exact absurd hin.symm hstopped
  · intro sockfd
    rw [hlog]
    by_cases hx : x = .passed sockfd
    · apply (h.passed sockfd).concat
      intro hin
      have htrue := hpassed sockfd hx
      simp [h.stopped hin] at htrue
    · exact (h.passed sockfd).concat_of_ne hx

lemma Guarded.clearConnect (h : Guarded c) : Guarded c.clearConnect :=
  ⟨fun _ => rfl, fun sockfd => (h.passed sockfd).concat_of_ne (by simp)⟩

lemma Begins.guarded (hb : Begins c c') (h : Guarded c) : Guarded c' := by
  have hopened : Guarded c.createNonblockingOrDie.1 :=
    h.concat (x := .opened c.numSockets) rfl rfl (by simp) (by simp)
  cases hb with
  | nothing hconnect => exact h
  | connecting hconnect => exact ⟨hopened.stopped, hopened.passed⟩
  | refused hconnect =>
    exact hopened.concat (retry_connect _ _) (retry_log _ _) (by simp) (by simp)
  | impossible hconnect =>
    exact hopened.concat (x := .closed c.numSockets) rfl rfl (by simp) (by simp)

lemma Ends.guarded (he : Ends c c') (h : Guarded c) : Guarded c' := by
  cases he with
  | nothing hstate => exact h
  | fails channel channel' hstate hchannel hdetached =>
    exact h.concat (retry_connect _ _) (retry_log _ _) (by simp) (by simp)
  | passes channel channel' hstate hchannel hdetached hconnect =>
    exact h.concat (x := .passed channel.fd) rfl rfl (by simp) fun _ _ => hconnect
  | drops channel channel' hstate hchannel hdetached hconnect =>
    exact h.concat (x := .closed channel.fd) rfl rfl (by simp) (by simp)

/-! ### No attempt survives a stop -/

lemma Begins.eq_of_cleared (hb : Begins c c') (hconnect : c.connect_ = false) : c' = c := by
  cases hb with
  | nothing h => rfl
  | connecting h => simp [hconnect] at h
  | refused h => simp [hconnect] at h
  | impossible h => simp [hconnect] at h

lemma Begins.connect_eq (hb : Begins c c') : c'.connect_ = c.connect_ := by
  cases hb with
  | nothing h => rfl
  | connecting h => rfl
  | refused h => exact retry_connect _ _
  | impossible h => rfl

lemma Ends.state_ne (he : Ends c c') : c'.state ≠ .kConnecting := by
  cases he with
  | nothing hstate => exact hstate
  | fails channel channel' hstate hchannel hdetached => simp
  | passes channel channel' hstate hchannel hdetached hconnect => simp [newConnectionCallback]
  | drops channel channel' hstate hchannel hdetached hconnect => simp [close]

/-! ### Runs with one start -/

def Event.isStart : Event → Bool
  | .start _ | .remoteStart => true
  | _ => false

namespace System

/-- After `connect_` is cleared, an attempt that is under way will be stopped. -/
def Stopping (s : System) : Prop :=
  s.connector.connect_ = false → s.connector.state = .kConnecting → .stopInLoop ∈ s.pending

structure OnceInv (s : System) : Prop where
  inv : Inv s
  guarded : s.connector.Guarded
  stopping : s.Stopping

lemma begins_stopping {s : System} {c c' : Connector} (hb : Begins c c') (hq : c.Quiet) :
    Stopping { s with connector := c' } := by
  intro hconnect hstate
  rw [hb.connect_eq] at hconnect
  rw [hb.eq_of_cleared hconnect] at hstate
  simp [hq.state] at hstate

/-- A step that keeps `connect_`, the state and the pending functors. -/
lemma Stopping.frame {s s' : System} (h : s.Stopping)
    (hconnect : s'.connector.connect_ = s.connector.connect_)
    (hstate : s'.connector.state = s.connector.state)
    (hpending : .stopInLoop ∈ s.pending → .stopInLoop ∈ s'.pending) : s'.Stopping := by
  intro hc hs
  exact hpending (h (hconnect ▸ hc) (hstate ▸ hs))

lemma Stepped.stopping {s s' : System} {e : Event} (hs : Stepped s e s') (h : s.Stopping) :
    s'.Stopping := by
  cases hs with
  | start savedErrno c hq hb => exact begins_stopping hb (hq.connect true)
  | remoteStart =>
    intro hconnect
    cases hconnect
  | stop =>
    intro _ _
    simp [pending, Connector.queueInLoop]
  | remoteStop =>
    intro _ _
    simp [pending]
  | queueInLoop i f hf =>
    refine h.frame rfl rfl ?_
    intro hin
    obtain ⟨hlt, rfl⟩ := List.getElem?_eq_some_iff.mp hf
    have hperm := (List.getElem_cons_eraseIdx_perm hlt).symm.append_left s.connector.functors
    have hin' := hperm.mem_iff.mp hin
    simpa [pending, Connector.queueInLoop] using hin'
  | startInLoop savedErrno fs c hfs hq hb => exact begins_stopping hb hq
  | stopInLoop savedErrno fs c hfs he => exact fun _ hstate => absurd hstate he.state_ne
  | resetChannel savedErrno fs hfs =>
    refine h.frame rfl rfl ?_
    intro hin
    simpa [pending, takeFunctor, hfs] using hin
  | retryTimer i savedErrno c hq hb => exact begins_stopping hb hq
  | poll revents channel hchannel => exact h.frame rfl rfl id
  | handleEvent err isSelfConnect handling c he => exact fun _ hstate => absurd hstate he.state_ne

lemma Stepped.guarded {s s' : System} {e : Event} (hs : Stepped s e s') (hnot : e.isStart = false)
    (h : s.connector.Guarded) : s'.connector.Guarded := by
  have hsame {c : Connector} (hconnect : c.connect_ = s.connector.connect_)
      (hlog : c.log = s.connector.log) : c.Guarded :=
    ⟨fun hin => hconnect ▸ h.stopped (hlog ▸ hin), fun sockfd => hlog ▸ h.passed sockfd⟩
  cases hs with
  | start savedErrno c hq hb => cases hnot
  | remoteStart => cases hnot
  | stop => exact ⟨h.clearConnect.stopped, h.clearConnect.passed⟩
  | remoteStop => exact h.clearConnect
  | queueInLoop i f hf => exact hsame rfl rfl
  | startInLoop savedErrno fs c hfs hq hb => exact hb.guarded (hsame rfl rfl)
  | stopInLoop savedErrno fs c hfs he => exact he.guarded (hsame rfl rfl)
  | resetChannel savedErrno fs hfs => exact hsame rfl rfl
  | retryTimer i savedErrno c hq hb => exact hb.guarded (hsame rfl rfl)
  | poll revents channel hchannel => exact hsame rfl rfl
  | handleEvent err isSelfConnect handling c he => exact he.guarded h

/-- The one `start`. -/
lemma Stepped.guarded_first {s : System} {e : Event} (hs : Stepped init e s)
    (he : e.isStart = true) : s.connector.Guarded := by
  have hnew : Guarded { new with connect_ := true } :=
    ⟨by simp [new], fun sockfd => atEach_of_notMem (by simp [new])⟩
  cases hs with
  | start savedErrno c hq hb => exact hb.guarded hnew
  | remoteStart => exact hnew
  | _ => cases he

/-- The first `start` begins afresh, and there is no other. -/
lemma startsAfresh_of_isStart {s : System} {e : Event} (he : e.isStart = false) :
    s.StartsAfresh e := by
  cases e with
  | start savedErrno => cases he
  | remoteStart => cases he
  | _ => trivial

lemma init_startsAfresh (e : Event) : init.StartsAfresh e := by
  cases e with
  | start savedErrno => exact ⟨⟨rfl, rfl, rfl⟩, by simp [pending, init, new]⟩
  | remoteStart => exact ⟨⟨rfl, rfl, rfl⟩, by simp [pending, init, new]⟩
  | _ => trivial

/-- In every run of one `start` and any number of `stop`s in which timers fire in order, no
assertion fails, and in every state reached: a socket that was opened has been passed on once and
not closed, or closed once and not passed on, or is the one being connected; no other socket has
been passed on or closed; nothing was passed on after a `stop`; and once `stopInLoop` has run no
socket is being connected. -/
theorem socket_ownership {first : Event} {es : List Event} (hfirst : first.isStart = true)
    (hes : ∀ e ∈ es, e.isStart = false) (h : Along step InOrder init (first :: es)) :
    Safe (run step init (first :: es)) fun s =>
      (∀ sockfd, .opened sockfd ∈ s.connector.log →
        s.connector.log.count (.passed sockfd) = 1 ∧ s.connector.log.count (.closed sockfd) = 0 ∨
        s.connector.log.count (.passed sockfd) = 0 ∧ s.connector.log.count (.closed sockfd) = 1 ∨
        s.connector.log.count (.passed sockfd) = 0 ∧ s.connector.log.count (.closed sockfd) = 0 ∧
          s.connector.IsCurrent sockfd) ∧
      (∀ sockfd, .passed sockfd ∈ s.connector.log ∨ .closed sockfd ∈ s.connector.log →
        .opened sockfd ∈ s.connector.log) ∧
      (∀ sockfd pre post, s.connector.log = pre ++ .passed sockfd :: post → .stopped ∉ pre) ∧
      (.stopped ∈ s.connector.log → .stopInLoop ∉ s.pending →
        ∀ sockfd, ¬s.connector.IsCurrent sockfd) := by
  have hstep : ∀ s e, OnceInv s → s.InOrder e ∧ e.isStart = false → Safe (s.step e) OnceInv := by
    rintro s e hs ⟨horder, hnot⟩
    apply (step_spec hs.inv (startsAfresh_of_isStart hnot) horder).mono
    rintro s' ⟨hinv, hst⟩
    exact ⟨hinv, hst.guarded hnot hs.guarded, hst.stopping hs.stopping⟩
  have hbegin : Safe (init.step first) OnceInv := by
    apply (step_spec init_inv (init_startsAfresh first) h.head).mono
    rintro s ⟨hinv, hst⟩
    refine ⟨hinv, hst.guarded_first hfirst, hst.stopping ?_⟩
    intro _ hstate
    cases hstate
  have hrun : Safe (run step init (first :: es)) OnceInv := by
    rw [run_cons, safe_bind]
    match ht : init.step first, hbegin with
    | .ok s, hs => exact run_safe hstep hs ((h.tail ht).and_forall hes)
    | .error .disabled, _ => trivial
  apply hrun.mono
  intro s hs
  refine ⟨?_, ?_, hs.guarded.passed, ?_⟩
  · intro sockfd hopened
    rcases hs.inv.connector.released_once hopened with hone | ⟨hzero, hcurrent⟩
    · rcases Nat.add_eq_one_iff.mp hone with ⟨hclosed, hpassed⟩ | ⟨hclosed, hpassed⟩
      · exact Or.inl ⟨hpassed, hclosed⟩
      · exact Or.inr (Or.inl ⟨hpassed, hclosed⟩)
    · obtain ⟨hclosed, hpassed⟩ := Nat.add_eq_zero_iff.mp hzero
      exact Or.inr (Or.inr ⟨hpassed, hclosed, hcurrent⟩)
  · intro sockfd hreleased
    exact hs.inv.connector.opened_of_released hreleased
  · intro hstopped hnone sockfd hcurrent
    exact hnone (hs.stopping (hs.guarded.stopped hstopped) hcurrent.1)

/-- Another thread's start is refused, then fails, and then succeeds before it is stopped twice. -/
@[irreducible] def stopsAfterSuccess : List Event :=
  [.queueInLoop 0, .doPendingFunctor (some .ECONNREFUSED), .retryTimer 0 (some .EINPROGRESS),
    .poll { pollout := true, pollerr := true }, .handleEvent none false, .handleEvent none false,
    .doPendingFunctor none, .retryTimer 0 none, .poll { pollout := true }, .handleEvent none false,
    .stop, .doPendingFunctor none, .remoteStop, .queueInLoop 0, .doPendingFunctor none,
    .doPendingFunctor none]

theorem socket_ownership_passed :
    Yields (run step init (.remoteStart :: stopsAfterSuccess)) fun s =>
      s.connector.log = [.opened 0, .closed 0, .opened 1, .closed 1, .opened 2, .passed 2, .stopped,
        .stopped] ∧
      (∀ sockfd pre post, s.connector.log = pre ++ .passed sockfd :: post → .stopped ∉ pre) ∧
      ∀ sockfd, ¬s.connector.IsCurrent sockfd := by
  have hes : ∀ e ∈ stopsAfterSuccess, e.isStart = false := by decide +kernel
  have h : Along step InOrder init (.remoteStart :: stopsAfterSuccess) := by decide +kernel
  have hrun : Yields (run step init (.remoteStart :: stopsAfterSuccess)) fun s =>
      s.connector.log = [.opened 0, .closed 0, .opened 1, .closed 1, .opened 2, .passed 2, .stopped,
        .stopped] ∧ .stopInLoop ∉ s.pending := by decide +kernel
  obtain ⟨s, hs, hlog, hpending⟩ := hrun
  obtain ⟨-, -, hpassed, hstopped⟩ := (socket_ownership rfl hes h).of_ok hs
  exact ⟨s, hs, hlog, hpassed, hstopped (by simp [hlog]) hpending⟩

end System
end Connector
end Muduo

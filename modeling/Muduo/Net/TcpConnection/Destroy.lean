import Muduo.Net.TcpConnection.LifeCycle

/-!
# Destroying a connection in any state

The destructor of `TcpServer` runs `connectDestroyed` for every connection it still has, whatever
the connection is doing. The function cleans up in `kConnected` only. In the other states it takes
for granted that `handleClose` has run and that nothing has happened since: it removes the channel
as it is and leaves `state_` and the connection callback alone.

`Standing` is what every run keeps between `connectEstablished` and `connectDestroyed`, without any
condition on its steps. From it follows in which states `connectDestroyed` does its work.
-/

namespace Muduo
namespace TcpConnection

open Machine

/-- A connection that is established and not destroyed, in any state. -/
structure Standing (c : TcpConnection) : Prop where
  index : c.channel.index ≠ .kNew
  calls : ∃ n, connectionCalls c.calls = true :: List.replicate n false
  up : c.state = .kConnected → connectionCalls c.calls = [true]

/-- A connection that `connectDestroyed` has cleaned up. -/
structure Destroyed (c : TcpConnection) : Prop where
  state : c.state = .kDisconnected
  noEvents : c.channel.isNoneEvent = true
  unregistered : c.channel.index = .kNew ∧ c.channel.kernel = none ∧ c.channel.addedToLoop = false
  balanced : (connectionCalls c.calls).count true = (connectionCalls c.calls).count false

lemma connectionCalls_append (calls calls' : List Callback) :
    connectionCalls (calls ++ calls') = connectionCalls calls ++ connectionCalls calls' :=
  List.filterMap_append ..

lemma established_standing (sockfd : ℕ) (wc hw : Bool) (mark : ℕ) :
    (established sockfd wc hw mark).Standing :=
  ⟨Channel.update_index_ne_new _ _, ⟨0, rfl⟩, fun _ => rfl⟩

/-! ### What each function keeps -/

/-- A function that calls no connection callback and does not go back to `kConnected`. -/
lemma Standing.of_eq {c c' : TcpConnection} (h : c.Standing)
    (hindex : c.channel.index ≠ .kNew → c'.channel.index ≠ .kNew)
    (hcalls : connectionCalls c'.calls = connectionCalls c.calls)
    (hstate : c'.state = .kConnected → c.state = .kConnected) : c'.Standing := by
  refine ⟨hindex h.index, ?_, ?_⟩
  · rw [hcalls]
    exact h.calls
  · intro hst
    rw [hcalls]
    exact h.up (hstate hst)

lemma Standing.of_writeFrame {c c' : TcpConnection} (h : c.Standing) (hf : WriteFrame c c') :
    c'.Standing := by
  apply h.of_eq hf.index
  · rw [hf.calls]
  · rw [hf.state]
    exact id

lemma Standing.of_readFrame {c c' : TcpConnection} (h : c.Standing) (hf : ReadFrame c c') :
    c'.Standing := by
  apply h.of_eq hf.index
  · rw [hf.calls]
  · rw [hf.state]
    exact id

lemma Standing.setDisconnecting {c : TcpConnection} (h : c.Standing) :
    (c.setState .kDisconnecting).Standing := by
  refine h.of_eq id rfl ?_
  intro hst
  cases hst

lemma Standing.queueInLoop {c : TcpConnection} (h : c.Standing) (f : Functor) :
    (c.queueInLoop f).Standing :=
  h.of_eq id rfl id

lemma Standing.call {c : TcpConnection} (h : c.Standing) {cb : Callback}
    (hcb : connectionCalls [cb] = []) : (c.call cb).Standing := by
  refine h.of_eq id ?_ id
  rw [TcpConnection.call, connectionCalls_append, hcb, List.append_nil]

lemma Standing.closed {c : TcpConnection} (h : c.Standing) : c.closed.Standing := by
  obtain ⟨n, hn⟩ := h.calls
  refine ⟨Channel.update_index_ne_new _ _, ⟨n + 1, ?_⟩, ?_⟩
  · rw [TcpConnection.closed, connectionCalls_append, connectionCalls_append, hn,
      List.replicate_succ']
    simp [connectionCalls]
  · intro hst
    cases hst

lemma Standing.handleClose {c : TcpConnection} (h : c.Standing) {c' : TcpConnection}
    (hc : c.handleClose = .ok c') : c'.Standing := by
  obtain ⟨-, rfl⟩ := handleClose_eq_ok hc
  exact h.closed

lemma Standing.handleRead {c : TcpConnection} (h : c.Standing) (rd : ReadResult)
    {c' : TcpConnection} (hc : c.handleRead rd = .ok c') : c'.Standing := by
  cases rd with
  | data bytes =>
    simp only [TcpConnection.handleRead, bind_eq_ok] at hc
    obtain ⟨-, -, b, -, hc⟩ := hc
    cases hc
    have hin : Standing { c with inputBuffer := b } := h.of_eq id rfl id
    exact hin.call rfl
  | eof => exact h.handleClose hc
  | error e =>
    cases hc
    exact h

lemma Standing.runCallback {c : TcpConnection} (h : c.Standing) (rd : ReadResult)
    (wr : WriteResult) (cb : EventCallback) {c' : TcpConnection}
    (hc : c.runCallback rd wr cb = .ok c') : c'.Standing := by
  cases cb with
  | close => exact h.handleClose hc
  | error =>
    cases hc
    exact h
  | read => exact h.handleRead rd hc
  | write => exact h.of_writeFrame ((handleWrite_frame c wr).of_ok hc)

lemma Standing.forceClose {c : TcpConnection} (h : c.Standing) : c.forceClose.Standing := by
  unfold TcpConnection.forceClose
  split
  · exact h.setDisconnecting.queueInLoop _
  · exact h

lemma Standing.runFunctor {c : TcpConnection} (h : c.Standing) (wr : WriteResult) {f : Functor}
    (hf : f ≠ .connectDestroyed) {c' : TcpConnection} (hc : c.runFunctor wr f = .ok c') :
    c'.Standing := by
  cases f with
  | sendInLoop data => exact h.of_writeFrame ((sendInLoop_frame c data wr).of_ok hc)
  | shutdownInLoop =>
    cases hc
    exact h.of_writeFrame (shutdownInLoop_frame c)
  | forceCloseInLoop =>
    simp only [TcpConnection.runFunctor, forceCloseInLoop] at hc
    split at hc
    · exact h.handleClose hc
    · cases hc
      exact h
  | startReadInLoop =>
    cases hc
    exact h.of_readFrame (startReadInLoop_frame c)
  | stopReadInLoop =>
    cases hc
    exact h.of_readFrame (stopReadInLoop_frame c)
  | connectDestroyed => exact absurd rfl hf
  | writeCompleteCallback =>
    cases hc
    exact h.call rfl
  | highWaterMarkCallback len =>
    cases hc
    exact h.call rfl

/-! ### The system -/

namespace System

lemma onConn_eq_ok {s t : System} {f : TcpConnection → Code TcpConnection}
    (h : s.onConn f = .ok t) : ∃ c, f s.conn = .ok c ∧ t = { s with conn := c } := by
  simp only [onConn, bind_eq_ok] at h
  obtain ⟨c, hc, h⟩ := h
  cases h
  exact ⟨c, hc, rfl⟩

lemma userCall_standing {s t : System} (h : s.conn.Standing) (wr : WriteResult) (call : UserCall)
    (hs : s.userCall wr call = .ok t) : t.conn.Standing := by
  cases call with
  | send data =>
    obtain ⟨c, hc, rfl⟩ := onConn_eq_ok (f := fun c => c.send data wr) hs
    simp only [send] at hc
    split at hc
    · exact h.of_writeFrame ((sendInLoop_frame _ data wr).of_ok hc)
    · cases hc
      exact h
  | shutdown =>
    cases hs
    simp only [shutdown]
    split
    · exact h.setDisconnecting.of_writeFrame (shutdownInLoop_frame _)
    · exact h
  | forceClose =>
    cases hs
    exact h.forceClose
  | forceCloseWithDelay =>
    simp only [userCall, forceCloseWithDelay] at hs
    split at hs
    · cases hs
      exact h.setDisconnecting
    · cases hs
      exact h
  | startRead =>
    cases hs
    exact h.of_readFrame (startReadInLoop_frame _)
  | stopRead =>
    cases hs
    exact h.of_readFrame (stopReadInLoop_frame _)

/-- What holds between any two steps. -/
def Stands (s : System) : Prop := s.destroyed = false → s.conn.Standing

lemma step_stands {s t : System} {e : Event} (h : s.Stands) (hs : s.step e = .ok t) :
    t.Stands := by
  unfold step at hs
  rw [bind_eq_ok] at hs
  obtain ⟨_, hd, hs⟩ := hs
  have h := h (by simpa [require] using hd)
  intro ht
  cases e with
  | poll revt =>
    simp only [bind_eq_ok] at hs
    obtain ⟨-, -, hs⟩ := hs
    cases hs
    exact h.of_eq id rfl id
  | handleEvent rd wr =>
    simp only at hs
    split at hs
    · cases hs
    · obtain ⟨c, hc, rfl⟩ := onConn_eq_ok hs
      exact h.runCallback rd wr _ hc
  | doPendingFunctor wr =>
    simp only [bind_eq_ok] at hs
    obtain ⟨-, -, hs⟩ := hs
    split at hs
    · cases hs
    · rename_i f rest _
      rw [bind_eq_ok] at hs
      obtain ⟨c, hc, hs⟩ := hs
      cases hs
      have hf : f ≠ .connectDestroyed := by simpa using ht
      have htake : Standing { s.conn with pendingFunctors := rest } := h.of_eq id rfl id
      exact htake.runFunctor wr hf hc
  | user call wr => exact userCall_standing h wr call hs
  | delayElapsed =>
    simp only [bind_eq_ok] at hs
    obtain ⟨-, -, hs⟩ := hs
    cases hs
    exact h.forceClose
  | remoteCall call =>
    cases hs
    exact h
  | remoteAction i =>
    simp only at hs
    split at hs
    · rename_i a rest _
      cases hs
      cases a with
      | setDisconnecting => exact h.setDisconnecting
      | queueInLoop f => exact h.queueInLoop f
      | runAfter => exact h
    · cases hs
  | removeConnection =>
    simp only [bind_eq_ok] at hs
    obtain ⟨-, -, hs⟩ := hs
    cases hs
    exact h.queueInLoop _

lemma run_standing {sockfd : ℕ} {wc hw : Bool} {mark : ℕ} {es : List Event} {s : System}
    (h : run step (init sockfd wc hw mark) es = .ok s) (hd : s.destroyed = false) :
    s.conn.Standing :=
  run_reaches (I := Stands) (fun _ _ _ hs => step_stands hs)
    (fun _ => established_standing sockfd wc hw mark) h hd

end System

/-! ### connectDestroyed -/

variable {d : Dispatch}

lemma connectDestroyed_connected {c : TcpConnection} (h : c.Standing)
    (hst : c.state = .kConnected) (hd : d.mayRemove = true) :
    Yields (c.connectDestroyed d) Destroyed := by
  set down := (c.setState .kDisconnected).onChannel Channel.disableAll with hdown
  have hnone : down.channel.isNoneEvent = true := by simp [hdown, onChannel]
  have hremove := Channel.remove_eq_ok.mpr ⟨hnone, hd, Channel.update_index_ne_new _ _, rfl⟩
  simp only [connectDestroyed, hst, if_true, ← hdown]
  refine ⟨_, bind_eq_ok.mpr ⟨_, hremove, rfl⟩, rfl, hnone, ⟨rfl, rfl, rfl⟩, ?_⟩
  rw [TcpConnection.call, connectionCalls_append, show down.calls = c.calls from rfl, h.up hst]
  rfl

lemma mayRemove_of_connectDestroyed {c c' : TcpConnection} (h : c.connectDestroyed d = .ok c') :
    d.mayRemove = true := by
  obtain ⟨ch, hch, -⟩ := bind_eq_ok.mp h
  exact (Channel.remove_eq_ok.mp hch).2.1

/-- Outside `kConnected` only the channel is removed. -/
lemma connectDestroyed_eq_ok {c c' : TcpConnection} (hst : c.state ≠ .kConnected) :
    c.connectDestroyed d = .ok c' ↔
      ∃ ch, c.channel.remove d = .ok ch ∧ c' = { c with channel := ch } := by
  simp only [connectDestroyed, hst, if_false, bind_eq_ok]
  simp [pure, Except.pure, eq_comm]

lemma replicate_balanced {n : ℕ} :
    (true :: List.replicate n false).count true = (true :: List.replicate n false).count false ↔
      n = 1 := by
  simp [List.count_replicate, eq_comm]

/-- `connectDestroyed` does its work in exactly these states: the connection is up and not shutting
down, or it has been closed once and its channel has not been enabled since. The loop must not be
at a callback of another channel while this one is in `activeChannels_`. -/
theorem connectDestroyed_finishes_iff {sockfd : ℕ} {wc hw : Bool} {mark : ℕ} {es : List Event}
    {s : System} (h : run System.step (System.init sockfd wc hw mark) es = .ok s)
    (hd : s.destroyed = false) (d : Dispatch) :
    Yields (s.conn.connectDestroyed d) Destroyed ↔
      (d.eventHandling = true → d.active = true → d.current = true) ∧
        (s.conn.state = .kConnected ∨
          s.conn.state = .kDisconnected ∧ s.conn.channel.isNoneEvent = true ∧
            connectionCalls s.conn.calls = [true, false]) := by
  have hstand := System.run_standing h hd
  rw [← Dispatch.mayRemove_iff]
  by_cases hst : s.conn.state = .kConnected
  · simp only [hst, true_or, and_true]
    exact ⟨fun ⟨_, hc', _⟩ => mayRemove_of_connectDestroyed hc',
      connectDestroyed_connected hstand hst⟩
  obtain ⟨n, hn⟩ := hstand.calls
  constructor
  · rintro ⟨c', hc', hdone⟩
    refine ⟨mayRemove_of_connectDestroyed hc', ?_⟩
    obtain ⟨ch, hch, rfl⟩ := (connectDestroyed_eq_ok hst).mp hc'
    have hbalanced := hdone.balanced
    simp only [hn] at hbalanced
    rw [replicate_balanced] at hbalanced
    subst hbalanced
    exact Or.inr ⟨hdone.state, (Channel.remove_eq_ok.mp hch).1, hn⟩
  · rintro ⟨hmay, hup | ⟨hdown, hnone, hcalls⟩⟩
    · exact absurd hup hst
    · have hch := Channel.remove_eq_ok.mpr ⟨hnone, hmay, hstand.index, rfl⟩
      refine ⟨_, (connectDestroyed_eq_ok hst).mpr ⟨_, hch, rfl⟩, hdown, hnone, ⟨rfl, rfl, rfl⟩, ?_⟩
      simp only [hcalls]
      rfl

/-- The peer closes the connection. -/
def peerCloses : List Event := [.poll kReadEvent, .handleEvent .eof (.accepted 0)]

theorem connectDestroyed_finishes_closed :
    Yields (run System.step (System.init 5 true false 64) peerCloses) fun s =>
      Yields (s.conn.connectDestroyed .functors) Destroyed := by
  have hrun : Yields (run System.step (System.init 5 true false 64) peerCloses) fun s =>
      s.destroyed = false ∧ s.conn.state = .kDisconnected ∧ s.conn.channel.isNoneEvent = true ∧
        connectionCalls s.conn.calls = [true, false] := by decide +kernel
  obtain ⟨s, hs, hd, hdown⟩ := hrun
  exact ⟨s, hs, (connectDestroyed_finishes_iff hs hd .functors).mpr ⟨by decide, Or.inr hdown⟩⟩

/-- A connection that is shutting down, and one that has been told to read after its close, fail
`assert(isNoneEvent())` in `Channel::remove`. A connection that is shutting down and has stopped
reading stays in `kDisconnecting`, and the user does not hear that it is down. A connection that has
bytes to read, and is destroyed by a callback of another channel before it has read them, fails the
assertion of `EventLoop::removeChannel`. -/
theorem connectDestroyed_shutting_down :
    failure (run System.step (System.init 5 false false 64) [.user .shutdown (.accepted 0)] >>=
      fun s => s.conn.connectDestroyed .functors) = some .channelRemove ∧
    failure (run System.step (System.init 5 false false 64)
        (peerCloses ++ [.user .startRead (.accepted 0)]) >>=
      fun s => s.conn.connectDestroyed .functors) = some .channelRemove ∧
    (Yields (run System.step (System.init 5 false false 64)
        [.user .stopRead (.accepted 0), .user .shutdown (.accepted 0)] >>=
      fun s => s.conn.connectDestroyed .functors) fun c =>
        c.state = .kDisconnecting ∧ connectionCalls c.calls = [true]) ∧
    failure (run System.step (System.init 5 false false 64) [.poll kReadEvent] >>=
      fun s => s.conn.connectDestroyed ⟨true, false, true⟩) = some .removeChannel := by
  decide +kernel

end TcpConnection
end Muduo

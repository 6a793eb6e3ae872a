import Mathlib.Data.List.TakeWhile
import Muduo.Machine.Log
import Muduo.Net.TcpConnection.System

/-!
# Graceful shutdown

`shutdown()` promises that what was sent before it still reaches the peer. `send` in another thread
leaves its data in the queue of the loop, and `shutdownInLoop` queued behind it keeps the promise.
Two half-closes go around the queue: `shutdown()` in the loop thread runs `shutdownInLoop` at once,
and `handleWrite`, once `state_` is `kDisconnecting`, half-closes as soon as the output buffer is
empty. `NoCut` asks that neither happens while a send is queued ahead of the first `shutdownInLoop`.
-/

namespace Muduo
namespace TcpConnection

open Machine

def Functor.sendData : Functor → Option (List UInt8)
  | .sendInLoop data => some data
  | _ => none

/-- The data of the sends that are queued ahead of the first `shutdownInLoop`. -/
def sendsAhead (q : List Functor) : List (List UInt8) :=
  (q.takeWhile (· ≠ .shutdownInLoop)).filterMap Functor.sendData

lemma sendsAhead_cons_send (data : List UInt8) (q : List Functor) :
    sendsAhead (.sendInLoop data :: q) = data :: sendsAhead q := by
  simp [sendsAhead, Functor.sendData]

lemma sendsAhead_cons_shutdown (q : List Functor) : sendsAhead (.shutdownInLoop :: q) = [] := by
  simp [sendsAhead]

lemma sendsAhead_cons_other {f : Functor} (hf : f.sendData = none) (hs : f ≠ .shutdownInLoop)
    (q : List Functor) : sendsAhead (f :: q) = sendsAhead q := by
  simp [sendsAhead, hs, hf]

lemma sendsAhead_append_left (q q' : List Functor) : sendsAhead q <+: sendsAhead (q ++ q') := by
  induction q with
  | nil => simp [sendsAhead]
  | cons f q ih =>
    by_cases hs : f = .shutdownInLoop
    · simp [hs, sendsAhead_cons_shutdown]
    · cases f with
      | sendInLoop data =>
        rw [List.cons_append, sendsAhead_cons_send, sendsAhead_cons_send]
        simpa using ih
      | _ =>
        rw [List.cons_append, sendsAhead_cons_other rfl hs, sendsAhead_cons_other rfl hs]
        exact ih

lemma sendsAhead_concat {q : List Functor} (hq : .shutdownInLoop ∉ q) (data : List UInt8) :
    sendsAhead (q ++ [.sendInLoop data]) = sendsAhead q ++ [data] := by
  have hall : ∀ f ∈ q, decide (f ≠ .shutdownInLoop) = true := by
    intro f hf
    simp only [ne_eq, decide_not, Bool.not_eq_eq_eq_not, Bool.not_true, decide_eq_false_iff_not]
    rintro rfl
    exact hq hf
  rw [sendsAhead, List.takeWhile_append_of_pos hall, sendsAhead,
    List.takeWhile_eq_self_iff.mpr hall]
  simp [Functor.sendData]

/-! ### The connection -/

/-- A functor that closes the connection or comes after the close. -/
def Functor.closes : Functor → Bool
  | .forceCloseInLoop => true
  | .connectDestroyed => true
  | _ => false

/-- All of `promised` is in what the socket had accepted after the operations `pre`. -/
def Flushes (promised : List (List UInt8)) (pre : List SocketOp) : Prop :=
  ∃ sent, promised.Subperm sent ∧ written pre = sent.flatten

lemma Flushes.mem {promised : List (List UInt8)} {pre : List SocketOp} (h : Flushes promised pre)
    {data : List UInt8} (hdata : data ∈ promised) {b : UInt8} (hb : b ∈ data) :
    b ∈ written pre := by
  obtain ⟨sent, hsub, hwritten⟩ := h
  rw [hwritten]
  exact List.mem_flatten.mpr ⟨data, hsub.subset hdata, hb⟩

/-- What was promised is in the stream or queued ahead of the half-close, and each half-close came
after all of it. -/
structure Orderly (c : TcpConnection) (promised : List (List UInt8)) : Prop where
  state : c.state ≠ .kDisconnected
  matches_buffer : c.WritingMatches
  opened : ∀ f ∈ c.pendingFunctors, f.closes = false
  sent : ∃ sent, c.stream = sent.flatten ∧ promised.Subperm (sent ++ sendsAhead c.pendingFunctors)
  halfClose : AtEach .shutdownWrite (Flushes promised) c.socket

section

variable {c c' : TcpConnection} {promised : List (List UInt8)}

/-- Nothing is left of the promise in the queue, and the buffer is empty. -/
lemma Orderly.flushes (h : Orderly c promised) (hahead : sendsAhead c.pendingFunctors = [])
    (hw : c.channel.isWriting = false) : Flushes promised c.socket := by
  obtain ⟨sent, hstream, hsub⟩ := h.sent
  refine ⟨sent, by simpa [hahead] using hsub, ?_⟩
  rw [← hstream, stream, h.matches_buffer.readable_eq_nil h.state hw, List.append_nil]

lemma subperm_grow {sent : List (List UInt8)} {q q' : List Functor}
    (h : promised.Subperm (sent ++ sendsAhead q)) :
    promised.Subperm (sent ++ sendsAhead (q ++ q')) := by
  refine h.trans (List.Sublist.subperm ?_)
  exact (List.Sublist.refl sent).append (sendsAhead_append_left q q').sublist

lemma WriteFrame.opened (h : WriteFrame c c') (ho : ∀ f ∈ c.pendingFunctors, f.closes = false) :
    ∀ f ∈ c'.pendingFunctors, f.closes = false := by
  obtain ⟨q, hq, hcb⟩ := h.queue
  intro f hf
  rw [hq, List.mem_append] at hf
  rcases hf with hf | hf
  · exact ho f hf
  · have := hcb f hf
    cases f <;> simp_all [Functor.isUserCallback, Functor.closes]

lemma WriteFrame.shutdown_mem (h : WriteFrame c c') :
    .shutdownInLoop ∈ c'.pendingFunctors → .shutdownInLoop ∈ c.pendingFunctors := by
  obtain ⟨q, hq, hcb⟩ := h.queue
  rw [hq, List.mem_append]
  rintro (hm | hm)
  · exact hm
  · simpa [Functor.isUserCallback] using hcb _ hm

/-- `sendInLoop` puts `data` at the end of the stream. -/
lemma Sent.orderly {data : List UInt8} {r : WriteResult} (hs : Sent c data r c')
    (hok : c.directWriteFails r = false) (hstate : c.state ≠ .kDisconnected)
    (hopened : ∀ f ∈ c.pendingFunctors, f.closes = false)
    (hsent : ∃ sent, c.stream = sent.flatten ∧
      promised.Subperm ((sent ++ [data]) ++ sendsAhead c.pendingFunctors))
    (hhalf : AtEach .shutdownWrite (Flushes promised) c.socket) : Orderly c' promised := by
  obtain ⟨sent, hstream, hsub⟩ := hsent
  obtain ⟨q, hq, -⟩ := hs.queue
  refine ⟨hs.state ▸ hstate, hs.matches_buffer, hs.toWriteFrame.opened hopened,
    ⟨sent ++ [data], ?_, ?_⟩, ?_⟩
  · rw [hs.stream, hstream]
    simp [hstate, hok]
  · rw [hq]
    exact subperm_grow hsub
  · rcases hs.socket with hsock | ⟨bytes, hsock⟩
    · rwa [hsock]
    · rw [hsock]
      exact hhalf.concat_of_ne (by simp)

lemma Orderly.shutdownInLoop (h : Orderly c promised)
    (hcut : c.channel.isWriting = false → Flushes promised c.socket) :
    Orderly c.shutdownInLoop promised := by
  by_cases hw : c.channel.isWriting = true
  · have hsame : c.shutdownInLoop = c := by simp [TcpConnection.shutdownInLoop, hw]
    rwa [hsame]
  · simp only [Bool.not_eq_true] at hw
    have hop : c.shutdownInLoop = c.onSocket .shutdownWrite := by
      simp [TcpConnection.shutdownInLoop, hw]
    obtain ⟨sent, hstream, hsub⟩ := h.sent
    rw [hop]
    refine ⟨h.state, h.matches_buffer, h.opened, ⟨sent, ?_, hsub⟩, h.halfClose.concat (hcut hw)⟩
    rw [← hstream]
    simp [stream, onSocket]

/-- `handleWrite`: the half-close that it may add comes after the last write. -/
lemma Orderly.handleWrite {r : WriteResult} (h : Orderly c promised) (hf : Flushed c r c')
    (hcut : c.state = .kDisconnecting → r = .accepted c.outputBuffer.readableBytes →
      sendsAhead c.pendingFunctors = []) : Orderly c' promised := by
  obtain ⟨sent, hstream, hsub⟩ := h.sent
  obtain ⟨q, hq, -⟩ := hf.queue
  refine ⟨hf.state ▸ h.state, hf.matches_buffer, hf.toWriteFrame.opened h.opened,
    ⟨sent, hf.stream.trans hstream, ?_⟩, ?_⟩
  · rw [hq]
    exact subperm_grow hsub
  · rcases hf.socket with hs | ⟨bytes, hs | ⟨hst, hr, hnil, hs⟩⟩
    · exact hs ▸ h.halfClose
    · exact hs ▸ h.halfClose.concat_of_ne (by simp)
    · have hwrote : written (c.socket ++ [.write bytes]) = sent.flatten := by
        rw [← hstream, ← hf.stream, stream, hnil, hs]
        simp only [written_append, written_shutdownWrite, List.append_nil]
      rw [hs]
      refine (h.halfClose.concat_of_ne (by simp)).concat ⟨sent, ?_, hwrote⟩
      simpa [hcut hst hr] using hsub

lemma ReadFrame.orderly (hf : ReadFrame c c') (h : Orderly c promised) : Orderly c' promised := by
  refine ⟨hf.state ▸ h.state, hf.matches_buffer h.matches_buffer, ?_, ?_, hf.socket ▸ h.halfClose⟩
  · rw [hf.pendingFunctors]
    exact h.opened
  · rw [hf.stream, hf.pendingFunctors]
    exact h.sent

end

/-! ### The system -/

/-- The calls of `send` that have returned, from a connected connection, before `shutdown()` was
first called. -/
structure SendHistory where
  shutdownCalled : Bool
  promised : List (List UInt8)

def SendHistory.returned (g : SendHistory) (data : List UInt8) : SendHistory :=
  if g.shutdownCalled then g else { g with promised := g.promised ++ [data] }

lemma SendHistory.returned_subperm {g : SendHistory} {sent ahead : List (List UInt8)}
    (h : g.promised.Subperm (sent ++ ahead)) (data : List UInt8) :
    (g.returned data).promised.Subperm ((sent ++ [data]) ++ ahead) := by
  have hperm : (sent ++ ahead ++ [data]).Perm (sent ++ [data] ++ ahead) := by
    have hcomm : (ahead ++ [data]).Perm ([data] ++ ahead) := List.perm_append_comm
    simpa using hcomm.append_left sent
  unfold returned
  split
  · exact (h.trans (List.sublist_append_left _ _).subperm).trans hperm.subperm
  · exact ((List.subperm_append_right [data]).mpr h).trans hperm.subperm

@[simp] lemma SendHistory.returned_shutdownCalled (g : SendHistory) (data : List UInt8) :
    (g.returned data).shutdownCalled = g.shutdownCalled := by
  unfold returned
  split <;> rfl

namespace System

/-- A call of `send` returns in the loop thread when `sendInLoop` does, and in another thread when
the functor is queued. -/
def noteReturned (s : System) (e : Event) (g : SendHistory) : SendHistory :=
  match e with
  | .user (.send data) _ => if s.conn.state = .kConnected then g.returned data else g
  | .user .shutdown _ => { g with shutdownCalled := true }
  | .remoteCall .shutdown => { g with shutdownCalled := true }
  | .remoteAction i =>
    match s.remote[i]? with
    | some [.queueInLoop (.sendInLoop data)] => g.returned data
    | _ => g
  | _ => g

/-- The calls are `send`, `shutdown`, `startRead` and `stopRead`, no write fails with `EPIPE` or
`ECONNRESET`, and the connection is not closed. -/
def Graceful (s : System) : Event → Prop
  | .handleEvent rd _ =>
    s.handling.head? ≠ some .close ∧ (s.handling.head? = some .read → rd ≠ .eof)
  | .user call wr =>
    (call ≠ .forceClose ∧ call ≠ .forceCloseWithDelay) ∧
      wr ≠ .error .EPIPE ∧ wr ≠ .error .ECONNRESET
  | .doPendingFunctor wr => wr ≠ .error .EPIPE ∧ wr ≠ .error .ECONNRESET
  | .remoteCall call => call ≠ .forceClose ∧ call ≠ .forceCloseWithDelay
  | .delayElapsed => False
  | .removeConnection => False
  | _ => True

/-- No send is queued ahead of the first `shutdownInLoop` when the loop thread half-closes without
going through the queue: in `shutdown()` with nothing to write, and in the `handleWrite` that writes
the last byte of a connection that is disconnecting. -/
def NoCut (s : System) : Event → Prop
  | .user call _ =>
    call = .shutdown ∧ s.conn.state = .kConnected ∧ s.conn.channel.isWriting = false →
      sendsAhead s.conn.pendingFunctors = []
  | .handleEvent _ wr =>
    s.handling.head? = some .write ∧ s.conn.state = .kDisconnecting ∧
        s.conn.channel.isWriting = true ∧ wr = .accepted s.conn.outputBuffer.readableBytes →
      sendsAhead s.conn.pendingFunctors = []
  | _ => True

instance (s : System) : DecidablePred s.Graceful
  | .handleEvent _ _ | .user _ _ | .doPendingFunctor _ | .remoteCall _ =>
    inferInstanceAs (Decidable (_ ∧ _))
  | .delayElapsed | .removeConnection => inferInstanceAs (Decidable False)
  | .poll _ | .remoteAction _ => inferInstanceAs (Decidable True)

instance (s : System) : DecidablePred s.NoCut
  | .user _ _ | .handleEvent _ _ => inferInstanceAs (Decidable (_ → _))
  | .poll _ | .doPendingFunctor _ | .delayElapsed | .remoteCall _ | .remoteAction _
  | .removeConnection => inferInstanceAs (Decidable True)

/-- Nothing of a shutdown has happened or is under way. -/
structure Quiet (s : System) : Prop where
  state : s.conn.state = .kConnected
  queue : .shutdownInLoop ∉ s.conn.pendingFunctors
  socket : .shutdownWrite ∉ s.conn.socket
  remote : ∀ p ∈ s.remote, .setDisconnecting ∉ p ∧ .queueInLoop .shutdownInLoop ∉ p

structure GracefulInv (s : System) (g : SendHistory) : Prop where
  orderly : s.conn.Orderly g.promised
  quiet : g.shutdownCalled = false → s.Quiet
  remote : ∀ p ∈ s.remote, ∀ f, .queueInLoop f ∈ p → f.closes = false

section

variable {s : System} {g : SendHistory}

lemma init_gracefulInv (sockfd : ℕ) (wc hw : Bool) (mark : ℕ) :
    GracefulInv (init sockfd wc hw mark) ⟨false, []⟩ := by
  refine ⟨⟨by simp [init, established], ?_, by simp [init, established, new, onChannel],
    ⟨[], ?_, by simp⟩, atEach_of_notMem ?_⟩, fun _ => ⟨rfl, ?_, ?_, by simp [init]⟩, by simp [init]⟩
  · intro _
    simp [init, established, new, onChannel]
  · simp [init, stream, established, new, onChannel, written]
  · simp [init, established, new, onChannel]
  · simp [init, established, new, onChannel]
  · simp [init, established, new, onChannel]

/-- A step that leaves the state, the socket and the history as they are. -/
lemma GracefulInv.step_conn (h : GracefulInv s g) {c : TcpConnection}
    (ho : c.Orderly g.promised) (hstate : c.state = s.conn.state)
    (hqueue : .shutdownInLoop ∈ c.pendingFunctors → .shutdownInLoop ∈ s.conn.pendingFunctors)
    (hsocket : s.conn.state = .kConnected → .shutdownWrite ∈ c.socket →
      .shutdownWrite ∈ s.conn.socket) (hs : List EventCallback) (b : Bool) :
    GracefulInv { s with conn := c, handling := hs, destroyed := b } g := by
  refine ⟨ho, fun hcalled => ?_, h.remote⟩
  have hq := h.quiet hcalled
  exact ⟨hstate.trans hq.state, fun hm => hq.queue (hqueue hm),
    fun hm => hq.socket (hsocket hq.state hm), hq.remote⟩

lemma GracefulInv.handleEvent (h : GracefulInv s g) {rd : ReadResult} {wr : WriteResult}
    {cb : EventCallback} {rest : List EventCallback} (hhandling : s.handling = cb :: rest)
    (hg : s.Graceful (.handleEvent rd wr)) (hcut : s.NoCut (.handleEvent rd wr)) :
    Safe (s.conn.runCallback rd wr cb) fun c =>
      GracefulInv { s with handling := rest, conn := c } g := by
  have ho := h.orderly
  cases cb with
  | close => simp [Graceful, hhandling] at hg
  | error => exact h.step_conn ho rfl id (fun _ => id) rest s.destroyed
  | read =>
    simp only [runCallback]
    cases rd with
    | data bytes =>
      simp only [TcpConnection.handleRead, safe_bind, safe_require]
      intro _
      apply (Buffer.readFd_spec _ _).mono
      intro b _
      exact h.step_conn (c := { s.conn with inputBuffer := b }.call .message)
        ⟨ho.state, ho.matches_buffer, ho.opened, ho.sent, ho.halfClose⟩ rfl id (fun _ => id) rest
        s.destroyed
    | eof => simp [Graceful, hhandling] at hg
    | error e => exact h.step_conn ho rfl id (fun _ => id) rest s.destroyed
  | write =>
    by_cases hw : s.conn.channel.isWriting = true
    swap
    · simp only [runCallback, handleWrite_not_writing (by simpa using hw)]
      exact h.step_conn ho rfl id (fun _ => id) rest s.destroyed
    apply (handleWrite_spec ho.matches_buffer wr).mono
    intro c hf
    refine h.step_conn ?_ hf.state hf.toWriteFrame.shutdown_mem ?_ rest s.destroyed
    · exact ho.handleWrite hf fun hst hr => hcut ⟨by simp [hhandling], hst, hw, hr⟩
    · intro hst hm
      rcases hf.socket with hs | ⟨bytes, hs | ⟨hd, -⟩⟩
      · rwa [hs] at hm
      · simpa [hs] using hm
      · simp [hst] at hd

lemma GracefulInv.doPendingFunctor (h : GracefulInv s g) {wr : WriteResult} {f : Functor}
    {rest : List Functor} (hq : s.conn.pendingFunctors = f :: rest)
    (hg : s.Graceful (.doPendingFunctor wr)) :
    Safe (runFunctor { s.conn with pendingFunctors := rest } wr f) fun c =>
      GracefulInv { s with conn := c, destroyed := f = .connectDestroyed } g := by
  set c₀ : TcpConnection := { s.conn with pendingFunctors := rest } with hc₀
  obtain ⟨sent, hstream, hsub⟩ := h.orderly.sent
  have ho := h.orderly
  have hm : c₀.WritingMatches := ho.matches_buffer
  have hhead : f.closes = false := ho.opened f (by simp [hq])
  have hopened : ∀ f ∈ c₀.pendingFunctors, f.closes = false := by
    intro f' hf'
    exact ho.opened f' (by rw [hq]; exact List.mem_cons_of_mem f hf')
  have hmem : .shutdownInLoop ∈ c₀.pendingFunctors →
      .shutdownInLoop ∈ s.conn.pendingFunctors := by
    intro hin
    rw [hq]
    exact List.mem_cons_of_mem f hin
  rw [hq] at hsub
  -- the functors that neither send nor half-close
  have hother (hsend : f.sendData = none) (hs : f ≠ .shutdownInLoop) : c₀.Orderly g.promised := by
    rw [sendsAhead_cons_other hsend hs] at hsub
    exact ⟨ho.state, hm, hopened, ⟨sent, hstream, hsub⟩, ho.halfClose⟩
  have hread {c : TcpConnection} (hf : ReadFrame c₀ c) (hsend : f.sendData = none)
      (hs : f ≠ .shutdownInLoop) : GracefulInv { s with conn := c, destroyed := false } g := by
    refine h.step_conn (hf.orderly (hother hsend hs)) hf.state ?_ ?_ s.handling _
    · rw [hf.pendingFunctors]
      exact hmem
    · rw [hf.socket]
      exact fun _ => id
  have hcall (cb : Callback) (hsend : f.sendData = none) (hs : f ≠ .shutdownInLoop) :
      GracefulInv { s with conn := c₀.call cb, destroyed := false } g := by
    have ho' := hother hsend hs
    exact h.step_conn (c := c₀.call cb)
      ⟨ho'.state, ho'.matches_buffer, ho'.opened, ho'.sent, ho'.halfClose⟩ rfl hmem (fun _ => id)
      s.handling _
  cases f with
  | sendInLoop data =>
    apply (sendInLoop_spec hm data wr).mono
    intro c hs
    have hok : c₀.directWriteFails wr = false := by simp [directWriteFails, hg.1, hg.2]
    rw [sendsAhead_cons_send, List.append_cons] at hsub
    refine h.step_conn (hs.orderly hok ho.state hopened ⟨sent, hstream, hsub⟩ ho.halfClose) hs.state
      (fun hin => hmem (hs.toWriteFrame.shutdown_mem hin)) ?_ s.handling _
    intro _ hin
    rcases hs.socket with hs | ⟨bytes, hs⟩
    · rwa [hs] at hin
    · simpa [hs] using hin
  | shutdownInLoop =>
    rw [sendsAhead_cons_shutdown, List.append_nil] at hsub
    have ho' : c₀.Orderly g.promised := by
      refine ⟨ho.state, hm, hopened, ⟨sent, hstream, ?_⟩, ho.halfClose⟩
      exact hsub.trans (List.sublist_append_left _ _).subperm
    refine ⟨ho'.shutdownInLoop fun hw => ⟨sent, hsub, ?_⟩, ?_, h.remote⟩
    · rw [← hstream, stream, ho.matches_buffer.readable_eq_nil ho.state hw, List.append_nil]
    · intro hcalled
      exact absurd (by simp [hq]) (h.quiet hcalled).queue
  | forceCloseInLoop => simp [Functor.closes] at hhead
  | connectDestroyed => simp [Functor.closes] at hhead
  | startReadInLoop => exact hread (startReadInLoop_frame c₀) rfl (by simp)
  | stopReadInLoop => exact hread (stopReadInLoop_frame c₀) rfl (by simp)
  | writeCompleteCallback => exact hcall _ rfl (by simp)
  | highWaterMarkCallback len => exact hcall _ rfl (by simp)

/-- Each half-close so far came after all that is promised when one more call returns. -/
lemma GracefulInv.halfClose_returned (h : GracefulInv s g) (data : List UInt8) :
    AtEach .shutdownWrite (Flushes (g.returned data).promised) s.conn.socket := by
  cases hcalled : g.shutdownCalled with
  | true =>
    simp only [SendHistory.returned, hcalled]
    exact h.orderly.halfClose
  | false => exact atEach_of_notMem (h.quiet hcalled).socket

lemma GracefulInv.send (h : GracefulInv s g) {data : List UInt8} {wr : WriteResult}
    (hg : s.Graceful (.user (.send data) wr)) :
    Safe (s.userCall wr (.send data)) fun s' =>
      GracefulInv s' (s.noteReturned (.user (.send data) wr) g) := by
  have ho := h.orderly
  simp only [userCall, onConn, TcpConnection.send, noteReturned, safe_bind]
  split
  swap
  · exact h
  apply (sendInLoop_spec ho.matches_buffer data wr).mono
  intro c hs
  obtain ⟨sent, hstream, hsub⟩ := ho.sent
  have hok : s.conn.directWriteFails wr = false := by simp [directWriteFails, hg.2.1, hg.2.2]
  have ho' : c.Orderly (g.returned data).promised :=
    hs.orderly hok ho.state ho.opened ⟨sent, hstream, SendHistory.returned_subperm hsub data⟩
      (h.halfClose_returned data)
  refine ⟨ho', fun hcalled => ?_, h.remote⟩
  rw [SendHistory.returned_shutdownCalled] at hcalled
  have hq := h.quiet hcalled
  refine ⟨hs.state.trans hq.state, fun hin => hq.queue (hs.toWriteFrame.shutdown_mem hin), ?_,
    hq.remote⟩
  rcases hs.socket with hsock | ⟨bytes, hsock⟩
  · rw [hsock]
    exact hq.socket
  · simpa [hsock] using hq.socket

lemma Orderly.setDisconnecting {c : TcpConnection} {promised : List (List UInt8)}
    (h : c.Orderly promised) : (c.setState .kDisconnecting).Orderly promised :=
  ⟨by simp [setState], fun _ => h.matches_buffer h.state, h.opened, h.sent, h.halfClose⟩

lemma GracefulInv.shutdown (h : GracefulInv s g)
    (hcut : s.conn.state = .kConnected → s.conn.channel.isWriting = false →
      sendsAhead s.conn.pendingFunctors = []) :
    GracefulInv { s with conn := s.conn.shutdown } { g with shutdownCalled := true } := by
  refine ⟨?_, by simp, h.remote⟩
  unfold TcpConnection.shutdown
  split
  · rename_i hst
    have hd := Orderly.setDisconnecting h.orderly
    exact hd.shutdownInLoop fun hw => h.orderly.flushes (hcut hst hw) hw
  · exact h.orderly

lemma GracefulInv.read (h : GracefulInv s g) {c : TcpConnection} (hf : ReadFrame s.conn c) :
    GracefulInv { s with conn := c } g := by
  refine h.step_conn (hf.orderly h.orderly) hf.state ?_ ?_ s.handling s.destroyed
  · rw [hf.pendingFunctors]
    exact id
  · rw [hf.socket]
    exact fun _ => id

lemma GracefulInv.userCall (h : GracefulInv s g) {call : UserCall} {wr : WriteResult}
    (hg : s.Graceful (.user call wr)) (hcut : s.NoCut (.user call wr)) :
    Safe (s.userCall wr call) fun s' =>
      GracefulInv s' (s.noteReturned (.user call wr) g) := by
  cases call with
  | send data => exact h.send hg
  | shutdown => exact h.shutdown fun hst hw => hcut ⟨rfl, hst, hw⟩
  | forceClose => simp [Graceful] at hg
  | forceCloseWithDelay => simp [Graceful] at hg
  | startRead => exact h.read (startReadInLoop_frame s.conn)
  | stopRead => exact h.read (stopReadInLoop_frame s.conn)

lemma GracefulInv.remoteCall (h : GracefulInv s g) {call : UserCall}
    (hg : s.Graceful (.remoteCall call)) :
    GracefulInv { s with remote := s.remote ++ [s.conn.remoteCall call] }
      (s.noteReturned (.remoteCall call) g) := by
  have hopened : ∀ f, .queueInLoop f ∈ s.conn.remoteCall call → f.closes = false := by
    intro f hf
    cases call <;> simp_all [Graceful, TcpConnection.remoteCall, Functor.closes]
  have hremote : ∀ p ∈ s.remote ++ [s.conn.remoteCall call], ∀ f, .queueInLoop f ∈ p →
      f.closes = false := by
    intro p hp
    rcases List.mem_append.mp hp with hp | hp
    · exact h.remote p hp
    · rw [List.mem_singleton.mp hp]
      exact hopened
  by_cases hcall : call = .shutdown
  · subst hcall
    exact ⟨h.orderly, by simp [noteReturned], hremote⟩
  have hnote : s.noteReturned (.remoteCall call) g = g := by
    cases call <;> simp_all [noteReturned]
  rw [hnote]
  refine ⟨h.orderly, fun hcalled => ?_, hremote⟩
  have hq := h.quiet hcalled
  refine ⟨hq.state, hq.queue, hq.socket, fun p hp => ?_⟩
  rcases List.mem_append.mp hp with hp | hp
  · exact hq.remote p hp
  · rw [List.mem_singleton.mp hp]
    cases call <;> simp_all [Graceful, TcpConnection.remoteCall]

lemma Orderly.queueInLoop {c : TcpConnection} {promised : List (List UInt8)} {f : Functor}
    (h : c.Orderly promised) (hf : f.closes = false) : (c.queueInLoop f).Orderly promised := by
  obtain ⟨sent, hstream, hsub⟩ := h.sent
  refine ⟨h.state, h.matches_buffer, ?_, ⟨sent, hstream, subperm_grow hsub⟩, h.halfClose⟩
  intro f' hf'
  rcases List.mem_append.mp hf' with hf' | hf'
  · exact h.opened f' hf'
  · rw [List.mem_singleton.mp hf']
    exact hf

/-- A call of `send` returns in another thread: its functor is the last in the queue. -/
lemma GracefulInv.queueSend (h : GracefulInv s g) (data : List UInt8) :
    (s.conn.queueInLoop (.sendInLoop data)).Orderly (g.returned data).promised := by
  have ho : (s.conn.queueInLoop (.sendInLoop data)).Orderly g.promised :=
    Orderly.queueInLoop h.orderly rfl
  cases hcalled : g.shutdownCalled with
  | true =>
    simp only [SendHistory.returned, hcalled]
    exact ho
  | false =>
    obtain ⟨sent, hstream, hsub⟩ := h.orderly.sent
    refine ⟨ho.state, ho.matches_buffer, ho.opened, ⟨sent, hstream, ?_⟩, h.halfClose_returned data⟩
    simp only [TcpConnection.queueInLoop, sendsAhead_concat (h.quiet hcalled).queue,
      SendHistory.returned, hcalled, ← List.append_assoc]
    exact (List.subperm_append_right [data]).mpr hsub

lemma GracefulInv.remoteAction (h : GracefulInv s g) {i : ℕ} {a : RemoteAction}
    {rest : List RemoteAction} (hi : s.remote[i]? = some (a :: rest)) :
    GracefulInv ({ s with remote := s.remote.set i rest }.act a)
      (s.noteReturned (.remoteAction i) g) := by
  have hmem : a :: rest ∈ s.remote := List.mem_of_getElem? hi
  have hremote : ∀ p ∈ s.remote.set i rest, ∀ f, .queueInLoop f ∈ p → f.closes = false := by
    intro p hp f hf
    rcases List.mem_or_eq_of_mem_set hp with hp | rfl
    · exact h.remote p hp f hf
    · exact h.remote _ hmem f (List.mem_cons_of_mem a hf)
  have hquiet : g.shutdownCalled = false →
      ∀ p ∈ s.remote.set i rest, .setDisconnecting ∉ p ∧ .queueInLoop .shutdownInLoop ∉ p := by
    intro hcalled p hp
    have hq := (h.quiet hcalled).remote
    rcases List.mem_or_eq_of_mem_set hp with hp | rfl
    · exact hq p hp
    · have := hq _ hmem
      exact ⟨fun hin => this.1 (List.mem_cons_of_mem a hin),
        fun hin => this.2 (List.mem_cons_of_mem a hin)⟩
  cases a with
  | setDisconnecting =>
    simp only [noteReturned, hi]
    refine ⟨Orderly.setDisconnecting h.orderly, fun hcalled => ?_, hremote⟩
    simpa using ((h.quiet hcalled).remote _ hmem).1
  | queueInLoop f =>
    have hqueue : g.shutdownCalled = false →
        Quiet { s with conn := s.conn.queueInLoop f, remote := s.remote.set i rest } := by
      intro hcalled
      have hq := h.quiet hcalled
      refine ⟨hq.state, ?_, hq.socket, hquiet hcalled⟩
      intro hin
      rcases List.mem_append.mp hin with hin | hin
      · exact hq.queue hin
      · rw [← List.mem_singleton.mp hin] at hmem
        simpa using (hq.remote _ hmem).2
    have hf : f.closes = false := h.remote _ hmem f (by simp)
    simp only [noteReturned]
    split
    · rename_i data heq
      obtain ⟨rfl, rfl⟩ : f = .sendInLoop data ∧ rest = [] := by simpa [hi] using heq
      refine ⟨h.queueSend data, ?_, hremote⟩
      rwa [SendHistory.returned_shutdownCalled]
    · exact ⟨Orderly.queueInLoop h.orderly hf, hqueue, hremote⟩
  | runAfter =>
    simp only [noteReturned, hi]
    refine ⟨h.orderly, fun hcalled => ?_, hremote⟩
    have hq := h.quiet hcalled
    exact ⟨hq.state, hq.queue, hq.socket, hquiet hcalled⟩

lemma step_gracefulInv {e : Event} (h : GracefulInv s g) (hg : s.Graceful e) (hcut : s.NoCut e) :
    Safe (s.step e) fun s' => GracefulInv s' (s.noteReturned e g) := by
  simp only [step, safe_bind, safe_require]
  intro _
  cases e with
  | poll revt =>
    simp only [safe_bind, safe_require]
    rintro -
    have ho := h.orderly
    exact h.step_conn (c := s.conn.onChannel fun ch => ch.setRevents revt)
      ⟨ho.state, ho.matches_buffer, ho.opened, ho.sent, ho.halfClose⟩ rfl id (fun _ => id) _
      s.destroyed
  | handleEvent rd wr =>
    cases hh : s.handling with
    | nil => trivial
    | cons cb rest =>
      simp only [onConn, safe_bind]
      exact h.handleEvent hh hg hcut
  | doPendingFunctor wr =>
    simp only [safe_bind, safe_require]
    intro _
    cases hq : s.conn.pendingFunctors with
    | nil => trivial
    | cons f rest =>
      simp only [safe_bind]
      exact h.doPendingFunctor hq hg
  | user call wr => exact h.userCall hg hcut
  | delayElapsed => exact absurd hg id
  | remoteCall call => exact h.remoteCall hg
  | remoteAction i =>
    dsimp only
    rcases hi : s.remote[i]? with _ | _ | ⟨a, rest⟩
    · trivial
    · trivial
    · exact h.remoteAction hi
  | removeConnection => exact absurd hg id

end

/-- In every run of graceful steps, none of which cuts off a queued send, no assertion fails, and
before each execution of `shutdownWrite` the socket has accepted every byte of every `send` that
returned, from a connected connection, before `shutdown()` was first called. -/
theorem shutdown_loses_nothing {sockfd : ℕ} {wc hw : Bool} {mark : ℕ} {es : List Event}
    (h : Along (track step noteReturned) (fun p e => p.1.Graceful e ∧ p.1.NoCut e)
      (init sockfd wc hw mark, ⟨false, []⟩) es) :
    Safe (run (track step noteReturned) (init sockfd wc hw mark, ⟨false, []⟩) es) fun p =>
      ∀ pre post, p.1.conn.socket = pre ++ .shutdownWrite :: post →
        ∃ sent, p.2.promised.Subperm sent ∧ written pre = sent.flatten := by
  have hinv : Safe (run (track step noteReturned) (init sockfd wc hw mark, ⟨false, []⟩) es)
      fun p => GracefulInv p.1 p.2 := by
    refine run_safe ?_ (init_gracefulInv sockfd wc hw mark) h
    rintro ⟨s, g⟩ e hs ⟨hg, hcut⟩
    exact safe_track.mpr (step_gracefulInv hs hg hcut)
  exact hinv.mono fun p hp => hp.orderly.halfClose

/-- A short write in the loop thread, a send from another thread behind it, and a shutdown there. -/
@[irreducible] def sendsThenShutsDown : List Event :=
  [.user (.send [1, 2]) (.accepted 1), .remoteCall (.send [3]), .remoteAction 0,
    .remoteCall .shutdown, .doPendingFunctor (.accepted 0), .remoteAction 1, .remoteAction 1,
    .poll { pollout := true }, .handleEvent .eof (.accepted 2), .doPendingFunctor (.accepted 0)]

theorem shutdown_loses_nothing_sends :
    Yields (run (track step noteReturned) (init 3 false false 64, ⟨false, []⟩) sendsThenShutsDown)
      fun p => p.2.promised = [[1, 2], [3]] ∧ .shutdownWrite ∈ p.1.conn.socket ∧
        ∀ pre post, p.1.conn.socket = pre ++ .shutdownWrite :: post →
          ∃ sent, p.2.promised.Subperm sent ∧ written pre = sent.flatten := by
  have h : Along (track step noteReturned) (fun p e => p.1.Graceful e ∧ p.1.NoCut e)
      (init 3 false false 64, ⟨false, []⟩) sendsThenShutsDown := by decide +kernel
  have hrun : Yields (run (track step noteReturned) (init 3 false false 64, ⟨false, []⟩)
      sendsThenShutsDown) fun p =>
        p.2.promised = [[1, 2], [3]] ∧ .shutdownWrite ∈ p.1.conn.socket := by decide +kernel
  obtain ⟨p, hp, hpromised, hshut⟩ := hrun
  exact ⟨p, hp, hpromised, hshut, (shutdown_loses_nothing h).of_ok hp⟩

/-- Another thread's send is still queued when the loop thread shuts down. -/
def shutsDownInLoop : List Event :=
  [.remoteCall (.send [1]), .remoteAction 0, .user .shutdown (.accepted 0)]

/-- Another thread's send is still queued when the last buffered byte is written after a shutdown.
-/
def drainsAfterShutdown : List Event :=
  [.user (.send [1, 2]) (.accepted 1), .remoteCall (.send [3]), .remoteAction 0,
    .remoteCall .shutdown, .remoteAction 1, .poll { pollout := true },
    .handleEvent .eof (.accepted 1)]

/-- The run is graceful, and the socket is half-closed before a promised byte is written. -/
def CutsOff (es : List Event) : Prop :=
  Along (track step noteReturned) (fun p e => p.1.Graceful e)
    (init 3 false false 64, ⟨false, []⟩) es ∧
  Yields (run (track step noteReturned) (init 3 false false 64, ⟨false, []⟩) es) fun p =>
    ∃ pre post, p.1.conn.socket = pre ++ .shutdownWrite :: post ∧
      ¬∃ sent, p.2.promised.Subperm sent ∧ written pre = sent.flatten

theorem shutdown_cuts_off : CutsOff shutsDownInLoop ∧ CutsOff drainsAfterShutdown := by
  have hloop : Yields (run (track step noteReturned) (init 3 false false 64, ⟨false, []⟩)
      shutsDownInLoop) fun p => p.2.promised = [[1]] ∧ p.1.conn.socket = [.shutdownWrite] := by
    decide +kernel
  have hdrain : Yields (run (track step noteReturned) (init 3 false false 64, ⟨false, []⟩)
      drainsAfterShutdown) fun p => p.2.promised = [[1, 2], [3]] ∧
        p.1.conn.socket = [.write [1], .write [2], .shutdownWrite] := by
    decide +kernel
  refine ⟨⟨by decide +kernel, ?_⟩, ⟨by decide +kernel, ?_⟩⟩
  · obtain ⟨p, hp, hpromised, hsocket⟩ := hloop
    refine ⟨p, hp, [], [], hsocket, fun hf => ?_⟩
    rw [hpromised] at hf
    have hmem : ([1] : List UInt8) ∈ [[1]] := by simp
    simpa [written] using Flushes.mem hf hmem (List.mem_singleton_self 1)
  · obtain ⟨p, hp, hpromised, hsocket⟩ := hdrain
    refine ⟨p, hp, [.write [1], .write [2]], [], hsocket, fun hf => ?_⟩
    rw [hpromised] at hf
    have hmem : ([3] : List UInt8) ∈ [[1, 2], [3]] := by simp
    simpa [written] using Flushes.mem hf hmem (List.mem_singleton_self 3)

end System
end TcpConnection
end Muduo

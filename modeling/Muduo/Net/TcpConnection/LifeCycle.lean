import Muduo.Net.TcpConnection.System

/-!
# The life of a connection

A connection is up, then down, then destroyed. The user hears of it once through the connection
callback when it comes up and once when it goes down, and the owner hears of its close once.

Four things break this order. `startReadInLoop` does not look at the state and registers a closed
connection's channel again. A poll result with `POLLHUP` and `POLLPRI` but without `POLLIN` runs the
close callback and then the read callback, which closes again if it reads the end of the stream. A
closed channel may still be in the interest set of `epoll` with an empty mask, and a `POLLHUP`
reported for it closes again. And `shutdown` or `forceClose` in another thread may have read
`state_` before the close and store `kDisconnecting` after it. `Careful` excludes these four, and a
run without them keeps the order.
-/

namespace Muduo
namespace TcpConnection

open Machine

/-- What `connected()` returned in each invocation of the connection callback. -/
def connectionCalls (calls : List Callback) : List Bool :=
  calls.filterMap fun
    | .connection b => some b
    | _ => none

/-- How often the close callback was invoked. -/
def closeCalls (calls : List Callback) : ℕ := calls.count .close

structure IsUp (c : TcpConnection) : Prop where
  state : c.state = .kConnected ∨ c.state = .kDisconnecting
  connection : connectionCalls c.calls = [true]
  close : closeCalls c.calls = 0

structure IsDown (c : TcpConnection) : Prop where
  state : c.state = .kDisconnected
  connection : connectionCalls c.calls = [true, false]
  close : closeCalls c.calls = 1
  unregistered : c.channel.isNoneEvent = true

/-- A connection between `connectEstablished` and `connectDestroyed`. -/
structure Alive (c : TcpConnection) : Prop where
  phase : c.IsUp ∨ c.IsDown
  index : c.channel.index ≠ .kNew
  writing : c.WritingMatches

lemma Alive.isUp {c : TcpConnection} (h : c.Alive) (hst : c.state ≠ .kDisconnected) : c.IsUp :=
  h.phase.resolve_right fun hd => hst hd.state

lemma Alive.isDown {c : TcpConnection} (h : c.Alive) (hst : c.state = .kDisconnected) :
    c.IsDown := by
  apply h.phase.resolve_left
  intro hu
  rcases hu.state with hu | hu <;> simp [hst] at hu

lemma established_alive (sockfd : ℕ) (wc hw : Bool) (mark : ℕ) :
    (established sockfd wc hw mark).Alive := by
  refine ⟨Or.inl ⟨Or.inl rfl, rfl, rfl⟩, ?_, ?_⟩
  · exact Channel.update_index_ne_new _ _
  · intro _
    simp [established, new, onChannel]

/-! ### What each function keeps -/

/-- A function has taken the connection from `c` to `c'`. -/
structure Follows (c c' : TcpConnection) : Prop where
  alive : c'.Alive
  down : c.state = .kDisconnected → c'.state = .kDisconnected
  revents : c'.channel.revents = c.channel.revents
  destroy : .connectDestroyed ∈ c'.pendingFunctors → .connectDestroyed ∈ c.pendingFunctors

/-- A function that does not close the connection. -/
structure Keeps (c c' : TcpConnection) : Prop extends Follows c c' where
  up : c.state ≠ .kDisconnected → c'.state ≠ .kDisconnected

lemma Alive.keeps_refl {c : TcpConnection} (h : c.Alive) : Keeps c c := ⟨⟨h, id, rfl, id⟩, id⟩

/-- State and callbacks stay, and a closed connection's channel is left alone. -/
lemma Alive.keeps_of_eq {c c' : TcpConnection} (h : c.Alive) (hstate : c'.state = c.state)
    (hcalls : connectionCalls c'.calls = connectionCalls c.calls)
    (hclose : closeCalls c'.calls = closeCalls c.calls)
    (hnone : c.IsDown → c'.channel.isNoneEvent = true)
    (hindex : c.channel.index ≠ .kNew → c'.channel.index ≠ .kNew) (hm : c'.WritingMatches)
    (hrev : c'.channel.revents = c.channel.revents)
    (hdestroy : .connectDestroyed ∈ c'.pendingFunctors → .connectDestroyed ∈ c.pendingFunctors) :
    Keeps c c' := by
  refine ⟨⟨⟨?_, hindex h.index, hm⟩, ?_, hrev, hdestroy⟩, ?_⟩
  · rcases h.phase with hu | hd
    · exact Or.inl ⟨hstate ▸ hu.state, hcalls.trans hu.connection, hclose.trans hu.close⟩
    · exact Or.inr ⟨hstate.trans hd.state, hcalls.trans hd.connection, hclose.trans hd.close,
        hnone hd⟩
  · rw [hstate]; exact id
  · rw [hstate]; exact id

lemma WriteFrame.destroy {c c' : TcpConnection} (h : WriteFrame c c') :
    .connectDestroyed ∈ c'.pendingFunctors → .connectDestroyed ∈ c.pendingFunctors := by
  obtain ⟨q, hq, hcb⟩ := h.queue
  rw [hq, List.mem_append]
  rintro (hm | hm)
  · exact hm
  · simpa [Functor.isUserCallback] using hcb _ hm

lemma Alive.keeps_of_writeFrame {c c' : TcpConnection} (h : c.Alive) (hf : WriteFrame c c')
    (hm : c'.WritingMatches) (hch : c.IsDown → c'.channel = c.channel) : Keeps c c' := by
  refine h.keeps_of_eq hf.state (by rw [hf.calls]) (by rw [hf.calls]) (fun hd => ?_) hf.index hm
    hf.revents hf.destroy
  rw [hch hd]
  exact hd.unregistered

lemma Alive.sendInLoop {c : TcpConnection} (h : c.Alive) (data : List UInt8) (r : WriteResult) :
    Safe (c.sendInLoop data r) (Keeps c) := by
  by_cases hst : c.state = .kDisconnected
  · rw [sendInLoop_disconnected hst]
    exact h.keeps_refl
  · apply (sendInLoop_spec h.writing data r).mono
    intro c' hs
    exact h.keeps_of_writeFrame hs.toWriteFrame hs.matches_buffer fun hd => absurd hd.state hst

lemma Alive.handleWrite {c : TcpConnection} (h : c.Alive) (r : WriteResult) :
    Safe (c.handleWrite r) (Keeps c) := by
  by_cases hst : c.state = .kDisconnected
  · rw [handleWrite_not_writing (Channel.isWriting_of_isNoneEvent (h.isDown hst).unregistered)]
    exact h.keeps_refl
  · apply (handleWrite_spec h.writing r).mono
    intro c' hs
    exact h.keeps_of_writeFrame hs.toWriteFrame hs.matches_buffer fun hd => absurd hd.state hst

lemma Alive.shutdownInLoop {c : TcpConnection} (h : c.Alive) : Keeps c c.shutdownInLoop := by
  apply h.keeps_of_writeFrame (shutdownInLoop_frame c) (shutdownInLoop_matches h.writing)
  intro _
  unfold TcpConnection.shutdownInLoop
  split <;> rfl

lemma Alive.startReadInLoop {c : TcpConnection} (h : c.Alive) (hst : c.state ≠ .kDisconnected) :
    Keeps c c.startReadInLoop := by
  have hf := startReadInLoop_frame c
  refine h.keeps_of_eq hf.state (by rw [hf.calls]) (by rw [hf.calls]) ?_ hf.index
    (hf.matches_buffer h.writing) hf.revents (by rw [hf.pendingFunctors]; exact id)
  exact fun hd => absurd hd.state hst

lemma Alive.stopReadInLoop {c : TcpConnection} (h : c.Alive) : Keeps c c.stopReadInLoop := by
  have hf := stopReadInLoop_frame c
  refine h.keeps_of_eq hf.state (by rw [hf.calls]) (by rw [hf.calls]) ?_ hf.index
    (hf.matches_buffer h.writing) hf.revents (by rw [hf.pendingFunctors]; exact id)
  intro hd
  unfold TcpConnection.stopReadInLoop
  split
  · exact Channel.isNoneEvent_disableReading hd.unregistered
  · exact hd.unregistered

/-- A callback other than the connection and the close callback. -/
lemma Alive.call {c : TcpConnection} (h : c.Alive) {cb : Callback}
    (hconn : connectionCalls [cb] = []) (hclose : closeCalls [cb] = 0) : Keeps c (c.call cb) := by
  refine h.keeps_of_eq rfl ?_ ?_ (fun hd => hd.unregistered) id h.writing rfl id
  · simp [TcpConnection.call, connectionCalls, List.filterMap_append] at hconn ⊢
    exact hconn
  · simp [TcpConnection.call, closeCalls] at hclose ⊢
    exact hclose

lemma Alive.queueInLoop {c : TcpConnection} (h : c.Alive) {f : Functor}
    (hf : f ≠ .connectDestroyed) : Keeps c (c.queueInLoop f) := by
  refine h.keeps_of_eq rfl rfl rfl (fun hd => hd.unregistered) id h.writing rfl ?_
  simp [TcpConnection.queueInLoop, hf.symm]

lemma Alive.setDisconnecting {c : TcpConnection} (h : c.Alive) (hst : c.state ≠ .kDisconnected) :
    Keeps c (c.setState .kDisconnecting) := by
  have hu := h.isUp hst
  exact ⟨⟨⟨Or.inl ⟨Or.inr rfl, hu.connection, hu.close⟩, h.index, fun _ => h.writing hst⟩,
    fun hd => absurd hd hst, rfl, id⟩, by simp [setState]⟩

/-- Closing a connection that is up. -/
lemma Alive.handleClose {c : TcpConnection} (h : c.Alive) (hst : c.state ≠ .kDisconnected) :
    Yields c.handleClose fun c' => Follows c c' ∧ c'.state = .kDisconnected := by
  have hu := h.isUp hst
  refine ⟨c.closed, handleClose_eq hu.state, ⟨⟨Or.inr ⟨rfl, ?_, ?_, ?_⟩, ?_, closed_matches c⟩,
    fun _ => rfl, ?_, id⟩, rfl⟩
  · have := hu.connection
    simp only [connectionCalls] at this
    simp [closed, connectionCalls, List.filterMap_append, this]
  · have := hu.close
    simp only [closeCalls] at this
    simp [closed, closeCalls, this]
  · simp [closed, onChannel]
  · exact Channel.update_index_ne_new _ _
  · simp [closed, onChannel, Channel.disableAll]

lemma Follows.trans {c c' c'' : TcpConnection} (h : Follows c c') (h' : Follows c' c'') :
    Follows c c'' :=
  ⟨h'.alive, h'.down ∘ h.down, h'.revents.trans h.revents, h.destroy ∘ h'.destroy⟩

lemma Keeps.trans {c c' c'' : TcpConnection} (h : Keeps c c') (h' : Keeps c' c'') : Keeps c c'' :=
  ⟨h.toFollows.trans h'.toFollows, h'.up ∘ h.up⟩

lemma Alive.handleRead {c : TcpConnection} (h : c.Alive) {r : ReadResult}
    (heof : r = .eof → c.state ≠ .kDisconnected) :
    Safe (c.handleRead r) fun c' => Follows c c' ∧ (Keeps c c' ∨ r = .eof) := by
  cases r with
  | data bytes =>
    simp only [TcpConnection.handleRead, safe_bind, safe_require]
    intro _
    apply (Buffer.readFd_spec _ _).mono
    intro b _
    have hin : Keeps c { c with inputBuffer := b } :=
      h.keeps_of_eq rfl rfl rfl (fun hd => hd.unregistered) id h.writing rfl id
    have hk : Keeps c ({ c with inputBuffer := b }.call .message) :=
      hin.trans (hin.alive.call rfl rfl)
    exact ⟨hk.toFollows, Or.inl hk⟩
  | eof =>
    apply (h.handleClose (heof rfl)).safe.mono
    intro c' hc
    exact ⟨hc.1, Or.inr rfl⟩
  | error e => exact ⟨h.keeps_refl.toFollows, Or.inl h.keeps_refl⟩

lemma Alive.forceCloseInLoop {c : TcpConnection} (h : c.Alive) :
    Safe c.forceCloseInLoop (Follows c) := by
  unfold TcpConnection.forceCloseInLoop
  split
  · rename_i hst
    have hup : c.state ≠ .kDisconnected := by
      rcases hst with hst | hst <;> simp [hst]
    exact (h.handleClose hup).safe.mono fun c' hc => hc.1
  · exact h.keeps_refl.toFollows

lemma Alive.send {c : TcpConnection} (h : c.Alive) (data : List UInt8) (r : WriteResult) :
    Safe (c.send data r) (Keeps c) := by
  unfold TcpConnection.send
  split
  · exact h.sendInLoop data r
  · exact h.keeps_refl

lemma Alive.shutdown {c : TcpConnection} (h : c.Alive) : Keeps c c.shutdown := by
  unfold TcpConnection.shutdown
  split
  · rename_i hst
    have hd := h.setDisconnecting (by simp [hst])
    exact hd.trans hd.alive.shutdownInLoop
  · exact h.keeps_refl

lemma Alive.forceClose {c : TcpConnection} (h : c.Alive) : Keeps c c.forceClose := by
  unfold TcpConnection.forceClose
  split
  · rename_i hst
    have hd := h.setDisconnecting (by rcases hst with hst | hst <;> simp [hst])
    exact hd.trans (hd.alive.queueInLoop (by simp))
  · exact h.keeps_refl

lemma Alive.forceCloseWithDelay {c : TcpConnection} (h : c.Alive) :
    Keeps c c.forceCloseWithDelay.1 := by
  unfold TcpConnection.forceCloseWithDelay
  split
  · rename_i hst
    exact h.setDisconnecting (by rcases hst with hst | hst <;> simp [hst])
  · exact h.keeps_refl

/-- `connectDestroyed` after the close. -/
lemma Alive.connectDestroyed {c : TcpConnection} (h : c.Alive) (hst : c.state = .kDisconnected) :
    Yields (c.connectDestroyed .functors) IsDown := by
  have hd := h.isDown hst
  obtain ⟨ch, hch, hnone⟩ :
      ∃ ch, c.channel.remove .functors = .ok ch ∧ ch.isNoneEvent = true :=
    ⟨_, Channel.remove_eq_ok.mpr ⟨hd.unregistered, rfl, h.index, rfl⟩, hd.unregistered⟩
  refine ⟨{ c with channel := ch }, ?_, ⟨hst, hd.connection, hd.close, hnone⟩⟩
  simp [TcpConnection.connectDestroyed, hst, hch, bind, Except.bind, pure, Except.pure]

/-- The connection with its first functor taken off the queue. -/
lemma Alive.takeFunctor {c : TcpConnection} (h : c.Alive) {f : Functor} {rest : List Functor}
    (hq : c.pendingFunctors = f :: rest) : Keeps c { c with pendingFunctors := rest } := by
  refine h.keeps_of_eq rfl rfl rfl (fun hd => hd.unregistered) id h.writing rfl ?_
  intro hmem
  rw [hq]
  exact List.mem_cons_of_mem f hmem

lemma runFunctor_follows {c : TcpConnection} (h : c.Alive) {f : Functor}
    (hf : f ≠ .connectDestroyed) (hstart : f = .startReadInLoop → c.state ≠ .kDisconnected)
    (wr : WriteResult) : Safe (c.runFunctor wr f) (Follows c) := by
  cases f with
  | sendInLoop data => exact (h.sendInLoop data wr).mono fun _ hk => hk.toFollows
  | shutdownInLoop => exact h.shutdownInLoop.toFollows
  | forceCloseInLoop => exact h.forceCloseInLoop
  | startReadInLoop => exact (h.startReadInLoop (hstart rfl)).toFollows
  | stopReadInLoop => exact h.stopReadInLoop.toFollows
  | connectDestroyed => exact absurd rfl hf
  | writeCompleteCallback => exact (h.call rfl rfl).toFollows
  | highWaterMarkCallback len => exact (h.call rfl rfl).toFollows

/-! ### The system -/

namespace System

/-- The condition on a step that excludes the four ways to close a connection twice or to register a
closed one again. -/
def Careful (s : System) : Event → Prop
  | .poll revt => s.conn.state = .kDisconnected → revt.pollhup = false
  | .handleEvent rd _ =>
    s.handling.head? = some .read →
      s.conn.channel.revents.pollhup = true → s.conn.channel.revents.pollin = false → rd ≠ .eof
  | .doPendingFunctor _ =>
    s.conn.pendingFunctors.head? = some .startReadInLoop → s.conn.state ≠ .kDisconnected
  | .user call _ => call = .startRead → s.conn.state ≠ .kDisconnected
  | .remoteAction i =>
    (∃ p ∈ s.remote[i]?, p.head? = some .setDisconnecting) → s.conn.state ≠ .kDisconnected
  | _ => True

instance (s : System) : ∀ e, Decidable (s.Careful e)
  | .poll _ => inferInstanceAs (Decidable (_ → _))
  | .handleEvent _ _ => inferInstanceAs (Decidable (_ → _ → _ → _))
  | .doPendingFunctor _ => inferInstanceAs (Decidable (_ → _))
  | .user _ _ => inferInstanceAs (Decidable (_ → _))
  | .remoteAction i =>
    match h : s.remote[i]? with
    | none => isTrue (by simp [Careful, h])
    | some p =>
      decidable_of_iff (p.head? = some .setDisconnecting → s.conn.state ≠ .kDisconnected)
        (by simp [Careful, h])
  | .delayElapsed | .remoteCall _ | .removeConnection => inferInstanceAs (Decidable True)

/-- What holds between any two steps. -/
structure LifeInv (s : System) : Prop where
  phase : s.conn.IsUp ∨ s.conn.IsDown
  alive : s.destroyed = false → s.conn.Alive
  ordered : s.handling.Pairwise fun a b => Channel.callbackOrder a < Channel.callbackOrder b
  closing : .close ∈ s.handling →
    s.conn.channel.revents.pollhup = true ∧ s.conn.channel.revents.pollin = false
  down : s.conn.state = .kDisconnected →
    .close ∉ s.handling ∧ (.read ∈ s.handling →
      s.conn.channel.revents.pollhup = true ∧ s.conn.channel.revents.pollin = false)
  destroy : .connectDestroyed ∈ s.conn.pendingFunctors → s.conn.state = .kDisconnected
  remote : ∀ p ∈ s.remote, .queueInLoop .connectDestroyed ∉ p

/-- The state and the step after it: the invariant holds, and a closed connection stays closed. -/
def LifeInv.Step (s s' : System) : Prop :=
  LifeInv s' ∧ (s.conn.state = .kDisconnected → s'.conn.state = .kDisconnected)

lemma init_lifeInv (sockfd : ℕ) (wc hw : Bool) (mark : ℕ) : LifeInv (init sockfd wc hw mark) := by
  have halive := established_alive sockfd wc hw mark
  exact ⟨halive.phase, fun _ => halive, by simp [init], by simp [init], by simp [init],
    by simp [init, established, new, onChannel], by simp [init]⟩

/-- A step that runs a function which does not close the connection. -/
lemma LifeInv.keeps {s s' : System} (h : LifeInv s) (hk : Keeps s.conn s'.conn)
    (hhandling : s'.handling <:+ s.handling)
    (hremote : ∀ p ∈ s'.remote, .queueInLoop .connectDestroyed ∉ p) : LifeInv s' := by
  refine ⟨hk.alive.phase, fun _ => hk.alive, h.ordered.sublist hhandling.sublist, ?_, ?_, ?_,
    hremote⟩
  · intro hmem
    rw [hk.revents]
    exact h.closing (hhandling.subset hmem)
  · intro hst
    rw [hk.revents]
    obtain ⟨hclose, hread⟩ := h.down (by_contra fun hne => hk.up hne hst)
    exact ⟨fun hmem => hclose (hhandling.subset hmem), fun hmem => hread (hhandling.subset hmem)⟩
  · exact fun hmem => hk.down (h.destroy (hk.destroy hmem))

/-- A step that runs a function which may close the connection. -/
lemma LifeInv.follows {s s' : System} (h : LifeInv s) (hf : Follows s.conn s'.conn)
    (hhandling : s'.handling <:+ s.handling) (hclose : .close ∉ s'.handling)
    (hread : .read ∈ s'.handling →
      s.conn.channel.revents.pollhup = true ∧ s.conn.channel.revents.pollin = false)
    (hremote : s'.remote = s.remote) : LifeInv s' := by
  refine ⟨hf.alive.phase, fun _ => hf.alive, h.ordered.sublist hhandling.sublist,
    fun hmem => absurd hmem hclose, fun _ => ⟨hclose, ?_⟩, ?_, hremote ▸ h.remote⟩
  · rw [hf.revents]
    exact hread
  · exact fun hmem => hf.down (h.destroy (hf.destroy hmem))

lemma LifeInv.poll {s : System} (h : LifeInv s) (hal : s.conn.Alive) {revt : PollEvents}
    (hreport : s.conn.channel.mayReport revt = true)
    (hhup : s.conn.state = .kDisconnected → revt.pollhup = false) :
    LifeInv { s with
      conn := s.conn.onChannel fun ch => ch.setRevents revt
      handling := (s.conn.channel.setRevents revt).handleEventWithGuard } := by
  refine ⟨?_, fun _ => ⟨?_, hal.index, hal.writing⟩,
    Channel.handleEventWithGuard_pairwise _, Channel.close_mem_handleEventWithGuard.mp, ?_,
    h.destroy, h.remote⟩
  · rcases h.phase with hu | hd
    · exact Or.inl ⟨hu.state, hu.connection, hu.close⟩
    · exact Or.inr ⟨hd.state, hd.connection, hd.close, hd.unregistered⟩
  · rcases h.phase with hu | hd
    · exact Or.inl ⟨hu.state, hu.connection, hu.close⟩
    · exact Or.inr ⟨hd.state, hd.connection, hd.close, hd.unregistered⟩
  · intro hst
    have hnone := Channel.mayReport_of_isNoneEvent (hal.isDown hst).unregistered hreport
    have hhup' := hhup hst
    constructor
    · rw [Channel.close_mem_handleEventWithGuard]
      simp [Channel.setRevents, hhup']
    · rw [Channel.read_mem_handleEventWithGuard]
      simp [Channel.setRevents, hnone]

lemma LifeInv.handleEvent {s : System} (h : LifeInv s) (hal : s.conn.Alive) {rd : ReadResult}
    {wr : WriteResult} {cb : EventCallback} {rest : List EventCallback}
    (hhandling : s.handling = cb :: rest) (hc : s.Careful (.handleEvent rd wr)) :
    Safe (s.conn.runCallback rd wr cb) fun c =>
      LifeInv.Step s { s with handling := rest, conn := c } := by
  have hsuffix : rest <:+ s.handling := ⟨[cb], by simp [hhandling]⟩
  have hlater : ∀ cb' ∈ rest, Channel.callbackOrder cb < Channel.callbackOrder cb' := by
    have := h.ordered
    rw [hhandling, List.pairwise_cons] at this
    exact this.1
  have hnotClose : .close ∉ rest := by
    intro hmem
    simpa [Channel.callbackOrder] using hlater _ hmem
  cases cb with
  | close =>
    have hmem : .close ∈ s.handling := by simp [hhandling]
    have hup : s.conn.state ≠ .kDisconnected := fun hst => (h.down hst).1 hmem
    apply (hal.handleClose hup).safe.mono
    intro c hc
    exact ⟨h.follows hc.1 hsuffix hnotClose (fun _ => h.closing hmem) rfl, hc.1.down⟩
  | error => exact ⟨h.keeps hal.keeps_refl hsuffix h.remote, id⟩
  | read =>
    have hmem : .read ∈ s.handling := by simp [hhandling]
    have hup : rd = .eof → s.conn.state ≠ .kDisconnected := by
      intro heof hst
      obtain ⟨hhup, hin⟩ := (h.down hst).2 hmem
      exact hc (by simp [hhandling]) hhup hin heof
    apply (hal.handleRead hup).mono
    rintro c ⟨hf, hk | -⟩
    · exact ⟨h.keeps hk hsuffix h.remote, hk.down⟩
    · refine ⟨h.follows hf hsuffix hnotClose (fun hread => ?_) rfl, hf.down⟩
      exact absurd (hlater _ hread) (by simp)
  | write =>
    exact (hal.handleWrite wr).mono fun c hk => ⟨h.keeps hk hsuffix h.remote, hk.down⟩

lemma LifeInv.doPendingFunctor {s : System} (h : LifeInv s) (hal : s.conn.Alive) {f : Functor}
    {rest : List Functor} {wr : WriteResult} (hhandling : s.handling = [])
    (hq : s.conn.pendingFunctors = f :: rest) (hc : s.Careful (.doPendingFunctor wr)) :
    Safe (runFunctor { s.conn with pendingFunctors := rest } wr f) fun c =>
      LifeInv.Step s { s with conn := c, destroyed := f = .connectDestroyed } := by
  have htake := hal.takeFunctor hq
  by_cases hf : f = .connectDestroyed
  · subst hf
    have hst : s.conn.state = .kDisconnected := h.destroy (by simp [hq])
    apply (htake.alive.connectDestroyed hst).safe.mono
    intro c hd
    refine ⟨?_, fun _ => hd.state⟩
    refine ⟨Or.inr hd, by simp, h.ordered, by simp [hhandling], by simp [hhandling],
      fun _ => hd.state, h.remote⟩
  · have hstart : f = .startReadInLoop → s.conn.state ≠ .kDisconnected := by
      rintro rfl
      exact hc (by simp [hq])
    apply (runFunctor_follows htake.alive hf hstart wr).mono
    intro c hfol
    have hfol' := htake.toFollows.trans hfol
    refine ⟨h.follows hfol' List.suffix_rfl ?_ ?_ rfl, hfol'.down⟩
    · simp [hhandling]
    · simp [hhandling]

lemma LifeInv.userCall {s : System} (h : LifeInv s) (hal : s.conn.Alive) {call : UserCall}
    {wr : WriteResult} (hc : s.Careful (.user call wr)) :
    Safe (s.userCall wr call) (LifeInv.Step s) := by
  have hkeep {c : TcpConnection} (hk : Keeps s.conn c) (d : ℕ) :
      LifeInv.Step s { s with conn := c, delayed := d } :=
    ⟨h.keeps hk List.suffix_rfl h.remote, hk.down⟩
  cases call with
  | send data =>
    simp only [System.userCall, onConn, safe_bind]
    exact (hal.send data wr).mono fun c hk => hkeep hk _
  | shutdown => exact hkeep hal.shutdown _
  | forceClose => exact hkeep hal.forceClose _
  | forceCloseWithDelay => exact hkeep hal.forceCloseWithDelay _
  | startRead => exact hkeep (hal.startReadInLoop (hc rfl)) _
  | stopRead => exact hkeep hal.stopReadInLoop _

lemma remoteCall_destroy (c : TcpConnection) (call : UserCall) :
    .queueInLoop .connectDestroyed ∉ c.remoteCall call := by
  cases call <;> simp [TcpConnection.remoteCall]

lemma LifeInv.remoteAction {s : System} (h : LifeInv s) (hal : s.conn.Alive) {i : ℕ}
    {a : RemoteAction} {rest : List RemoteAction} (hi : s.remote[i]? = some (a :: rest))
    (hc : s.Careful (.remoteAction i)) :
    LifeInv.Step s ({ s with remote := s.remote.set i rest }.act a) := by
  have hmem : .queueInLoop .connectDestroyed ∉ a :: rest := h.remote _ (List.mem_of_getElem? hi)
  have hremote : ∀ p ∈ s.remote.set i rest, .queueInLoop .connectDestroyed ∉ p := by
    intro p hp
    rcases List.mem_or_eq_of_mem_set hp with hp | rfl
    · exact h.remote p hp
    · exact fun hin => hmem (List.mem_cons_of_mem a hin)
  cases a with
  | setDisconnecting =>
    have hk := hal.setDisconnecting (hc ⟨_, hi, rfl⟩)
    exact ⟨h.keeps hk List.suffix_rfl hremote, hk.down⟩
  | queueInLoop f =>
    have hk := hal.queueInLoop (f := f) (by rintro rfl; simp at hmem)
    exact ⟨h.keeps hk List.suffix_rfl hremote, hk.down⟩
  | runAfter => exact ⟨h.keeps hal.keeps_refl List.suffix_rfl hremote, id⟩

lemma LifeInv.removeConnection {s : System} (h : LifeInv s) (hal : s.conn.Alive)
    (hclose : .close ∈ s.conn.calls) :
    LifeInv { s with conn := s.conn.queueInLoop .connectDestroyed, removed := true } := by
  have hd : s.conn.IsDown := by
    apply hal.phase.resolve_left
    intro hu
    exact List.count_eq_zero.mp hu.close hclose
  have hd' : (s.conn.queueInLoop .connectDestroyed).IsDown :=
    ⟨hd.state, hd.connection, hd.close, hd.unregistered⟩
  exact ⟨Or.inr hd', fun _ => ⟨Or.inr hd', hal.index, hal.writing⟩, h.ordered, h.closing, h.down,
    fun _ => hd.state, h.remote⟩

lemma step_lifeInv {s : System} {e : Event} (h : LifeInv s) (hc : s.Careful e) :
    Safe (s.step e) (LifeInv.Step s) := by
  simp only [step, safe_bind, safe_require]
  intro hdestroyed
  have hal := h.alive hdestroyed
  cases e with
  | poll revt =>
    simp only [safe_bind, safe_require]
    rintro ⟨-, hreport⟩
    exact ⟨h.poll hal hreport hc, id⟩
  | handleEvent rd wr =>
    cases hh : s.handling with
    | nil => trivial
    | cons cb rest =>
      simp only [onConn, safe_bind]
      exact h.handleEvent hal hh hc
  | doPendingFunctor wr =>
    simp only [safe_bind, safe_require]
    intro hh
    cases hq : s.conn.pendingFunctors with
    | nil => trivial
    | cons f rest =>
      simp only [safe_bind]
      exact h.doPendingFunctor hal hh hq hc
  | user call wr => exact h.userCall hal hc
  | delayElapsed =>
    simp only [safe_bind, safe_require]
    intro _
    exact ⟨h.keeps hal.forceClose List.suffix_rfl h.remote, hal.forceClose.down⟩
  | remoteCall call =>
    refine ⟨h.keeps hal.keeps_refl List.suffix_rfl ?_, id⟩
    intro p hp
    rcases List.mem_append.mp hp with hp | hp
    · exact h.remote p hp
    · rw [List.mem_singleton.mp hp]
      exact remoteCall_destroy s.conn call
  | remoteAction i =>
    dsimp only
    rcases hi : s.remote[i]? with _ | _ | ⟨a, rest⟩
    · trivial
    · trivial
    · exact h.remoteAction hal hi hc
  | removeConnection =>
    simp only [safe_bind, safe_require]
    rintro ⟨hclose, -⟩
    exact ⟨h.removeConnection hal hclose, id⟩

lemma run_down {s : System} {es : List Event} (h : LifeInv s) (hst : s.conn.state = .kDisconnected)
    (hc : Along step Careful s es) :
    Safe (run step s es) fun s' => LifeInv s' ∧ s'.conn.state = .kDisconnected := by
  refine run_safe (P := Careful) ?_ (I := fun s => LifeInv s ∧ s.conn.state = .kDisconnected)
    ⟨h, hst⟩ hc
  rintro s e ⟨hs, hst⟩ hce
  exact (step_lifeInv hs hce).mono fun s' hs' => ⟨hs'.1, hs'.2 hst⟩

/-- In a careful run no assertion fails. The connection callback has been invoked once with
`connected()` true and the close callback not at all; or the connection is closed, the connection
callback has been invoked once more with `connected()` false, the close callback once, and the
channel is registered for no event. Once the connection is closed, both stay so. -/
theorem life_cycle {sockfd : ℕ} {wc hw : Bool} {mark : ℕ} {es : List Event}
    (h : Along step Careful (init sockfd wc hw mark) es) :
    Safe (run step (init sockfd wc hw mark) es) (fun s => s.conn.IsUp ∨ s.conn.IsDown) ∧
      ∀ es₁ es₂ s₁, es = es₁ ++ es₂ → run step (init sockfd wc hw mark) es₁ = .ok s₁ →
        s₁.conn.state = .kDisconnected →
        Safe (run step s₁ es₂) fun s₂ =>
          s₂.conn.state = .kDisconnected ∧ s₂.conn.channel.isNoneEvent = true := by
  have hstep : ∀ s e, LifeInv s → Careful s e → Safe (step s e) LifeInv :=
    fun s e hs hc => (step_lifeInv hs hc).mono fun s' hs' => hs'.1
  have hinit := init_lifeInv sockfd wc hw mark
  constructor
  · exact (run_safe hstep hinit h).mono fun s hs => hs.phase
  · rintro es₁ es₂ s₁ rfl hrun hst
    have hs₁ : LifeInv s₁ := (run_safe hstep hinit h.left).of_ok hrun
    apply (run_down hs₁ hst (h.of_append hrun)).mono
    intro s₂ hs₂
    refine ⟨hs₂.2, ?_⟩
    rcases hs₂.1.phase with hu | hd
    · rcases hu.state with hu | hu <;> simp [hs₂.2] at hu
    · exact hd.unregistered

/-- A peer's close, its notification and the removal. -/
def peerCloses : List Event :=
  [.poll { pollin := true }, .handleEvent .eof (.accepted 0), .removeConnection,
    .remoteCall .stopRead, .remoteAction 0, .doPendingFunctor (.accepted 0)]

theorem life_cycle_peer_closes :
    ∃ s, run step (init 3 false false 64) peerCloses = .ok s ∧ (s.conn.IsUp ∨ s.conn.IsDown) := by
  obtain ⟨s, hs⟩ := eq_ok_of_isOk (x := run step (init 3 false false 64) peerCloses)
    (by decide +kernel)
  have h : Along step Careful (init 3 false false 64) peerCloses := by decide +kernel
  exact ⟨s, hs, (life_cycle h).1.of_ok hs⟩

/-- Reading is started on a closed connection: the channel is registered again and the assertion of
`Channel::remove` fails in `connectDestroyed`. A poll result with `POLLHUP` and `POLLPRI` only, or a
`POLLHUP` for a closed connection that had stopped reading: the assertion of `handleClose` fails.
And a `forceClose` that another thread began before the peer's close: the close callback runs twice.
-/
theorem life_cycle_broken :
    run step (init 3 false false 64)
        [.poll { pollin := true }, .handleEvent .eof (.accepted 0), .user .startRead (.accepted 0),
          .removeConnection, .doPendingFunctor (.accepted 0)] = .error (.failed .channelRemove) ∧
      run step (init 3 false false 64)
        [.poll { pollhup := true, pollpri := true }, .handleEvent .eof (.accepted 0),
          .handleEvent .eof (.accepted 0)] = .error (.failed .handleClose) ∧
      run step (init 3 false false 64)
        [.user .stopRead (.accepted 0), .user .forceClose (.accepted 0),
          .doPendingFunctor (.accepted 0), .poll { pollhup := true },
          .handleEvent .eof (.accepted 0)] = .error (.failed .handleClose) ∧
      Yields (run step (init 3 false false 64)
          [.remoteCall .forceClose, .poll { pollin := true }, .handleEvent .eof (.accepted 0),
            .remoteAction 0, .remoteAction 0, .doPendingFunctor (.accepted 0)])
        fun s => closeCalls s.conn.calls = 2 := by
  refine ⟨?_, ?_, ?_, ?_⟩
  · exact failure_eq_some.mp (by decide +kernel)
  · exact failure_eq_some.mp (by decide +kernel)
  · exact failure_eq_some.mp (by decide +kernel)
  · decide +kernel

end System
end TcpConnection
end Muduo

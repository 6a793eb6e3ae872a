import Muduo.Net.TcpConnection.Basic

/-!
# What the connection's functions do

For each function that writes or buffers output: what it leaves alone (`WriteFrame`), and what it
does to the output stream. `stream` is what the socket has accepted followed by what the buffer
still holds; `sendInLoop` appends its argument to it, unless the direct write fails with `EPIPE` or
`ECONNRESET`, and `handleWrite` only moves bytes from the buffer to the socket.
-/

namespace Muduo

open Machine

/-- The bytes that `::write` has accepted. -/
def written (ops : List SocketOp) : List UInt8 :=
  ops.flatMap fun
    | .write bytes => bytes
    | .shutdownWrite => []

@[simp] lemma written_append (ops ops' : List SocketOp) :
    written (ops ++ ops') = written ops ++ written ops' := by
  simp [written]

@[simp] lemma written_write (bytes : List UInt8) : written [.write bytes] = bytes := by
  simp [written]

@[simp] lemma written_shutdownWrite : written [.shutdownWrite] = [] := by
  simp [written]

namespace TcpConnection

/-- Accepted bytes, then buffered bytes. -/
def stream (c : TcpConnection) : List UInt8 := written c.socket ++ c.outputBuffer.readable

/-- Write interest matches the output buffer, as long as the connection is not closed. -/
def WritingMatches (c : TcpConnection) : Prop :=
  c.state ≠ .kDisconnected → (c.channel.isWriting = true ↔ c.outputBuffer.readable ≠ [])

lemma WritingMatches.readable_eq_nil {c : TcpConnection} (h : c.WritingMatches)
    (hst : c.state ≠ .kDisconnected) (hw : c.channel.isWriting = false) :
    c.outputBuffer.readable = [] := by
  by_contra hne
  simp [(h hst).mpr hne] at hw

/-- `sendInLoop` writes directly and `::write` fails with `EPIPE` or `ECONNRESET`. -/
def directWriteFails (c : TcpConnection) (r : WriteResult) : Bool :=
  !c.channel.isWriting && c.outputBuffer.readableBytes = 0 &&
    (r = .error .EPIPE || r = .error .ECONNRESET)

/-- A functor that only calls back the user. -/
def Functor.isUserCallback : Functor → Bool
  | .writeCompleteCallback => true
  | .highWaterMarkCallback _ => true
  | _ => false

/-- From `c` to `c'` nothing changed but the output buffer, the write interest, the operations on
the socket and the user callbacks queued. -/
structure WriteFrame (c c' : TcpConnection) : Prop where
  state : c'.state = c.state
  reading : c'.reading = c.reading
  calls : c'.calls = c.calls
  revents : c'.channel.revents = c.channel.revents
  index : c.channel.index ≠ .kNew → c'.channel.index ≠ .kNew
  queue : ∃ q, c'.pendingFunctors = c.pendingFunctors ++ q ∧ ∀ f ∈ q, f.isUserCallback = true

lemma WriteFrame.refl (c : TcpConnection) : WriteFrame c c :=
  ⟨rfl, rfl, rfl, rfl, id, [], by simp, by simp⟩

lemma WriteFrame.trans {c c' c'' : TcpConnection} (h : WriteFrame c c') (h' : WriteFrame c' c'') :
    WriteFrame c c'' := by
  obtain ⟨q, hq, hcb⟩ := h.queue
  obtain ⟨q', hq', hcb'⟩ := h'.queue
  refine ⟨h'.state.trans h.state, h'.reading.trans h.reading, h'.calls.trans h.calls,
    h'.revents.trans h.revents, h'.index ∘ h.index, q ++ q', ?_, ?_⟩
  · rw [hq', hq, List.append_assoc]
  · intro f hf
    rcases List.mem_append.mp hf with hf | hf
    · exact hcb f hf
    · exact hcb' f hf

/-- Changing the channel's interest. -/
lemma onChannel_frame (c : TcpConnection) {f : Channel → Channel}
    (hrev : (f c.channel).revents = c.channel.revents) (hidx : (f c.channel).index ≠ .kNew) :
    WriteFrame c (c.onChannel f) :=
  ⟨rfl, rfl, rfl, hrev, fun _ => hidx, [], by simp [onChannel], by simp⟩

/-! ### Queueing a user callback -/

/-- `c'` differs from `c` only in that a user callback may have been queued. -/
structure QueueFrame (c c' : TcpConnection) : Prop extends WriteFrame c c' where
  channel : c'.channel = c.channel
  outputBuffer : c'.outputBuffer = c.outputBuffer
  socket : c'.socket = c.socket

lemma queueInLoop_frame (c : TcpConnection) {f : Functor} (hf : f.isUserCallback = true) :
    QueueFrame c (c.queueInLoop f) :=
  ⟨⟨rfl, rfl, rfl, rfl, id, [f], rfl, by simp [hf]⟩, rfl, rfl, rfl⟩

lemma QueueFrame.refl (c : TcpConnection) : QueueFrame c c := ⟨.refl c, rfl, rfl, rfl⟩

lemma queueWriteComplete_frame (c : TcpConnection) : QueueFrame c c.queueWriteComplete := by
  unfold queueWriteComplete
  split
  · exact queueInLoop_frame c rfl
  · exact .refl c

lemma queueHighWaterMark_frame (c : TcpConnection) (remaining : ℕ) :
    QueueFrame c (c.queueHighWaterMark remaining) := by
  simp only [queueHighWaterMark]
  split
  · exact queueInLoop_frame c rfl
  · exact .refl c

/-! ### sendInLoop -/

/-- What the direct write did: it moved the first `nwrote` bytes of `data` to the socket, and only
if nothing was buffered. -/
structure WroteDirectly (c : TcpConnection) (data : List UInt8) (r : WriteResult)
    (c' : TcpConnection) (nwrote : ℕ) (faultError : Bool) : Prop extends WriteFrame c c' where
  channel : c'.channel = c.channel
  outputBuffer : c'.outputBuffer = c.outputBuffer
  le : nwrote ≤ data.length
  socket : c'.socket = c.socket ∧ nwrote = 0 ∨
    c'.socket = c.socket ++ [.write (data.take nwrote)] ∧ c.outputBuffer.readable = []
  fault : faultError = c.directWriteFails r
  none_on_fault : faultError = true → nwrote = 0

lemma writeDirectly_spec (c : TcpConnection) (data : List UInt8) (r : WriteResult) :
    Safe (c.writeDirectly data r) fun p => WroteDirectly c data r p.1 p.2.1 p.2.2 := by
  unfold writeDirectly
  by_cases hdirect : (!c.channel.isWriting && c.outputBuffer.readableBytes = 0) = true
  · rw [if_pos hdirect]
    have hnil : c.outputBuffer.readable = [] := by
      simp only [Bool.and_eq_true, decide_eq_true_eq] at hdirect
      exact Buffer.readable_eq_nil.mpr hdirect.2
    cases r with
    | accepted n =>
      simp only [safe_bind, safe_require, safe_pure]
      intro hn
      have hq : QueueFrame (c.onSocket (.write (data.take n)))
          (if data.length - n = 0 then (c.onSocket (.write (data.take n))).queueWriteComplete
            else c.onSocket (.write (data.take n))) := by
        split
        · exact queueWriteComplete_frame _
        · exact .refl _
      exact ⟨⟨hq.state, hq.reading, hq.calls, hq.revents, hq.index, hq.queue⟩, hq.channel,
        hq.outputBuffer, hn, Or.inr ⟨hq.socket, hnil⟩, by simp [directWriteFails], by simp⟩
    | error e =>
      exact ⟨.refl c, rfl, rfl, Nat.zero_le _, Or.inl ⟨rfl, rfl⟩,
        by simp [directWriteFails, hdirect], fun _ => rfl⟩
  · rw [if_neg hdirect]
    simp only [Bool.not_eq_true] at hdirect
    exact ⟨.refl c, rfl, rfl, Nat.zero_le _, Or.inl ⟨rfl, rfl⟩,
      by simp [directWriteFails, hdirect], fun _ => rfl⟩

lemma WroteDirectly.written {c c' : TcpConnection} {data : List UInt8} {r : WriteResult}
    {nwrote : ℕ} {faultError : Bool} (h : WroteDirectly c data r c' nwrote faultError) :
    written c'.socket = written c.socket ++ data.take nwrote := by
  rcases h.socket with ⟨hs, h0⟩ | ⟨hs, -⟩
  · simp [hs, h0]
  · simp [hs]

/-- Buffering appends to the stream and leaves the channel writing. -/
lemma bufferRest_spec (c : TcpConnection) (rest : List UInt8) :
    Safe (c.bufferRest rest) fun c' =>
      WriteFrame c c' ∧ c'.socket = c.socket ∧
      c'.outputBuffer.readable = c.outputBuffer.readable ++ rest ∧ c'.channel.isWriting = true := by
  have hq := queueHighWaterMark_frame c rest.length
  simp only [bufferRest, safe_bind]
  apply (Buffer.append_spec _ rest).safe.mono
  intro out hread
  rw [hq.outputBuffer] at hread
  have hframe : WriteFrame c { c.queueHighWaterMark rest.length with outputBuffer := out } :=
    hq.toWriteFrame.trans ⟨rfl, rfl, rfl, rfl, id, [], by simp, by simp⟩
  split
  · refine ⟨hframe.trans (onChannel_frame _ ?_ ?_), hq.socket, hread, by simp [onChannel]⟩
    · simp [Channel.enableWriting]
    · exact Channel.update_index_ne_new _ _
  · rename_i hw
    exact ⟨hframe, hq.socket, hread, by simpa using hw⟩

/-- `sendInLoop` keeps the frame, performs at most one write on the socket, and appends `data` to
the stream unless the connection is closed or the direct write fails. -/
structure Sent (c : TcpConnection) (data : List UInt8) (r : WriteResult) (c' : TcpConnection) :
    Prop extends WriteFrame c c' where
  socket : c'.socket = c.socket ∨ ∃ bytes, c'.socket = c.socket ++ [.write bytes]
  matches_buffer : c'.WritingMatches
  stream : c'.stream = c.stream ++
    if c.state = .kDisconnected ∨ c.directWriteFails r = true then [] else data

lemma sendInLoop_disconnected {c : TcpConnection} (h : c.state = .kDisconnected) (data : List UInt8)
    (r : WriteResult) : c.sendInLoop data r = .ok c := by
  simp [sendInLoop, h, pure, Except.pure]

theorem sendInLoop_spec {c : TcpConnection} (h : c.WritingMatches) (data : List UInt8)
    (r : WriteResult) : Safe (c.sendInLoop data r) (Sent c data r) := by
  by_cases hstate : c.state = .kDisconnected
  · rw [sendInLoop_disconnected hstate]
    exact ⟨.refl c, Or.inl rfl, h, by simp [hstate]⟩
  simp only [sendInLoop, hstate, if_false, safe_bind]
  apply (writeDirectly_spec c data r).mono
  rintro ⟨d, nwrote, fault⟩ hd
  replace hd : WroteDirectly c data r d nwrote fault := hd
  have hwrote := hd.written
  have hsock : d.socket = c.socket ∨ ∃ bytes, d.socket = c.socket ++ [.write bytes] := by
    rcases hd.socket with ⟨hs, -⟩ | ⟨hs, -⟩
    · exact Or.inl hs
    · exact Or.inr ⟨_, hs⟩
  have hmatch : d.WritingMatches := by
    intro hst
    rw [hd.channel, hd.outputBuffer]
    exact h (hd.state ▸ hst)
  -- the direct write found the buffer empty or wrote nothing
  have hempty : c.outputBuffer.readable = [] ∨ nwrote = 0 := by
    rcases hd.socket with ⟨-, h0⟩ | ⟨-, hnil⟩
    · exact Or.inr h0
    · exact Or.inl hnil
  simp only [safe_check]
  refine ⟨Nat.sub_le _ _, ?_⟩
  by_cases hfault : c.directWriteFails r = true
  · have h0 : nwrote = 0 := hd.none_on_fault (hd.fault.trans hfault)
    have hf : fault = true := hd.fault.trans hfault
    simp only [hf, Bool.not_true, Bool.false_and, Bool.false_eq_true, if_false, safe_pure]
    refine ⟨hd.toWriteFrame, hsock, hmatch, ?_⟩
    simp [TcpConnection.stream, hwrote, hd.outputBuffer, h0, hfault]
  have hf : fault = false := by rw [hd.fault]; simpa using hfault
  by_cases hrest : 0 < data.length - nwrote
  · simp only [hf, hrest, Bool.not_false, decide_true, Bool.and_self, if_true]
    apply (bufferRest_spec d _).mono
    rintro c' ⟨hframe, hs', hread, hwriting⟩
    refine ⟨hd.toWriteFrame.trans hframe, by rwa [hs'], ?_, ?_⟩
    · intro _
      have hne : c'.outputBuffer.readable ≠ [] := by
        rw [hread]
        simp only [ne_eq, List.append_eq_nil_iff, List.drop_eq_nil_iff, not_and]
        omega
      simp [hwriting, hne]
    · rw [TcpConnection.stream, TcpConnection.stream, hs', hwrote, hread, hd.outputBuffer]
      rcases hempty with hnil | h0
      · simp [hnil, hstate, hfault]
      · simp [h0, hstate, hfault]
  · have hall : nwrote = data.length := by have := hd.le; omega
    simp only [hf, hrest, Bool.not_false, decide_false, Bool.and_false, Bool.false_eq_true,
      if_false, safe_pure]
    refine ⟨hd.toWriteFrame, hsock, hmatch, ?_⟩
    rw [TcpConnection.stream, TcpConnection.stream, hwrote, hd.outputBuffer, hall]
    rcases hempty with hnil | h0
    · simp [hnil, hstate, hfault]
    · have hdata : data = [] := List.length_eq_zero_iff.mp (by omega)
      simp [hdata]

/-- Whatever the buffer holds, `sendInLoop` keeps the frame. -/
lemma sendInLoop_frame (c : TcpConnection) (data : List UInt8) (r : WriteResult) :
    Safe (c.sendInLoop data r) (WriteFrame c) := by
  by_cases hstate : c.state = .kDisconnected
  · rw [sendInLoop_disconnected hstate]
    exact .refl c
  simp only [sendInLoop, hstate, if_false, safe_bind]
  apply (writeDirectly_spec c data r).mono
  rintro ⟨d, nwrote, fault⟩ hd
  replace hd : WroteDirectly c data r d nwrote fault := hd
  simp only [safe_check]
  refine ⟨Nat.sub_le _ _, ?_⟩
  split
  · apply (bufferRest_spec d _).mono
    intro c' hc'
    exact hd.toWriteFrame.trans hc'.1
  · exact hd.toWriteFrame

/-! ### handleWrite and shutdownInLoop -/

lemma shutdownInLoop_frame (c : TcpConnection) : WriteFrame c c.shutdownInLoop := by
  unfold shutdownInLoop
  split
  · exact ⟨rfl, rfl, rfl, rfl, id, [], by simp [onSocket], by simp⟩
  · exact .refl c

@[simp] lemma shutdownInLoop_stream (c : TcpConnection) : c.shutdownInLoop.stream = c.stream := by
  unfold shutdownInLoop
  split <;> simp [stream, onSocket]

lemma shutdownInLoop_matches {c : TcpConnection} (h : c.WritingMatches) :
    c.shutdownInLoop.WritingMatches := by
  unfold shutdownInLoop
  split <;> exact h

/-- The output buffer has just been emptied: write interest goes, and a connection that is
disconnecting half-closes its socket. -/
structure Finished (c c' : TcpConnection) : Prop extends WriteFrame c c' where
  socket : c'.socket = c.socket ∨
    c.state = .kDisconnecting ∧ c'.socket = c.socket ++ [.shutdownWrite]
  outputBuffer : c'.outputBuffer = c.outputBuffer
  matches_buffer : c'.WritingMatches
  stream : c'.stream = c.stream

lemma writeFinished_spec {c : TcpConnection} (h : c.outputBuffer.readable = []) :
    Finished c c.writeFinished := by
  have hdisable : WriteFrame c (c.onChannel Channel.disableWriting) := by
    apply onChannel_frame
    · simp [Channel.disableWriting]
    · exact Channel.update_index_ne_new _ _
  have hq := queueWriteComplete_frame (c.onChannel Channel.disableWriting)
  simp only [writeFinished]
  generalize (c.onChannel Channel.disableWriting).queueWriteComplete = d at hq ⊢
  have hframe : WriteFrame c d := hdisable.trans hq.toWriteFrame
  have hnot : d.channel.isWriting = false := by
    rw [hq.channel]
    simp [onChannel]
  have hmatch : d.WritingMatches := by
    intro _
    rw [hnot, hq.outputBuffer]
    simp [onChannel, h]
  have hstream : d.stream = c.stream := by
    rw [TcpConnection.stream, hq.socket, hq.outputBuffer]
    rfl
  split
  · rename_i hst
    refine ⟨hframe.trans (shutdownInLoop_frame d), Or.inr ⟨hframe.state ▸ hst, ?_⟩, ?_,
      shutdownInLoop_matches hmatch, (shutdownInLoop_stream d).trans hstream⟩
    · simp [shutdownInLoop, hnot, onSocket, hq.socket, onChannel]
    · simp [shutdownInLoop, hnot, onSocket, hq.outputBuffer, onChannel]
  · exact ⟨hframe, Or.inl hq.socket, hq.outputBuffer, hmatch, hstream⟩

/-- `handleWrite` moves a prefix of the buffer to the socket. If that empties the buffer of a
connection that is disconnecting, the socket is half-closed next. -/
structure Flushed (c : TcpConnection) (r : WriteResult) (c' : TcpConnection) : Prop
    extends WriteFrame c c' where
  socket : c'.socket = c.socket ∨ ∃ bytes, c'.socket = c.socket ++ [.write bytes] ∨
    c.state = .kDisconnecting ∧ r = .accepted c.outputBuffer.readableBytes ∧
      c'.outputBuffer.readable = [] ∧ c'.socket = c.socket ++ [.write bytes] ++ [.shutdownWrite]
  matches_buffer : c'.WritingMatches
  stream : c'.stream = c.stream

lemma Flushed.refl {c : TcpConnection} (h : c.WritingMatches) (r : WriteResult) : Flushed c r c :=
  ⟨.refl c, Or.inl rfl, h, rfl⟩

lemma handleWrite_not_writing {c : TcpConnection} (h : c.channel.isWriting = false)
    (r : WriteResult) : c.handleWrite r = .ok c := by
  simp [handleWrite, h, pure, Except.pure]

theorem handleWrite_spec {c : TcpConnection} (h : c.WritingMatches) (r : WriteResult) :
    Safe (c.handleWrite r) (Flushed c r) := by
  by_cases hwriting : c.channel.isWriting = true
  swap
  · rw [handleWrite_not_writing (by simpa using hwriting)]
    exact .refl h _
  unfold handleWrite
  rw [if_pos hwriting]
  cases r with
  | error e => exact .refl h _
  | accepted n =>
    simp only [safe_bind, safe_require]
    intro hn
    by_cases hpos : 0 < n
    swap
    · rw [if_neg hpos]
      exact .refl h _
    have hlen : n ≤ c.outputBuffer.readable.length := by rwa [Buffer.length_readable]
    simp only [if_pos hpos, safe_bind, onSocket]
    apply (Buffer.retrieve_spec hlen).safe.mono
    intro out hread
    -- `c₁` is the connection after `retrieve`
    set c₁ : TcpConnection :=
      { c with
        outputBuffer := out
        socket := c.socket ++ [.write (c.outputBuffer.readable.take n)] } with hc₁
    have hframe : WriteFrame c c₁ := ⟨rfl, rfl, rfl, rfl, id, [], by simp [hc₁], by simp⟩
    have hstream : c₁.stream = c.stream := by
      simp [hc₁, TcpConnection.stream, hread, List.take_append_drop]
    rw [safe_pure]
    split
    · rename_i hzero
      have hfin := writeFinished_spec (c := c₁) (Buffer.readable_eq_nil.mpr hzero)
      have hempty : out.readable = [] := Buffer.readable_eq_nil.mpr hzero
      refine ⟨hframe.trans hfin.toWriteFrame, Or.inr ⟨c.outputBuffer.readable.take n, ?_⟩,
        hfin.matches_buffer, hfin.stream.trans hstream⟩
      rcases hfin.socket with hs | ⟨hst, hs⟩
      · exact Or.inl hs
      · refine Or.inr ⟨hst, ?_, by rw [hfin.outputBuffer]; exact hempty, hs⟩
        rw [hempty, eq_comm, List.drop_eq_nil_iff, Buffer.length_readable] at hread
        rw [le_antisymm hn hread]
    · rename_i hne
      refine ⟨hframe, Or.inr ⟨_, Or.inl rfl⟩, ?_, hstream⟩
      intro _
      have : out.readable ≠ [] := fun hnil => hne (Buffer.readable_eq_nil.mp hnil)
      simp [hc₁, hwriting, this]

lemma writeFinished_frame (c : TcpConnection) : WriteFrame c c.writeFinished := by
  have hdisable : WriteFrame c (c.onChannel Channel.disableWriting) := by
    apply onChannel_frame
    · simp [Channel.disableWriting]
    · exact Channel.update_index_ne_new _ _
  have hq := hdisable.trans (queueWriteComplete_frame _).toWriteFrame
  simp only [writeFinished]
  split
  · exact hq.trans (shutdownInLoop_frame _)
  · exact hq

/-- Whatever the buffer holds, `handleWrite` keeps the frame. -/
lemma handleWrite_frame (c : TcpConnection) (r : WriteResult) :
    Safe (c.handleWrite r) (WriteFrame c) := by
  unfold handleWrite
  split
  swap
  · exact .refl c
  cases r with
  | error e => exact .refl c
  | accepted n =>
    simp only [safe_bind, safe_require]
    intro hn
    split
    swap
    · exact .refl c
    have hlen : n ≤ c.outputBuffer.readable.length := by rwa [Buffer.length_readable]
    simp only [safe_bind, onSocket]
    apply (Buffer.retrieve_spec hlen).safe.mono
    intro out _
    have hframe : WriteFrame c
        { c with
          outputBuffer := out
          socket := c.socket ++ [.write (c.outputBuffer.readable.take n)] } :=
      ⟨rfl, rfl, rfl, rfl, id, [], by simp, by simp⟩
    rw [safe_pure]
    split
    · exact hframe.trans (writeFinished_frame _)
    · exact hframe

/-! ### Opening and closing -/

/-- The connection as `connectEstablished` leaves it. -/
def established (sockfd : ℕ) (hasWriteComplete hasHighWaterMark : Bool) (highWaterMark : ℕ) :
    TcpConnection :=
  { (new sockfd hasWriteComplete hasHighWaterMark highWaterMark).onChannel
      Channel.enableReading with
    state := .kConnected
    calls := [.connection true] }

/-- The connection as `handleClose` leaves it. -/
def closed (c : TcpConnection) : TcpConnection :=
  { c.onChannel Channel.disableAll with
    state := .kDisconnected
    calls := c.calls ++ [.connection false] ++ [.close] }

lemma handleClose_eq {c : TcpConnection} (h : c.state = .kConnected ∨ c.state = .kDisconnecting) :
    c.handleClose = .ok c.closed := by
  simp only [handleClose, check, h, if_true]
  rfl

lemma handleClose_eq_ok {c c' : TcpConnection} (h : c.handleClose = .ok c') :
    (c.state = .kConnected ∨ c.state = .kDisconnecting) ∧ c' = c.closed := by
  by_cases hst : c.state = .kConnected ∨ c.state = .kDisconnecting
  · rw [handleClose_eq hst] at h
    exact ⟨hst, (Except.ok.inj h).symm⟩
  · simp [handleClose, check, hst, bind, Except.bind] at h

lemma closed_matches (c : TcpConnection) : c.closed.WritingMatches :=
  fun h => absurd rfl h

/-! ### Starting and stopping to read -/

/-- From `c` to `c'` only `reading_` and the read interest changed. -/
structure ReadFrame (c c' : TcpConnection) : Prop where
  state : c'.state = c.state
  calls : c'.calls = c.calls
  socket : c'.socket = c.socket
  outputBuffer : c'.outputBuffer = c.outputBuffer
  pendingFunctors : c'.pendingFunctors = c.pendingFunctors
  isWriting : c'.channel.isWriting = c.channel.isWriting
  revents : c'.channel.revents = c.channel.revents
  index : c.channel.index ≠ .kNew → c'.channel.index ≠ .kNew

lemma ReadFrame.stream {c c' : TcpConnection} (h : ReadFrame c c') : c'.stream = c.stream := by
  rw [TcpConnection.stream, h.socket, h.outputBuffer, TcpConnection.stream]

lemma ReadFrame.matches_buffer {c c' : TcpConnection} (h : ReadFrame c c') (hm : c.WritingMatches) :
    c'.WritingMatches := by
  intro hst
  rw [h.isWriting, h.outputBuffer]
  exact hm (h.state ▸ hst)

lemma startReadInLoop_frame (c : TcpConnection) : ReadFrame c c.startReadInLoop := by
  unfold startReadInLoop
  split
  · refine ⟨rfl, rfl, rfl, rfl, rfl, ?_, ?_, fun _ => Channel.update_index_ne_new _ _⟩
    · simp [onChannel]
    · simp [onChannel, Channel.enableReading]
  · exact ⟨rfl, rfl, rfl, rfl, rfl, rfl, rfl, id⟩

lemma stopReadInLoop_frame (c : TcpConnection) : ReadFrame c c.stopReadInLoop := by
  unfold stopReadInLoop
  split
  · refine ⟨rfl, rfl, rfl, rfl, rfl, ?_, ?_, fun _ => Channel.update_index_ne_new _ _⟩
    · simp [onChannel]
    · simp [onChannel, Channel.disableReading]
  · exact ⟨rfl, rfl, rfl, rfl, rfl, rfl, rfl, id⟩

end TcpConnection
end Muduo

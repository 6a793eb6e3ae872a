import Muduo.Net.TcpConnection.Properties

/-!
# Integrity of the output byte stream

Two functions write to the socket of a connection: `sendInLoop`, directly, and `handleWrite`, from
the output buffer. A run here is any sequence of calls of the functions that touch the output side,
with any answers of `::write`. Whatever the sequence, no byte is lost, repeated or reordered: a
direct write cannot overtake buffered bytes, because the channel is writing exactly when the output
buffer is not empty.
-/

namespace Muduo
namespace TcpConnection

open Machine

/-- The calls that a run of the output side is made of. -/
inductive OutputEvent where
  | sendInLoop (data : List UInt8) (r : WriteResult)
  | handleWrite (r : WriteResult)
  /-- The state change that `shutdown()` and `forceClose()` make before anything is queued. -/
  | disconnecting
  | shutdownInLoop
  | startReadInLoop
  | stopReadInLoop
  | handleClose
  deriving DecidableEq, Repr

def outputStep (c : TcpConnection) : OutputEvent → Code TcpConnection
  | .sendInLoop data r => c.sendInLoop data r
  | .handleWrite r => c.handleWrite r
  | .disconnecting => return if c.state = .kConnected then c.setState .kDisconnecting else c
  | .shutdownInLoop => return c.shutdownInLoop
  | .startReadInLoop => return c.startReadInLoop
  | .stopReadInLoop => return c.stopReadInLoop
  | .handleClose => c.handleClose

/-- A call of `sendInLoop` on a connection that is not closed. -/
structure SendCall where
  data : List UInt8
  /-- Its direct write failed with `EPIPE` or `ECONNRESET`. -/
  failed : Bool
  deriving DecidableEq, Repr

/-- History: the calls of `sendInLoop` executed while the state was not `kDisconnected`. -/
def noteSend (c : TcpConnection) (e : OutputEvent) (sent : List SendCall) : List SendCall :=
  match e with
  | .sendInLoop data r =>
    if c.state = .kDisconnected then sent else sent ++ [⟨data, c.directWriteFails r⟩]
  | _ => sent

/-- The bytes of the calls whose direct write did not fail. -/
def accountedFor (sent : List SendCall) : List UInt8 :=
  (sent.filter fun s => !s.failed).flatMap (·.data)

/-- The stream holds the data of the calls, and write interest matches the buffer. -/
def StreamInv (p : TcpConnection × List SendCall) : Prop :=
  p.1.stream = accountedFor p.2 ∧ p.1.WritingMatches

lemma outputStep_streamInv {c c' : TcpConnection} {sent : List SendCall} {e : OutputEvent}
    (h : StreamInv (c, sent)) (hstep : outputStep c e = .ok c') :
    StreamInv (c', noteSend c e sent) := by
  obtain ⟨hstream, hmatch⟩ := h
  cases e with
  | sendInLoop data r =>
    have hs := (sendInLoop_spec hmatch data r).of_ok hstep
    refine ⟨?_, hs.matches_buffer⟩
    simp only [noteSend, hs.stream, hstream]
    by_cases hst : c.state = .kDisconnected
    · simp [hst]
    · cases hf : c.directWriteFails r <;> simp [hst, accountedFor]
  | handleWrite r =>
    have hs := (handleWrite_spec hmatch r).of_ok hstep
    exact ⟨hs.stream.trans hstream, hs.matches_buffer⟩
  | disconnecting =>
    cases hstep
    split
    · rename_i hst
      exact ⟨hstream, fun _ => hmatch (by simp [hst])⟩
    · exact ⟨hstream, hmatch⟩
  | shutdownInLoop =>
    cases hstep
    exact ⟨(shutdownInLoop_stream c).trans hstream, shutdownInLoop_matches hmatch⟩
  | startReadInLoop =>
    cases hstep
    have hf := startReadInLoop_frame c
    exact ⟨hf.stream.trans hstream, hf.matches_buffer hmatch⟩
  | stopReadInLoop =>
    cases hstep
    have hf := stopReadInLoop_frame c
    exact ⟨hf.stream.trans hstream, hf.matches_buffer hmatch⟩
  | handleClose =>
    obtain ⟨-, rfl⟩ := handleClose_eq_ok hstep
    exact ⟨hstream, closed_matches c⟩

lemma established_streamInv (sockfd : ℕ) (wc hw : Bool) (mark : ℕ) :
    StreamInv (established sockfd wc hw mark, []) := by
  refine ⟨by simp [stream, established, new, onChannel, accountedFor, written], fun _ => ?_⟩
  simp [established, new, onChannel]

/-- In every state that a run of the output side reaches, the bytes that `::write` has accepted,
followed by the readable bytes of the output buffer, are the data of the executed `sendInLoop` calls
in order, without those whose direct write failed with `EPIPE` or `ECONNRESET`; up to the first such
failure nothing is left out. As long as the connection is not closed, the channel is writing exactly
when the output buffer is not empty. -/
theorem output_stream_integrity {sockfd : ℕ} {wc hw : Bool} {mark : ℕ} {es : List OutputEvent}
    {c : TcpConnection} {sent : List SendCall}
    (h : run (track outputStep noteSend) (established sockfd wc hw mark, []) es = .ok (c, sent)) :
    written c.socket ++ c.outputBuffer.readable =
        (sent.filter fun s => !s.failed).flatMap (·.data) ∧
      (∀ upTo rest, sent = upTo ++ rest → (∀ s ∈ upTo, s.failed = false) →
        (∀ s ∈ rest, s.failed = true) →
        written c.socket ++ c.outputBuffer.readable = upTo.flatMap (·.data)) ∧
      (c.state = .kConnected ∨ c.state = .kDisconnecting →
        (c.channel.isWriting = true ↔ c.outputBuffer.readable ≠ [])) := by
  have hinv : StreamInv (c, sent) := by
    refine run_reaches (I := StreamInv) ?_ (established_streamInv sockfd wc hw mark) h
    rintro ⟨d, g⟩ e ⟨d', g'⟩ hd hstep
    obtain ⟨hd', rfl⟩ := track_eq_ok.mp hstep
    exact outputStep_streamInv hd hd'
  obtain ⟨hstream, hmatch⟩ := hinv
  refine ⟨hstream, ?_, ?_⟩
  · intro upTo rest hsent hok hfail
    have hkeep : (upTo.filter fun s => !s.failed) = upTo :=
      List.filter_eq_self.mpr fun s hs => by simp [hok s hs]
    have hdrop : (rest.filter fun s => !s.failed) = [] :=
      List.filter_eq_nil_iff.mpr fun s hs => by simp [hfail s hs]
    change written c.socket ++ c.outputBuffer.readable = accountedFor sent at hstream
    rw [hstream, hsent, accountedFor, List.filter_append, hkeep, hdrop, List.append_nil]
  · intro hst
    apply hmatch
    rcases hst with hst | hst <;> simp [hst]

/-- A short write, a second send behind it and a flush. -/
theorem output_stream_integrity_short_write :
    ∃ c sent, run (track outputStep noteSend) (established 3 false false 64, [])
        [.sendInLoop [1, 2, 3] (.accepted 1), .sendInLoop [4] (.accepted 1),
          .handleWrite (.accepted 3)] = .ok (c, sent) ∧
      written c.socket ++ c.outputBuffer.readable =
        (sent.filter fun s => !s.failed).flatMap (·.data) := by
  obtain ⟨⟨c, sent⟩, h⟩ := eq_ok_of_isOk (x := run (track outputStep noteSend)
    (established 3 false false 64, []) [.sendInLoop [1, 2, 3] (.accepted 1),
      .sendInLoop [4] (.accepted 1), .handleWrite (.accepted 3)]) (by decide +kernel)
  exact ⟨c, sent, h, (output_stream_integrity h).1⟩

end TcpConnection
end Muduo

import Muduo.Base.AsyncLogging.Recycling
import Muduo.Machine.Blocks

/-!
# Conservation of messages

Every message that has been appended is in exactly one of: the file, what the logging thread has
collected and not yet written, the full buffers, the current buffer. In this order they hold the
messages in the order in which they were appended, each of them in one piece.
-/

namespace Muduo
namespace AsyncLogging

open Machine

/-- The part of `buffersToWrite` that is not yet written. -/
def unwritten (s : AsyncLogging) : List Buffer :=
  match s.writer with
  | .collected => s.buffersToWrite
  | .writing next => s.buffersToWrite.drop next
  | _ => []

/-- What the file has been given or is going to be given by the current round of the loop. -/
def taken (s : AsyncLogging) : List (List UInt8) :=
  s.output.pieces ++ s.unwritten.map FixedBuffer.data

/-- What waits for the next round. -/
def waiting (s : AsyncLogging) : List (List UInt8) :=
  s.buffers.map FixedBuffer.data ++ [s.currentBuffer.data]

/-- The thread is in a round of its loop and has yet to collect. -/
def Gathering (s : AsyncLogging) : Prop := s.writer = .locking ∨ s.writer = .waiting

instance (s : AsyncLogging) : Decidable s.Gathering := inferInstanceAs (Decidable (_ ∨ _))

/-- The messages are shorter than a buffer, and no round collects more than 25 buffers. -/
def Bounded (s : AsyncLogging) (e : Event) : Prop :=
  (∀ logline, e = .append logline → logline.length < kLargeBuffer) ∧
    (e = .lock ∨ e = .wake → s.buffers.length + 1 ≤ 25)

instance (s : AsyncLogging) (e : Event) : Decidable (s.Bounded e) :=
  have : Decidable (∀ logline, e = .append logline → logline.length < kLargeBuffer) :=
    match e with
    | .append l => decidable_of_iff (l.length < kLargeBuffer) (by simp)
    | .enter | .test | .lock | .wake | .dropOverflow _ | .write | .finish | .stop =>
      isTrue nofun
  instDecidableAnd

/-- The messages that the logger holds. -/
structure Inv (s : AsyncLogging) (messages : List (List UInt8)) : Prop where
  stocked : s.Stocked
  spare : ∀ b ∈ s.nextBuffer, b.data = []
  few : s.writer.busy = true → s.buffersToWrite.length ≤ 25
  inBlocks : InBlocks (s.taken ++ s.waiting) messages
  flushed : s.writer = .exited → s.output.flushed = s.output.pieces.length

variable {s t : AsyncLogging} {e : Event} {messages : List (List UInt8)}

lemma inv_start : start.Inv [] where
  stocked := .start
  spare := by simp [start]
  few h := by cases h
  inBlocks := ⟨[[]], rfl, rfl⟩
  flushed h := by cases h

/-! ### What a step does to the messages -/

/-- A step of the thread that takes nothing and writes what has been taken. -/
structure Quiet (s t : AsyncLogging) : Prop where
  taken : t.taken = s.taken
  waiting : t.waiting = s.waiting
  nextBuffer : t.nextBuffer = s.nextBuffer
  buffersToWrite : t.writer.busy = true → s.writer.busy = true ∧ t.buffersToWrite = s.buffersToWrite
  flushed : t.writer = .exited → s.writer = .exited ∧ t.output = s.output ∨
    t.output.flushed = t.output.pieces.length
  running : s.running = false → t.running = false
  gathering : s.running = false → (t.Gathering ↔ s.Gathering)

inductive Effect (s : AsyncLogging) : Event → AsyncLogging → Prop
  | append (logline : List UInt8) : Effect s (.append logline) (s.append logline)
  | collect {e : Event} {b : Buffer} (he : e = .lock ∨ e = .wake) (hg : s.Gathering)
      (hb : b.data = []) : Effect s e (s.gathered b)
  | quiet {e : Event} {t : AsyncLogging} (he : e.messages = []) (h : Quiet s t) : Effect s e t

/-- A buffer that is written goes from what is to be written to what has been written. -/
lemma taken_write {next : ℕ} (hw : s.writer = .writing next) : (s.write next).taken = s.taken := by
  cases hb : s.buffersToWrite[next]? with
  | some b =>
    have hdrop : s.buffersToWrite.drop next = b :: s.buffersToWrite.drop (next + 1) := by
      rw [List.drop_eq_getElem?_toList_append, hb]
      rfl
    simp [write, hb, taken, unwritten, hw, hdrop, LogFile.append, -List.map_drop]
  | none =>
    have hdrop : s.buffersToWrite.drop next = [] :=
      List.drop_eq_nil_of_le (List.getElem?_eq_none_iff.mp hb)
    simp [write, hb, taken, unwritten, hw, hdrop, -List.map_drop]

lemma quiet_write {next : ℕ} (hw : s.writer = .writing next) : Quiet s (s.write next) := by
  have htaken := taken_write hw
  unfold write at htaken ⊢
  split at htaken
  · exact ⟨htaken, rfl, rfl, fun _ => ⟨by rw [hw]; rfl, rfl⟩, by simp, id,
      fun _ => by simp [Gathering, hw]⟩
  · exact ⟨htaken, rfl, rfl, fun _ => ⟨by rw [hw]; rfl, rfl⟩, by simp, id,
      fun _ => by simp [Gathering, hw]⟩

lemma quiet_test (hw : s.writer = .test) (h : s.test = .ok t) : Quiet s t := by
  unfold test at h
  split at h
  · rename_i hrun
    simp only [bind_eq_ok] at h
    obtain ⟨-, -, -, -, -, -, h⟩ := h
    cases h
    exact ⟨by simp [taken, unwritten, hw], rfl, rfl, by simp [Writer.busy], by simp, id,
      by simp [hrun]⟩
  · cases h
    exact ⟨by simp [taken, unwritten, hw, LogFile.flush], rfl, rfl, by simp [Writer.busy],
      fun _ => .inr rfl, id, fun _ => by simp [Gathering, hw]⟩

lemma quiet_dropOverflow (hw : s.writer = .collected) (hfew : s.buffersToWrite.length ≤ 25)
    {now : List UInt8} (h : s.dropOverflow now = .ok t) : Quiet s t := by
  simp only [dropOverflow, if_neg (not_lt.mpr hfew), bind_eq_ok] at h
  obtain ⟨-, -, h⟩ := h
  cases h
  exact ⟨by simp [taken, unwritten, hw], rfl, rfl, fun _ => ⟨by rw [hw]; rfl, rfl⟩, by simp, id,
    fun _ => by simp [Gathering, hw]⟩

lemma quiet_finish (hw : s.writer = .recycling) (h : s.finish = .ok t) : Quiet s t := by
  simp only [finish, bind_eq_ok] at h
  obtain ⟨_, -, _, -, h⟩ := h
  cases h
  exact ⟨by simp [taken, unwritten, hw, LogFile.flush], rfl, rfl, by simp [Writer.busy], by simp,
    id, fun _ => by simp [Gathering, hw]⟩

lemma Stocked.effect_collect (h : s.Stocked) (hg : s.Gathering) (he : e = .lock ∨ e = .wake)
    (ht : s.collect = .ok t) : Effect s e t := by
  have hidle := h.idle (by rcases hg with hw | hw <;> rw [hw] <;> rfl)
  obtain ⟨b, hb, hcollect⟩ := hidle.collect_eq
  cases hcollect.symm.trans ht
  exact .collect he hg hb

/-- Every step appends, collects, or leaves the messages where they are. -/
lemma Stocked.effect (h : s.Stocked) (hfew : s.writer.busy = true → s.buffersToWrite.length ≤ 25)
    (ht : s.step e = .ok t) : Effect s e t := by
  cases e with
  | append logline =>
    cases ht
    exact .append logline
  | enter =>
    obtain ⟨hw, ht⟩ := require_bind_eq_ok.mp ht
    obtain ⟨-, -, ht⟩ := bind_eq_ok.mp ht
    cases ht
    exact .quiet rfl ⟨by simp [taken, unwritten, hw], rfl, rfl, by simp [Writer.busy], by simp, id,
      fun _ => by simp [Gathering, hw]⟩
  | test =>
    obtain ⟨hw, ht⟩ := require_bind_eq_ok.mp ht
    exact .quiet rfl (quiet_test hw ht)
  | lock =>
    obtain ⟨hw, ht⟩ := require_bind_eq_ok.mp ht
    unfold AsyncLogging.lock at ht
    split at ht
    · cases ht
      exact .quiet rfl ⟨by simp [taken, unwritten, hw], rfl, rfl, by simp [Writer.busy], by simp,
        id, fun _ => by simp [Gathering, hw]⟩
    · exact h.effect_collect (.inl hw) (.inl rfl) ht
  | wake =>
    obtain ⟨hw, ht⟩ := require_bind_eq_ok.mp ht
    exact h.effect_collect (.inr hw) (.inr rfl) ht
  | dropOverflow now =>
    obtain ⟨hw, ht⟩ := require_bind_eq_ok.mp ht
    exact .quiet rfl (quiet_dropOverflow hw (hfew (by rw [hw]; rfl)) ht)
  | write =>
    rw [AsyncLogging.step] at ht
    split at ht
    · cases ht
      exact .quiet rfl (quiet_write ‹_›)
    · cases ht
  | finish =>
    obtain ⟨hw, ht⟩ := require_bind_eq_ok.mp ht
    exact .quiet rfl (quiet_finish hw ht)
  | stop =>
    obtain ⟨-, ht⟩ := require_bind_eq_ok.mp ht
    cases ht
    exact .quiet rfl ⟨rfl, rfl, rfl, fun hbusy => ⟨hbusy, rfl⟩, fun hw => .inl ⟨hw, rfl⟩,
      fun _ => rfl, fun _ => Iff.rfl⟩

/-! ### What the steps keep -/

lemma inBlocks_append (h : InBlocks (s.taken ++ s.waiting) messages)
    (hspare : ∀ b ∈ s.nextBuffer, b.data = []) {logline : List UInt8}
    (hlen : logline.length < kLargeBuffer) :
    InBlocks ((s.append logline).taken ++ (s.append logline).waiting) (messages ++ [logline]) := by
  have hblocks : InBlocks ((s.taken ++ s.buffers.map FixedBuffer.data) ++ [s.currentBuffer.data])
      messages := by
    simpa [waiting] using h
  unfold AsyncLogging.append
  split
  · rename_i hfits
    have := hblocks.extend logline
    rw [← FixedBuffer.data_append hfits, List.append_assoc] at this
    exact this
  · have hnil : (s.nextBuffer.getD .new).data = [] := by
      cases hn : s.nextBuffer with
      | none => rfl
      | some b => exact hspare b hn
    have hdata : ((s.nextBuffer.getD .new).append logline).data = logline := by
      rw [FixedBuffer.data_append, hnil, List.nil_append]
      simpa [FixedBuffer.avail, hnil] using hlen
    have := hblocks.concat logline
    simpa [waiting, hdata, taken, unwritten] using this

lemma Inv.append (h : s.Inv messages) {logline : List UInt8}
    (hlen : logline.length < kLargeBuffer) : (s.append logline).Inv (messages ++ [logline]) := by
  have hblocks := inBlocks_append h.inBlocks h.spare hlen
  refine { stocked := h.stocked.append logline, inBlocks := hblocks, spare := ?_, few := ?_
           flushed := ?_ }
  all_goals unfold AsyncLogging.append
  · split
    · exact h.spare
    · simp
  · split
    · exact h.few
    · exact h.few
  · split
    · exact h.flushed
    · exact h.flushed

/-- What was waiting is taken, and the new current buffer is empty. -/
lemma Inv.gathered (h : s.Inv messages) (hg : s.Gathering) (hfew : s.buffers.length + 1 ≤ 25)
    {b : Buffer} (hb : b.data = []) : (s.gathered b).Inv messages := by
  have hidle : s.Idle := h.stocked.idle (by rcases hg with hw | hw <;> rw [hw] <;> rfl)
  refine { stocked := h.stocked.gathered hidle b, spare := ?_, few := fun _ => ?_, inBlocks := ?_
           flushed := fun hw => by cases hw }
  · obtain ⟨newBuffer2, hnew2, hnil2⟩ := isSpare_iff.mp hidle.newBuffer2
    cases hnext : s.nextBuffer with
    | none => simpa [AsyncLogging.gathered, hnext, hnew2] using hnil2
    | some next => simpa [AsyncLogging.gathered, hnext] using h.spare next hnext
  · simpa [AsyncLogging.gathered] using hfew
  · have hunwritten : s.unwritten = [] := by
      rcases hg with hw | hw <;> simp [unwritten, hw]
    have hcollected : (s.gathered b).unwritten = s.buffers ++ [s.currentBuffer] := rfl
    have hblocks := h.inBlocks.concat_nil
    rw [taken, hcollected]
    simpa [taken, waiting, hunwritten, AsyncLogging.gathered, hb] using hblocks

lemma Inv.step (h : s.Inv messages) (hb : s.Bounded e) (ht : s.step e = .ok t) :
    t.Inv (messages ++ e.messages) := by
  cases h.stocked.effect h.few ht with
  | append logline => exact h.append (hb.1 logline rfl)
  | collect he hg hnil =>
    have hmessages : e.messages = [] := by rcases he with rfl | rfl <;> rfl
    rw [hmessages, List.append_nil]
    exact h.gathered hg (hb.2 he) hnil
  | quiet he hquiet =>
    rw [he, List.append_nil]
    refine { stocked := (h.stocked.step e).of_ok ht, spare := ?_, few := ?_, inBlocks := ?_
             flushed := ?_ }
    · rw [hquiet.nextBuffer]
      exact h.spare
    · intro hbusy
      obtain ⟨hs, heq⟩ := hquiet.buffersToWrite hbusy
      rw [heq]
      exact h.few hs
    · rw [hquiet.taken, hquiet.waiting]
      exact h.inBlocks
    · intro hw
      rcases hquiet.flushed hw with ⟨hs, heq⟩ | hflushed
      · rw [heq]
        exact h.flushed hs
      · exact hflushed

lemma run_inv {es : List Event} (h : Along step Bounded start es) :
    Safe (run step start es) fun s => s.Inv (es.flatMap Event.messages) := by
  refine run_history (R := fun s es => s.Inv (es.flatMap Event.messages))
    (fun s es e hs hb => ?_) inv_start h
  refine ((hs.stocked.step e).and_of_ok fun t ht => hs.step hb ht).mono fun t ht => ?_
  simpa using ht.2

/-- However the threads interleave, the file, what is to be written to it, the full buffers and the
current buffer hold the messages in the order in which they were appended, none of them in two
pieces. -/
theorem messages_conserved (es : List Event) (h : Along step Bounded start es) :
    Safe (run step start es) fun s =>
      InBlocks (s.output.pieces ++ s.unwritten.map FixedBuffer.data ++
        s.buffers.map FixedBuffer.data ++ [s.currentBuffer.data])
        (es.flatMap Event.messages) := by
  refine (run_inv h).mono fun s hs => ?_
  simpa [taken, waiting] using hs.inBlocks

/-- A message before a round of the logging thread, one while it waits and one behind the round. -/
def oneRound : List Event :=
  [.enter, .append (ascii "a\n"), .test, .lock, .append (ascii "b\n"), .wake, .dropOverflow [],
    .write, .write, .finish, .append (ascii "c\n")]

theorem messages_conserved_oneRound :
    Yields (run step start oneRound) fun s =>
      s.output.pieces = [ascii "a\nb\n"] ∧ s.currentBuffer.data = ascii "c\n" ∧
        InBlocks (s.output.pieces ++ s.unwritten.map FixedBuffer.data ++
          s.buffers.map FixedBuffer.data ++ [s.currentBuffer.data])
          [ascii "a\n", ascii "b\n", ascii "c\n"] := by
  obtain ⟨s, hs, hpieces, hcurrent⟩ : Yields (run step start oneRound) fun s =>
      s.output.pieces = [ascii "a\nb\n"] ∧ s.currentBuffer.data = ascii "c\n" := by
    decide +kernel
  exact ⟨s, hs, hpieces, hcurrent,
    (messages_conserved oneRound (by decide +kernel)).of_ok hs⟩

end AsyncLogging
end Muduo

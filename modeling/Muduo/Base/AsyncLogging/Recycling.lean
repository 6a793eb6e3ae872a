import Muduo.Base.AsyncLogging.Basic

/-!
# Recycling of buffers

The logging thread gives one of its two spare buffers to the logger in every round, and the other
one if the threads that append have used up the logger's own. It takes the same number of buffers
back from those that it has written, however many these were: more than 25 of them are cut down
to 2.

## Main results

* `recycling_safe`: the thread never runs out of buffers, however the threads interleave.
-/

namespace Muduo
namespace AsyncLogging

open Machine

/-- The thread has its two spare buffers and nothing to write. -/
structure Idle (s : AsyncLogging) : Prop where
  newBuffer1 : isSpare s.newBuffer1 = true
  newBuffer2 : isSpare s.newBuffer2 = true
  buffersToWrite : s.buffersToWrite = []

/-- The thread has given away one or two of its spare buffers, and can replace them. -/
structure Owing (s : AsyncLogging) : Prop where
  newBuffer1 : s.newBuffer1 = none
  newBuffer2 : isSpare s.newBuffer2 = true ∨ s.newBuffer2 = none ∧ 2 ≤ s.buffersToWrite.length
  nonempty : s.buffersToWrite ≠ []

def Writer.busy : Writer → Bool
  | .collected => true
  | .writing _ => true
  | .recycling => true
  | _ => false

/-- The spare buffers of the thread and of the logger. -/
structure Stocked (s : AsyncLogging) : Prop where
  entry : s.writer = .entry → s.running = true
  /-- A logger without a spare buffer has used it, so that the next round collects two buffers. -/
  next : s.nextBuffer = none → s.buffers ≠ []
  idle : s.writer.busy = false → s.Idle
  owing : s.writer.busy = true → s.Owing

variable {s : AsyncLogging}

lemma isSpare_iff {newBuffer : Option Buffer} :
    isSpare newBuffer = true ↔ ∃ b, newBuffer = some b ∧ b.data = [] := by
  cases newBuffer with
  | none => simp [isSpare]
  | some b => simp [isSpare]

/-! ### Giving and taking back -/

/-- Behind the critical section: `b` has become the current buffer, and the logger has been given
the other spare buffer if it had none. -/
def gathered (s : AsyncLogging) (b : Buffer) : AsyncLogging :=
  { s with
    writer := .collected
    currentBuffer := b
    nextBuffer := if s.nextBuffer.isNone then s.newBuffer2 else s.nextBuffer
    buffers := []
    newBuffer1 := none
    newBuffer2 := if s.nextBuffer.isNone then none else s.newBuffer2
    buffersToWrite := s.buffers ++ [s.currentBuffer] }

lemma Idle.collect_eq (h : s.Idle) : ∃ b : Buffer, b.data = [] ∧ s.collect = .ok (s.gathered b) := by
  obtain ⟨b, hb, hnil⟩ := isSpare_iff.mp h.newBuffer1
  refine ⟨b, hnil, ?_⟩
  simp only [collect, hb, gathered, h.buffersToWrite]
  cases s.nextBuffer with
  | none => rfl
  | some _ => rfl

lemma recycle_of_isSpare {newBuffer : Option Buffer} (h : isSpare newBuffer = true)
    (left : List Buffer) : recycle newBuffer left = .ok (newBuffer, left) := by
  obtain ⟨b, rfl, -⟩ := isSpare_iff.mp h
  rfl

lemma recycle_none {left : List Buffer} (h : left ≠ []) :
    ∃ newBuffer, recycle none left = .ok (newBuffer, left.dropLast) ∧ isSpare newBuffer = true := by
  refine ⟨some (left.getLast h).reset, ?_, rfl⟩
  rw [recycle, List.getLast?_eq_some_getLast h]
  rfl

/-- Both spare buffers are replaced: the second one is still there, or a second buffer has been
collected for it. -/
lemma recycle_twice {newBuffer2 : Option Buffer} {collected : List Buffer}
    (hnew2 : isSpare newBuffer2 = true ∨ newBuffer2 = none ∧ 2 ≤ collected.length)
    (hnonempty : collected ≠ []) :
    ∃ spare1 spare2 left,
      recycle none (collected.take 2) = .ok (spare1, (collected.take 2).dropLast) ∧
      recycle newBuffer2 (collected.take 2).dropLast = .ok (spare2, left) ∧
      isSpare spare1 = true ∧ isSpare spare2 = true := by
  have hleft : collected.take 2 ≠ [] := by simpa using hnonempty
  obtain ⟨spare1, hrec1, hspare1⟩ := recycle_none hleft
  rcases hnew2 with hspare | ⟨rfl, htwo⟩
  · exact ⟨spare1, _, _, hrec1, recycle_of_isSpare hspare _, hspare1, hspare⟩
  · have hleft2 : (collected.take 2).dropLast ≠ [] := by
      refine List.ne_nil_of_length_pos ?_
      rw [List.length_dropLast, List.length_take]
      omega
    obtain ⟨spare2, hrec2, hspare2⟩ := recycle_none hleft2
    exact ⟨spare1, spare2, _, hrec1, hrec2, hspare1, hspare2⟩

/-! ### The steps -/

namespace Stocked

/-- Between two rounds. -/
lemma of_idle (hw : s.writer.busy = false) (hentry : s.writer = .entry → s.running = true)
    (hnext : s.nextBuffer = none → s.buffers ≠ []) (hidle : s.Idle) : s.Stocked where
  entry := hentry
  next := hnext
  idle _ := hidle
  owing h := absurd (hw.symm.trans h) Bool.false_ne_true

/-- In a round. -/
lemma of_owing (hw : s.writer.busy = true) (hnext : s.nextBuffer = none → s.buffers ≠ [])
    (howing : s.Owing) : s.Stocked where
  entry h := by
    rw [h] at hw
    cases hw
  next := hnext
  idle h := absurd (h.symm.trans hw) Bool.false_ne_true
  owing _ := howing

lemma start : AsyncLogging.start.Stocked :=
  of_idle rfl (fun _ => rfl) (by simp [AsyncLogging.start]) ⟨rfl, rfl, rfl⟩

lemma append (h : s.Stocked) (logline : List UInt8) : (s.append logline).Stocked := by
  unfold AsyncLogging.append
  split
  · exact
      { h with
        idle := fun hw => { h.idle hw with }
        owing := fun hw => { h.owing hw with } }
  · exact
      { h with
        next := by simp
        idle := fun hw => { h.idle hw with }
        owing := fun hw => { h.owing hw with } }

lemma enter (h : s.Stocked) (hw : s.writer = .entry) : Safe s.enter Stocked := by
  rw [AsyncLogging.enter, safe_bind, safe_check]
  have hidle := h.idle (by rw [hw]; rfl)
  exact ⟨h.entry hw, of_idle rfl (by simp) h.next { hidle with }⟩

lemma test (h : s.Stocked) (hw : s.writer = .test) : Safe s.test Stocked := by
  have hidle := h.idle (by rw [hw]; rfl)
  unfold AsyncLogging.test
  split
  · simp only [safe_bind, safe_check]
    exact ⟨hidle.newBuffer1, hidle.newBuffer2, hidle.buffersToWrite,
      of_idle rfl (by simp) h.next { hidle with }⟩
  · exact of_idle rfl (by simp) h.next { hidle with }

lemma gathered (h : s.Stocked) (hidle : s.Idle) (b : Buffer) : (s.gathered b).Stocked := by
  obtain ⟨newBuffer2, hnew2, -⟩ := isSpare_iff.mp hidle.newBuffer2
  refine of_owing rfl ?_ ⟨rfl, ?_, by simp [AsyncLogging.gathered]⟩
  · cases hnext : s.nextBuffer with
    | none => simp [AsyncLogging.gathered, hnext, hnew2]
    | some next => simp [AsyncLogging.gathered, hnext]
  · cases hnext : s.nextBuffer with
    | none =>
      -- The second spare buffer is given away, too, and the logger had a full buffer.
      have hpos := List.length_pos_iff.mpr (h.next hnext)
      right
      simpa [AsyncLogging.gathered, hnext] using Nat.succ_le_of_lt hpos
    | some next =>
      left
      simpa [AsyncLogging.gathered, hnext] using hidle.newBuffer2

lemma collect (h : s.Stocked) (hidle : s.Idle) : Safe s.collect Stocked := by
  obtain ⟨b, -, hb⟩ := hidle.collect_eq
  rw [hb]
  exact h.gathered hidle b

lemma lock (h : s.Stocked) (hw : s.writer = .locking) : Safe s.lock Stocked := by
  have hidle := h.idle (by rw [hw]; rfl)
  unfold AsyncLogging.lock
  split
  · exact of_idle rfl (by simp) h.next { hidle with }
  · exact h.collect hidle

/-- Two buffers are left of more than 25, which is as many as have been given away at most. -/
lemma dropOverflow (h : s.Stocked) (hw : s.writer = .collected) (now : List UInt8) :
    Safe (s.dropOverflow now) Stocked := by
  have howing := h.owing (by rw [hw]; rfl)
  rw [AsyncLogging.dropOverflow, safe_bind, safe_check]
  refine ⟨howing.nonempty, ?_⟩
  dsimp only
  split
  · rename_i hmany
    have htwo : (s.buffersToWrite.take 2).length = 2 := by
      rw [List.length_take]
      exact Nat.min_eq_left ((by decide : 2 ≤ 25).trans hmany.le)
    exact of_owing rfl h.next
      { newBuffer1 := howing.newBuffer1
        newBuffer2 := howing.newBuffer2.imp_right fun hnone => ⟨hnone.1, htwo.ge⟩
        nonempty := List.ne_nil_of_length_pos (Nat.zero_lt_two.trans_eq htwo.symm) }
  · exact of_owing rfl h.next { howing with }

lemma write (h : s.Stocked) {next : ℕ} (hw : s.writer = .writing next) :
    (s.write next).Stocked := by
  have howing := h.owing (by rw [hw]; rfl)
  unfold AsyncLogging.write
  split
  · exact of_owing rfl h.next { howing with }
  · exact of_owing rfl h.next { howing with }

lemma finish (h : s.Stocked) (hw : s.writer = .recycling) : Safe s.finish Stocked := by
  have howing := h.owing (by rw [hw]; rfl)
  obtain ⟨newBuffer1, newBuffer2, left, hrec1, hrec2, hspare1, hspare2⟩ :=
    recycle_twice howing.newBuffer2 howing.nonempty
  rw [AsyncLogging.finish, howing.newBuffer1, hrec1, ok_bind]
  dsimp only
  rw [hrec2, ok_bind]
  exact of_idle rfl (by simp) h.next ⟨hspare1, hspare2, rfl⟩

lemma stop (h : s.Stocked) (hw : s.writer ≠ .entry) : { s with running := false }.Stocked :=
  { h with
    entry := fun hentry => absurd hentry hw
    idle := fun hb => { h.idle hb with }
    owing := fun hb => { h.owing hb with } }

lemma step (h : s.Stocked) (e : Event) : Safe (s.step e) Stocked := by
  cases e with
  | append logline => exact h.append logline
  | write =>
    rw [AsyncLogging.step]
    split
    · exact h.write ‹_›
    · trivial
  | stop =>
    rw [AsyncLogging.step, safe_bind, safe_require]
    exact fun hw => h.stop hw.2
  | enter => exact safe_bind .. |>.mpr (safe_require .. |>.mpr h.enter)
  | test => exact safe_bind .. |>.mpr (safe_require .. |>.mpr h.test)
  | lock => exact safe_bind .. |>.mpr (safe_require .. |>.mpr h.lock)
  | wake =>
    refine safe_bind .. |>.mpr (safe_require .. |>.mpr fun hw => h.collect (h.idle ?_))
    rw [hw]
    rfl
  | dropOverflow now =>
    exact safe_bind .. |>.mpr (safe_require .. |>.mpr fun hw => h.dropOverflow hw now)
  | finish => exact safe_bind .. |>.mpr (safe_require .. |>.mpr h.finish)

end Stocked

/-- However the threads interleave, no assertion fails and no null buffer is made the current one.
Outside of a round the thread has two empty spare buffers and nothing to write. In a round it has
something to write, and two buffers at least if it has to replace both spare buffers. -/
theorem recycling_safe (es : List Event) :
    Safe (run step start es) fun s =>
      (s.writer.busy = false → isSpare s.newBuffer1 = true ∧ isSpare s.newBuffer2 = true ∧
        s.buffersToWrite = []) ∧
      (s.writer.busy = true → s.newBuffer1 = none ∧ s.buffersToWrite ≠ [] ∧
        (isSpare s.newBuffer2 = true ∨ s.newBuffer2 = none ∧ 2 ≤ s.buffersToWrite.length)) := by
  refine (run_invariant (fun s e h => Stocked.step h e) Stocked.start es).mono fun s h => ?_
  constructor
  · intro hw
    exact ⟨(h.idle hw).newBuffer1, (h.idle hw).newBuffer2, (h.idle hw).buffersToWrite⟩
  · intro hw
    exact ⟨(h.owing hw).newBuffer1, (h.owing hw).nonempty, (h.owing hw).newBuffer2⟩

end AsyncLogging
end Muduo

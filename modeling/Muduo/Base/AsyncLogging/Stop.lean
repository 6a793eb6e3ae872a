import Muduo.Base.AsyncLogging.Conservation

/-!
# Stopping the logger

`stop()` clears `running_` and waits for the logging thread. The thread reads `running_` only
between two rounds of its loop, and it does not collect once more when it finds it cleared. What has
been appended since its last round stays in the buffers, unless the round that is under way has yet
to collect.
-/

namespace Muduo
namespace AsyncLogging

open Machine

variable {s t u : AsyncLogging} {e : Event} {messages : List (List UInt8)}

lemma taken_append (s : AsyncLogging) (logline : List UInt8) :
    (s.append logline).taken = s.taken := by
  unfold append
  split <;> rfl

lemma gathering_append (s : AsyncLogging) (logline : List UInt8) :
    (s.append logline).Gathering ↔ s.Gathering := by
  unfold append
  split <;> exact Iff.rfl

lemma running_append (s : AsyncLogging) (logline : List UInt8) :
    (s.append logline).running = s.running := by
  unfold append
  split <;> rfl

/-- What holds of the states behind a call of `stop()` in the state `s`, to which `messages` had
been appended. -/
structure Stopped (s : AsyncLogging) (messages : List (List UInt8)) (t : AsyncLogging) : Prop where
  inv : ∃ more, t.Inv (messages ++ more)
  running : t.running = false
  gathering : s.Gathering → t.Gathering ∨ messages.flatten <+: t.taken.flatten
  not_gathering : ¬ s.Gathering → ¬ t.Gathering ∧ t.taken = s.taken

lemma Inv.flatten_eq (h : s.Inv messages) :
    s.taken.flatten ++ s.waiting.flatten = messages.flatten := by
  rw [← List.flatten_append, h.inBlocks.flatten_eq]

/-- A step that neither collects nor starts a round. -/
lemma Stopped.of_eq (h : Stopped s messages t) (hinv : ∃ more, u.Inv (messages ++ more))
    (hrunning : u.running = false) (hgather : u.Gathering ↔ t.Gathering)
    (htaken : u.taken = t.taken) : Stopped s messages u := by
  refine ⟨hinv, hrunning, ?_, ?_⟩
  · rw [hgather, htaken]
    exact h.gathering
  · rw [hgather, htaken]
    exact h.not_gathering

lemma Stopped.step (h : Stopped s messages t) (hb : t.Bounded e) (hu : t.step e = .ok u) :
    Stopped s messages u := by
  obtain ⟨more, hinv⟩ := h.inv
  have hinv' : ∃ more, u.Inv (messages ++ more) :=
    ⟨more ++ e.messages, by simpa using hinv.step hb hu⟩
  cases hinv.stocked.effect hinv.few hu with
  | append logline =>
    exact h.of_eq hinv' ((running_append t logline).trans h.running) (gathering_append t logline)
      (taken_append t logline)
  | quiet _ hquiet =>
    exact h.of_eq hinv' (hquiet.running h.running) (hquiet.gathering h.running) hquiet.taken
  | @collect _ b _ hg hnil =>
    refine ⟨hinv', h.running, fun _ => .inr ?_, fun hnot => absurd hg (h.not_gathering hnot).1⟩
    -- Everything that has been appended is taken now.
    obtain ⟨more', hmore⟩ := hinv'
    have hwaiting : (t.gathered b).waiting.flatten = [] := by simp [waiting, gathered, hnil]
    have hflat := hmore.flatten_eq
    rw [hwaiting, List.append_nil, List.flatten_append] at hflat
    exact ⟨more'.flatten, hflat.symm⟩

lemma Inv.written_of_exited (h : s.Inv messages) (hw : s.writer = .exited) :
    s.output.written = s.taken.flatten := by
  rw [LogFile.written, h.flushed hw, List.take_length]
  simp [taken, unwritten, hw]

lemma append_prefix_left_iff {α : Type*} {a b : List α} : a ++ b <+: a ↔ b = [] := by
  constructor
  · intro h
    have := h.length_le
    rw [List.length_append] at this
    exact List.eq_nil_of_length_eq_zero (by omega)
  · rintro rfl
    rw [List.append_nil]

/-- What was appended before `stop()` is in the file when `stop()` returns, if and only if the
thread had yet to collect in the round it was in, or nothing was waiting. -/
theorem stop_flushes_iff {es es' : List Event} {s t : AsyncLogging}
    (hbounded : Along step Bounded start (es ++ .stop :: es')) (hs : run step start es = .ok s)
    (ht : run step s (.stop :: es') = .ok t) (hexited : t.writer = .exited) :
    (es.flatMap Event.messages).flatten <+: t.output.written ↔
      s.Gathering ∨ s.waiting.flatten = [] := by
  have hinv := (run_inv hbounded.left).of_ok hs
  rw [run_cons, bind_eq_ok] at ht
  obtain ⟨s', hs', ht⟩ := ht
  have hrest := (hbounded.of_append hs).tail hs'
  have hstopped : Stopped s (es.flatMap Event.messages) t := by
    have hinv' := hinv.step (hbounded.of_append hs).head hs'
    obtain ⟨-, hs'⟩ := require_bind_eq_ok.mp hs'
    cases hs'
    have hnow : Stopped s (es.flatMap Event.messages) { s with running := false } :=
      ⟨⟨_, hinv'⟩, rfl, .inl, fun hg => ⟨hg, rfl⟩⟩
    exact run_reaches_along (fun _ _ _ h hb hu => Stopped.step h hb hu) hnow hrest ht
  obtain ⟨more, hdone⟩ := hstopped.inv
  have hnot : ¬ t.Gathering := by simp [Gathering, hexited]
  rw [hdone.written_of_exited hexited]
  by_cases hg : s.Gathering
  · simp only [hg, true_or, iff_true]
    exact (hstopped.gathering hg).resolve_left hnot
  · rw [(hstopped.not_gathering hg).2, ← hinv.flatten_eq, append_prefix_left_iff]
    simp [hg]

/-- A message arrives while the thread writes what it has collected before. -/
def appendWhileWriting : List Event :=
  [.enter, .test, .lock, .wake, .dropOverflow [], .append (ascii "last words\n")]

/-- The thread finishes its round and leaves. -/
def leave : List Event := [.write, .write, .finish, .test]

theorem stop_loses_message :
    Along step Bounded start (appendWhileWriting ++ .stop :: leave) ∧
      appendWhileWriting.flatMap Event.messages = [ascii "last words\n"] ∧
        Yields (run step start appendWhileWriting) fun s =>
          Yields (run step s (.stop :: leave)) fun t =>
            t.writer = .exited ∧ t.output.written = [] := by
  decide +kernel

/-- A message that arrives while the thread waits is written. -/
theorem stop_flushes_waiting :
    Yields (run step start [.enter, .test, .lock, .append (ascii "a\n")]) fun s =>
      Yields (run step s [.stop, .wake, .dropOverflow [], .write, .write, .finish, .test])
        fun t => ascii "a\n" <+: t.output.written := by
  obtain ⟨s, hs, hg⟩ : Yields (run step start [.enter, .test, .lock, .append (ascii "a\n")])
      fun s => s.Gathering := by decide +kernel
  obtain ⟨t, ht, hw⟩ : Yields (run step start ([.enter, .test, .lock, .append (ascii "a\n")] ++
      [.stop, .wake, .dropOverflow [], .write, .write, .finish, .test]))
      fun t => t.writer = .exited := by decide +kernel
  rw [run_append, hs, ok_bind] at ht
  exact ⟨s, hs, t, ht, (stop_flushes_iff (by decide +kernel) hs ht hw).mpr (.inl hg)⟩

end AsyncLogging
end Muduo

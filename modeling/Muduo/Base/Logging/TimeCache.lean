import Muduo.Base.Logging
import Muduo.Machine.Run

/-!
# The time of a log statement

`formatTime` keeps the text of the last second of a thread, and makes it anew only when the second
changes. `setTimeZone` does not touch it. After a change of the zone the statements of the same
second get the text of the old zone, with the ending of the new one.

## Main results

* `afresh_iff`: the kept text is right if the zones in force at two successive statements of the
  same second have the same text for it.
-/

namespace Muduo

open Machine

namespace Logging

/-! ### What is written -/

/-- The text of a second. -/
def dateText (zone : TimeZone.Zone) (seconds : ℤ) : Code (List UInt8) :=
  if zone.valid then zone.toLocalTime seconds >>= tmText else tmText (gmtime seconds)

/-- The text behind the second. -/
def microText (zone : TimeZone.Zone) (now : ℤ) : List UInt8 :=
  ascii "." ++ zeroPadded 6 (now.tmod kMicroSecondsPerSecond) ++
    ascii (if zone.valid then " " else "Z ")

def secondsOf (now : ℤ) : ℤ := now.tdiv kMicroSecondsPerSecond

variable {thread : Thread} {zone : TimeZone.Zone} {seconds now : ℤ} {text : List UInt8}

lemma updateTime_of_ne (h : seconds ≠ thread.lastSecond) :
    thread.updateTime zone seconds = dateText zone seconds >>= fun text =>
      .ok { thread with time := text, lastSecond := seconds } := by
  rw [Thread.updateTime, if_pos h]
  unfold dateText
  split
  · exact (bind_assoc (zone.toLocalTime seconds) tmText _).symm
  · exact ok_bind ..

lemma updateTime_of_eq (h : seconds = thread.lastSecond) :
    thread.updateTime zone seconds = .ok thread := by
  rw [Thread.updateTime, if_neg (not_not.mpr h)]
  rfl

lemma length_tmText {tm : Tm} (h : tmText tm = .ok text) : text.length = 17 := by
  obtain ⟨_, hcheck, hpure⟩ := bind_eq_ok.mp h
  have hlen := check_eq_ok.mp hcheck
  cases hpure
  rw [snprintf, List.length_take, hlen]
  rfl

lemma length_dateText (h : dateText zone seconds = .ok text) : text.length = 17 := by
  unfold dateText at h
  split at h
  · obtain ⟨tm, -, h⟩ := bind_eq_ok.mp h
    exact length_tmText h
  · exact length_tmText h

lemma length_microText (zone : TimeZone.Zone) (hnow : 0 ≤ now) :
    (microText zone now).length = if zone.valid then 8 else 9 := by
  have hpos : (0 : ℤ) < kMicroSecondsPerSecond := by decide
  have hmicro := Int.tmod_nonneg kMicroSecondsPerSecond hnow
  have hlt := Int.tmod_lt_of_pos now hpos
  have hsix : (zeroPadded 6 (now.tmod kMicroSecondsPerSecond)).length = 6 := by
    refine length_zeroPadded hmicro (length_decimal_le (k := 5) ?_)
    have hmillion : kMicroSecondsPerSecond = 10 ^ 6 := rfl
    omega
  rw [microText, List.length_append, List.length_append, hsix]
  split <;> rfl

/-- The header that `formatTime` writes into an empty stream. -/
def timeHeader (zone : TimeZone.Zone) (thread : Thread) (now : ℤ) :
    Code (LogStream × Thread) :=
  Context.formatTime ⟨zone, now, thread, 0, fun _ => []⟩ []

/-- The assertions about the microseconds hold. -/
lemma timeHeader_eq (hnow : 0 ≤ now) :
    timeHeader zone thread now = thread.updateTime zone (secondsOf now) >>= fun thread =>
      T thread.time 17 >>= fun time => .ok (time ++ microText zone now, thread) := by
  have hlen := length_microText zone hnow
  have hshort : (microText zone now).length ≤ 9 := by
    rw [hlen]
    split <;> decide
  rw [timeHeader, Context.formatTime]
  dsimp only
  rw [← secondsOf, ← microText]
  refine bind_congr fun thread' => ?_
  rw [fmt, check_of (by omega), ok_bind, pure_bind, check_of hlen, ok_bind]
  by_cases htime : thread'.time.length = 17
  · rw [T, check_of htime, ok_bind, pure_bind, T, check_of hlen, ok_bind, pure_bind,
      LogStream.append_append_eq (by
        rw [List.length_nil]
        have : kSmallBuffer = 4000 := rfl
        omega)]
    rfl
  · have hfail : T thread'.time 17 = .error (.failed .logTextLength) := by
      rw [T, check, if_neg htime]
      rfl
    rw [hfail]
    rfl

/-- The text is made anew in a new second. -/
lemma timeHeader_of_ne (hnow : 0 ≤ now) (h : secondsOf now ≠ thread.lastSecond) :
    timeHeader zone thread now = dateText zone (secondsOf now) >>= fun text =>
      .ok (text ++ microText zone now,
        { thread with time := text, lastSecond := secondsOf now }) := by
  rw [timeHeader_eq hnow, updateTime_of_ne h, bind_assoc]
  match hdate : dateText zone (secondsOf now) with
  | .error _ => rfl
  | .ok text =>
    rw [ok_bind, ok_bind, ok_bind, T, check_of (length_dateText hdate)]
    rfl

lemma timeHeader_of_eq (hnow : 0 ≤ now) (h : secondsOf now = thread.lastSecond)
    (hlen : thread.time.length = 17) :
    timeHeader zone thread now = .ok (thread.time ++ microText zone now, thread) := by
  rw [timeHeader_eq hnow, updateTime_of_eq h, ok_bind, T, check_of hlen]
  rfl

/-! ### Statements and zones -/

/-- The global zone and the variables of the thread. `last` is the second of the last statement,
with the zone that was in force. -/
structure Clock where
  zone : TimeZone.Zone
  thread : Thread
  last : Option (ℤ × TimeZone.Zone)
  deriving DecidableEq

namespace Clock

inductive Event where
  /-- A log statement. -/
  | log (now : ℤ)
  | setTimeZone (tz : TimeZone.Zone)

/-- The variables of a new thread are zero. -/
def start (tid : BitVec 32) : Clock := ⟨⟨none⟩, ⟨tid, [], 0⟩, none⟩

def step (s : Clock) : Event → Code Clock
  | .log now => do
    let (_, thread) ← timeHeader s.zone s.thread now
    return { s with thread, last := some (secondsOf now, s.zone) }
  | .setTimeZone tz => return { s with zone := tz }

/-- The header is the one that is written on a thread whose last statement was in another second. -/
def Afresh (s : Clock) : Event → Prop
  | .log now => Prod.fst <$> timeHeader s.zone s.thread now =
      Prod.fst <$> timeHeader s.zone { s.thread with lastSecond := secondsOf now + 1 } now
  | .setTimeZone _ => True

/-- The last statement was in another second, or its zone has the same text for this one. -/
def SameText (s : Clock) : Event → Prop
  | .log now => ∀ last ∈ s.last, last.1 = secondsOf now →
      dateText s.zone (secondsOf now) = dateText last.2 (secondsOf now)
  | .setTimeZone _ => True

instance : ∀ (s : Clock) (e : Event), Decidable (s.Afresh e)
  | _, .log _ => inferInstanceAs (Decidable (_ = _))
  | _, .setTimeZone _ => isTrue trivial

instance : ∀ (s : Clock) (e : Event), Decidable (s.SameText e)
  | _, .log _ => inferInstanceAs (Decidable (∀ _ ∈ _, _ → _))
  | _, .setTimeZone _ => isTrue trivial

/-- A statement is made a second after the epoch or later. -/
def Event.Late : Event → Prop
  | .log now => kMicroSecondsPerSecond ≤ now
  | .setTimeZone _ => True

instance : ∀ e : Event, Decidable e.Late
  | .log _ => inferInstanceAs (Decidable (_ ≤ _))
  | .setTimeZone _ => isTrue trivial

/-- The kept text is that of the last statement. -/
structure Kept (s : Clock) : Prop where
  first : s.last = none → s.thread.lastSecond = 0
  text : ∀ last ∈ s.last, s.thread.lastSecond = last.1 ∧
    dateText last.2 last.1 = .ok s.thread.time

variable {s t : Clock} {e : Event} {es : List Event}

lemma nonneg_of_late (h : kMicroSecondsPerSecond ≤ now) : 0 ≤ now :=
  (by decide : (0 : ℤ) ≤ kMicroSecondsPerSecond).trans h

lemma secondsOf_pos (h : kMicroSecondsPerSecond ≤ now) : 0 < secondsOf now := by
  have hone : kMicroSecondsPerSecond.tdiv kMicroSecondsPerSecond ≤ secondsOf now :=
    Int.tdiv_le_tdiv (by decide) h
  exact (by decide : (0 : ℤ) < kMicroSecondsPerSecond.tdiv kMicroSecondsPerSecond).trans_le hone

/-- A thread keeps the text of this second only if its last statement was in it. -/
lemma Kept.of_eq (h : s.Kept) (hnow : kMicroSecondsPerSecond ≤ now)
    (hsec : secondsOf now = s.thread.lastSecond) :
    ∃ zone, s.last = some (secondsOf now, zone) ∧
      dateText zone (secondsOf now) = .ok s.thread.time := by
  match hlast : s.last with
  | none =>
    have hpos := secondsOf_pos hnow
    rw [hsec, h.first hlast] at hpos
    exact absurd hpos (lt_irrefl 0)
  | some (seconds, zone) =>
    obtain ⟨heq, htext⟩ := h.text _ hlast
    rw [hsec, heq]
    exact ⟨zone, rfl, htext⟩

lemma Kept.afresh_iff_sameText (h : s.Kept) (he : e.Late) : s.Afresh e ↔ s.SameText e := by
  cases e with
  | setTimeZone tz => exact Iff.rfl
  | log now =>
    have hnow := nonneg_of_late he
    have hne : secondsOf now ≠ secondsOf now + 1 := (lt_add_one _).ne
    have hfresh : Prod.fst <$> timeHeader s.zone
        { s.thread with lastSecond := secondsOf now + 1 } now =
        (· ++ microText s.zone now) <$> dateText s.zone (secondsOf now) := by
      rw [timeHeader_of_ne hnow hne]
      cases dateText s.zone (secondsOf now) <;> rfl
    rw [Afresh, hfresh]
    by_cases hsec : secondsOf now = s.thread.lastSecond
    · obtain ⟨zone, hlast, htext⟩ := h.of_eq he hsec
      have hlen := length_dateText htext
      have hsame : s.SameText (.log now) ↔ dateText s.zone (secondsOf now) = .ok s.thread.time := by
        simp only [SameText, hlast, Option.mem_some_iff, forall_eq', forall_const, htext]
      rw [timeHeader_of_eq hnow hsec hlen, hsame, eq_comm]
      refine map_eq_ok.trans ?_
      constructor
      · rintro ⟨text, htext', happend⟩
        rw [htext', List.append_cancel_right happend]
      · intro htext'
        exact ⟨_, htext', rfl⟩
    · have hsame : s.SameText (.log now) := fun last hlast heq =>
        absurd ((h.text last hlast).1.trans heq).symm hsec
      refine iff_of_true ?_ hsame
      rw [timeHeader_of_ne hnow hsec]
      cases dateText s.zone (secondsOf now) <;> rfl

lemma Kept.step (h : s.Kept) (he : e.Late) (hsame : s.SameText e) (ht : s.step e = .ok t) :
    t.Kept := by
  cases e with
  | setTimeZone tz =>
    cases ht
    exact ⟨h.first, h.text⟩
  | log now =>
    have hnow := nonneg_of_late he
    obtain ⟨⟨header, thread⟩, hheader, hpure⟩ := bind_eq_ok.mp ht
    cases hpure
    refine ⟨nofun, ?_⟩
    rintro _ ⟨⟩
    by_cases hsec : secondsOf now = s.thread.lastSecond
    · obtain ⟨zone, hlast, htext⟩ := h.of_eq he hsec
      rw [timeHeader_of_eq hnow hsec (length_dateText htext)] at hheader
      cases hheader
      exact ⟨hsec.symm, (hsame _ hlast rfl).trans htext⟩
    · rw [timeHeader_of_ne hnow hsec] at hheader
      obtain ⟨text, htext, hpure⟩ := bind_eq_ok.mp hheader
      cases hpure
      exact ⟨rfl, htext⟩

/-- Every statement has the time in the zone that is in force if and only if no statement follows
another one in the same second under a zone that has another text for it. -/
theorem afresh_iff (tid : BitVec 32) (hlate : ∀ e ∈ es, e.Late) :
    Along step Afresh (start tid) es ↔ Along step SameText (start tid) es := by
  have hstart : (start tid).Kept := ⟨fun _ => rfl, nofun⟩
  constructor
  · intro h
    refine Along.imp (I := Kept) (fun s e t hs hC ht => ?_) (fun s e hs hC => ?_) hstart
      (h.and_forall hlate)
    · exact hs.step hC.2 ((hs.afresh_iff_sameText hC.2).mp hC.1) ht
    · exact (hs.afresh_iff_sameText hC.2).mp hC.1
  · intro h
    refine Along.imp (I := Kept) (fun s e t hs hC ht => ?_) (fun s e hs hC => ?_) hstart
      (h.and_forall hlate)
    · exact hs.step hC.2 hC.1 ht
    · exact (hs.afresh_iff_sameText hC.2).mpr hC.1

/-- The zone of China, eight hours east of UTC. -/
def china : TimeZone.Zone := .fixed 28800 (ascii "CST")

/-- The zone is set between two statements. -/
def changed (first second : ℤ) : List Event := [.log first, .setTimeZone china, .log second]

/-- The second statement is made a microsecond later, and in the next second. -/
theorem afresh_iff_nextSecond :
    (∀ e ∈ changed 1700000000999999 1700000001000000, e.Late) ∧
      Along step Afresh (start 1) (changed 1700000000999999 1700000001000000) :=
  ⟨by decide +kernel, (afresh_iff 1 (by decide +kernel)).mpr (by decide +kernel)⟩

/-- The second statement has the time of UTC, and ends like one in the new zone. -/
theorem not_afresh_sameSecond :
    (∀ e ∈ changed 1700000000000000 1700000000000001, e.Late) ∧
      ¬ Along step Afresh (start 1) (changed 1700000000000000 1700000000000001) := by
  decide +kernel

end Clock

end Logging

end Muduo

import Muduo.Base.AsyncLogging.Basic
import Muduo.Machine.TextOrder

/-!
# Log files

`FileUtil::AppendFile` is a file that is written through the C library, and `LogFile` writes one
such file after another, each under a name made of the second in which it was opened. The clock is
read at most twice by a call, and may say anything.

The files of a `LogFile`, put one behind the other in the order of their names, hold the lines that
have been appended, in the order in which they were, and no line is divided between two files
(`files_hold_lines`). To the logger it is the file that it takes it to be (`refines_logFile`).
-/

namespace Muduo

open Machine

namespace FileUtil

/-- An `AppendFile`: what has been given to the stream, and how much of it has been flushed. -/
structure AppendFile where
  name : List UInt8
  content : List UInt8
  flushed : ℕ
  writtenBytes : ℕ
  deriving DecidableEq, Repr

namespace AppendFile

def open_ (filename : List UInt8) : AppendFile := ⟨filename, [], 0, 0⟩

/-- `write`, of which the stream takes `n` bytes. -/
def write (f : AppendFile) (logline : List UInt8) (n : ℕ) : AppendFile :=
  { f with content := f.content ++ logline.take n }

def flush (f : AppendFile) : AppendFile := { f with flushed := f.content.length }

/-- The end of `append`. -/
def finish (f : AppendFile) (written : ℕ) : AppendFile :=
  { f with writtenBytes := f.writtenBytes + written }

/-- The loop of `append`. The stream says how much it took of what it was given, and whether it has
failed. -/
def appendFrom (f : AppendFile) (logline : List UInt8) (written : ℕ) :
    List (ℕ × Bool) → Code AppendFile
  | [] => do
    require (written = logline.length)
    return f.finish written
  | (n, err) :: writes =>
    let remain := logline.length - written
    if written = logline.length then
      return f.finish written
    else do
      require (n ≤ remain)
      if n ≠ remain ∧ err = true then
        return (f.write (logline.drop written) n).finish written
      else
        (f.write (logline.drop written) n).appendFrom logline (written + n) writes

def append (f : AppendFile) (logline : List UInt8) (writes : List (ℕ × Bool)) : Code AppendFile :=
  f.appendFrom logline 0 writes

/-- Without a failure of the stream the loop goes on to the end of the line. -/
lemma appendFrom_spec {logline : List UInt8} {writes : List (ℕ × Bool)}
    (hwrites : ∀ w ∈ writes, w.2 = false) (f : AppendFile) {written : ℕ}
    (hle : written ≤ logline.length) :
    Safe (f.appendFrom logline written writes) fun f' =>
      f' = { f with
        content := f.content ++ logline.drop written
        writtenBytes := f.writtenBytes + logline.length } := by
  induction writes generalizing f written with
  | nil =>
    rw [appendFrom, safe_bind, safe_require]
    rintro rfl
    simp [finish]
  | cons w writes ih =>
    obtain ⟨n, err⟩ := w
    have herr : err = false := hwrites (n, err) (List.mem_cons_self ..)
    rw [appendFrom]
    split
    · rename_i heq
      simp [finish, heq]
    · rw [safe_bind, safe_require]
      intro hn
      rw [if_neg (by simp [herr])]
      refine (ih (fun w hw => hwrites w (List.mem_cons_of_mem _ hw)) _ (by omega)).mono ?_
      rintro f' rfl
      have hsplit : (logline.drop written).take n ++ logline.drop (written + n) =
          logline.drop written := by
        rw [← List.drop_drop, List.take_append_drop]
      simp only [write, List.append_assoc, hsplit]

end AppendFile
end FileUtil

open FileUtil (AppendFile)

/-- What a `LogFile` is given when it is constructed, and the process that writes it. -/
structure LogFileConfig where
  basename : List UInt8
  rollSize : ℤ
  flushInterval : ℤ
  checkEveryN : ℕ
  hostname : List UInt8
  pid : ℕ
  deriving DecidableEq, Repr

/-- A file that has been opened, when it was, and the lines that it was given. The lines are there
for the statements only. -/
structure OpenedFile where
  file : AppendFile
  opened : ℤ
  lines : List (List UInt8)
  deriving DecidableEq, Repr

namespace OpenedFile

def new (name : List UInt8) (now : ℤ) : OpenedFile := ⟨.open_ name, now, []⟩

def flush (o : OpenedFile) : OpenedFile := { o with file := o.file.flush }

end OpenedFile

/-- The `LogFile` of LogFile.cc, with the files that it has closed. -/
structure RollingLogFile where
  config : LogFileConfig
  count : ℕ
  startOfPeriod : ℤ
  lastRoll : ℤ
  lastFlush : ℤ
  file : Option OpenedFile
  closed : List OpenedFile
  deriving DecidableEq, Repr

namespace RollingLogFile

def kRollPerSeconds : ℤ := 60 * 60 * 24

/-- The beginning of the day. -/
def period (now : ℤ) : ℤ := now.tdiv kRollPerSeconds * kRollPerSeconds

/-- `strftime` with the format `.%Y%m%d-%H%M%S.`. -/
def timebuf (now : ℤ) : List UInt8 :=
  let tm := gmtime now
  ascii "." ++ decimalInt (tm.year + 1900) ++ zeroPadded 2 (tm.mon + 1) ++ zeroPadded 2 tm.mday ++
    ascii "-" ++ zeroPadded 2 tm.hour ++ zeroPadded 2 tm.min ++ zeroPadded 2 tm.sec ++ ascii "."

def getLogFileName (config : LogFileConfig) (now : ℤ) : List UInt8 :=
  config.basename ++ timebuf now ++ config.hostname ++ ascii "." ++ decimal config.pid ++
    ascii ".log"

/-- `rollFile`, when the clock says `now`. The old file is closed, which flushes it. -/
def rollFile (f : RollingLogFile) (now : ℤ) : RollingLogFile :=
  if f.lastRoll < now then
    { f with
      lastRoll := now
      lastFlush := now
      startOfPeriod := period now
      file := some (.new (getLogFileName f.config now) now)
      closed := f.closed ++ (f.file.map OpenedFile.flush).toList }
  else
    f

def new (config : LogFileConfig) (now : ℤ) : RollingLogFile :=
  rollFile ⟨config, 0, 0, 0, 0, none, []⟩ now

/-- `file_`, which the members use without a check. -/
def getFile (f : RollingLogFile) : Code OpenedFile :=
  match f.file with
  | some o => return o
  | none => .error (.failed .logFileNull)

def flush (f : RollingLogFile) : Code RollingLogFile := do
  let o ← f.getFile
  return { f with file := some o.flush }

/-- What `append_unlocked` does every `checkEveryN_` lines. -/
def checkPeriod (f : RollingLogFile) (o : OpenedFile) (now now' : ℤ) : RollingLogFile :=
  if period now ≠ f.startOfPeriod then
    f.rollFile now'
  else if f.config.flushInterval < now - f.lastFlush then
    { f with lastFlush := now, file := some o.flush }
  else
    f

/-- What `append_unlocked` does when the line has been written to the file `o`. -/
def afterAppend (f : RollingLogFile) (o : OpenedFile) (now now' : ℤ) : RollingLogFile :=
  if f.config.rollSize < o.file.writtenBytes then
    f.rollFile now
  else if f.config.checkEveryN ≤ f.count + 1 then
    { f with count := 0 }.checkPeriod o now now'
  else
    { f with count := f.count + 1 }

/-- `append_unlocked`. The clock says `now` when it is read first and `now'` the second time, if it
is read at all. -/
def appendUnlocked (f : RollingLogFile) (logline : List UInt8) (writes : List (ℕ × Bool))
    (now now' : ℤ) : Code RollingLogFile := do
  let o ← f.getFile
  let file ← o.file.append logline writes
  let o := { o with file := file, lines := o.lines ++ [logline] }
  return { f with file := some o }.afterAppend o now now'

/-- The files in the order in which they were opened. -/
def files (f : RollingLogFile) : List OpenedFile := f.closed ++ f.file.toList

inductive Event where
  | append (logline : List UInt8) (writes : List (ℕ × Bool)) (now now' : ℤ)
  | flush
  | rollFile (now : ℤ)
  deriving DecidableEq

/-- A call of a member, under the mutex if there is one. -/
def step (f : RollingLogFile) : Event → Code RollingLogFile
  | .append logline writes now now' => f.appendUnlocked logline writes now now'
  | .flush => f.flush
  | .rollFile now => return f.rollFile now

namespace Event

/-- The stream does not fail. -/
def Writes : Event → Prop
  | .append _ writes _ _ => ∀ w ∈ writes, w.2 = false
  | _ => True

def lines : Event → List (List UInt8)
  | .append logline _ _ _ => [logline]
  | .flush | .rollFile _ => []

/-- What the clock says. -/
def readings : Event → List ℤ
  | .append _ _ now now' => [now, now']
  | .flush => []
  | .rollFile now => [now]

end Event

/-! ### The names of the files -/

/-- The end of the year 9999. -/
def yearsEnd : ℤ := 253402300800

lemma year_le {t t' : ℤ} (h : t ≤ t') : (gmtime t).year ≤ (gmtime t').year := by
  rcases h.lt_or_eq with h | rfl
  · have hlt := fields_gmtime_lt h
    simp only [Tm.fields, List.cons_lt_cons_iff] at hlt
    omega
  · exact le_rfl

lemma year_gmtime {t : ℤ} (h : 0 ≤ t) (h' : t < yearsEnd) :
    70 ≤ (gmtime t).year ∧ (gmtime t).year ≤ 8099 := by
  have hfirst : (gmtime 0).year = 70 := by decide
  have hlast : (gmtime (yearsEnd - 1)).year = 8099 := by decide
  have h0 := year_le h
  have h1 := year_le (Int.le_sub_one_of_lt h')
  omega

/-- The fields of a time have two digits, apart from the year. -/
lemma fields_mem_gmtime (t : ℤ) : (0 ≤ (gmtime t).mon + 1 ∧ (gmtime t).mon + 1 < 100) ∧
    (0 ≤ (gmtime t).mday ∧ (gmtime t).mday < 100) ∧ (0 ≤ (gmtime t).hour ∧ (gmtime t).hour < 100) ∧
    (0 ≤ (gmtime t).min ∧ (gmtime t).min < 100) ∧ 0 ≤ (gmtime t).sec ∧ (gmtime t).sec < 100 := by
  have hvalid := valid_date_gmtime t
  have hmonth := hvalid.one_le_month
  have hmonth' := hvalid.month_le
  have hday := hvalid.one_le_day
  have hday' := hvalid.day_le
  have hlen := Gregorian.monthLength_mem ((gmtime t).year + 1900) ((gmtime t).mon + 1)
  have htime : (gmtime t).hour = t % 86400 / 3600 ∧ (gmtime t).min = t % 86400 / 60 % 60 ∧
      (gmtime t).sec = t % 86400 % 60 := ⟨rfl, rfl, rfl⟩
  simp only [Tm.date] at hmonth hmonth' hday hday'
  omega

lemma timebuf_lt {t t' : ℤ} (h : 0 ≤ t) (hlt : t < t') (h' : t' < yearsEnd) (x x' : List UInt8) :
    timebuf t ++ x < timebuf t' ++ x' := by
  have hyear : ∀ {u : ℤ}, 0 ≤ u → u < yearsEnd →
      decimalInt ((gmtime u).year + 1900) = zeroPadded 4 ((gmtime u).year + 1900) := by
    intro u hu hu'
    obtain ⟨n, hn⟩ := Int.eq_ofNat_of_zero_le (by have := year_gmtime hu hu'; omega :
      0 ≤ (gmtime u).year + 1900)
    have := year_gmtime hu hu'
    rw [hn, decimalInt_natCast, zeroPadded_natCast (by omega) (by omega)]
  have hy := year_gmtime h (hlt.trans h')
  have hy' := year_gmtime (h.trans hlt.le) h'
  have hf := fields_mem_gmtime t
  have hf' := fields_mem_gmtime t'
  have hlex := fields_gmtime_lt hlt
  simp only [Tm.fields, List.cons_lt_cons_iff, List.lt_irrefl, and_false, or_false] at hlex
  simp only [timebuf, hyear h (hlt.trans h'), hyear (h.trans hlt.le) h', List.append_assoc]
  refine List.append_left_lt (zeroPadded_append_lt (by omega) (by omega) (by omega) ?_)
  refine hlex.imp (by omega) (And.imp (by omega) fun hlex => ?_)
  refine zeroPadded_append_lt (by omega) (by omega) (by omega) ?_
  refine hlex.imp (by omega) (And.imp (by omega) fun hlex => ?_)
  refine zeroPadded_append_lt (by omega) (by omega) (by omega) ?_
  refine hlex.imp (by omega) (And.imp (by omega) fun hlex => List.append_left_lt ?_)
  refine zeroPadded_append_lt (by omega) (by omega) (by omega) ?_
  refine hlex.imp (by omega) (And.imp (by omega) fun hlex => ?_)
  refine zeroPadded_append_lt (by omega) (by omega) (by omega) ?_
  refine hlex.imp (by omega) (And.imp (by omega) fun hlex => ?_)
  exact zeroPadded_append_lt (by omega) (by omega) (by omega) (.inl (by omega))

/-- Later files have larger names. -/
lemma getLogFileName_lt (config : LogFileConfig) {t t' : ℤ} (h : 0 ≤ t) (hlt : t < t')
    (h' : t' < yearsEnd) : getLogFileName config t < getLogFileName config t' := by
  simp only [getLogFileName, List.append_assoc]
  exact List.append_left_lt (timebuf_lt h hlt h' _ _)

/-! ### What the files hold -/

/-- A file holds the lines that it was given, under the name of the second it was opened in. -/
structure Holds (cfg : LogFileConfig) (o : OpenedFile) : Prop where
  content : o.file.content = o.lines.flatten
  flushed : o.file.flushed ≤ o.file.content.length
  name : o.file.name = getLogFileName cfg o.opened
  pos : 0 < o.opened
  lt : o.opened < yearsEnd

structure Inv (cfg : LogFileConfig) (f : RollingLogFile) (lines : List (List UInt8)) : Prop where
  config : f.config = cfg
  file : ∃ o, f.file = some o ∧ o.opened = f.lastRoll
  lines : f.files.flatMap OpenedFile.lines = lines
  holds : ∀ o ∈ f.files, Holds cfg o
  sorted : (f.files.map (·.opened)).Pairwise (· < ·)

variable {cfg : LogFileConfig} {f : RollingLogFile} {o : OpenedFile} {lines : List (List UInt8)}

lemma Holds.flush (h : Holds cfg o) : Holds cfg o.flush :=
  { h with flushed := le_rfl }

lemma holds_new {now : ℤ} (hpos : 0 < now) (hlt : now < yearsEnd) :
    Holds cfg (.new (getLogFileName cfg now) now) where
  content := rfl
  flushed := le_rfl
  name := rfl
  pos := hpos
  lt := hlt

lemma Holds.append (h : Holds cfg o) (logline : List UInt8) (written : ℕ) :
    Holds cfg { o with
      file := { o.file with content := o.file.content ++ logline, writtenBytes := written }
      lines := o.lines ++ [logline] } :=
  { h with
    content := by simp [h.content]
    flushed := by
      have := h.flushed
      simp only [List.length_append]
      omega }

lemma files_eq (ho : f.file = some o) : f.files = f.closed ++ [o] := by
  rw [files, ho]
  rfl

lemma inv_new {now : ℤ} (hpos : 0 < now) (hlt : now < yearsEnd) :
    (new cfg now).Inv cfg [] := by
  have hnew : new cfg now = ⟨cfg, 0, period now, now, now,
      some (.new (getLogFileName cfg now) now), []⟩ := if_pos hpos
  rw [hnew]
  exact {
    config := rfl
    file := ⟨_, rfl, rfl⟩
    lines := rfl
    holds := by simpa [files] using holds_new hpos hlt
    sorted := List.pairwise_singleton .. }

/-- The open file is given another line, or is flushed. -/
lemma Inv.setFile (h : f.Inv cfg lines) (ho : f.file = some o) {o' : OpenedFile}
    {more : List (List UInt8)} (hholds : Holds cfg o') (hopened : o'.opened = o.opened)
    (hlines : o'.lines = o.lines ++ more) :
    Inv cfg { f with file := some o' } (lines ++ more) := by
  have hold := h.holds
  have hsorted := h.sorted
  rw [files_eq ho, List.forall_mem_append] at hold
  rw [files_eq ho, List.map_append, List.map_singleton, ← hopened] at hsorted
  refine ⟨h.config, ⟨o', rfl, ?_⟩, ?_, ?_, ?_⟩
  · obtain ⟨u, hu, hroll⟩ := h.file
    cases ho.symm.trans hu
    exact hopened.trans hroll
  · simp [files, hlines, ← h.lines, ho]
  · exact List.forall_mem_append.mpr ⟨hold.1, by simpa using hholds⟩
  · simpa [files] using hsorted

lemma Inv.flushFile (h : f.Inv cfg lines) (ho : f.file = some o) (hhold : Holds cfg o) :
    Inv cfg { f with file := some o.flush } lines := by
  rw [← List.append_nil lines]
  exact h.setFile ho hhold.flush rfl (List.append_nil _).symm

lemma Inv.exists_file (h : f.Inv cfg lines) :
    ∃ o, f.file = some o ∧ o.opened = f.lastRoll ∧ Holds cfg o := by
  obtain ⟨o, ho, hroll⟩ := h.file
  exact ⟨o, ho, hroll, h.holds o (by simp [files, ho])⟩

/-- No file was opened later than the open one. -/
lemma Inv.opened_le (h : f.Inv cfg lines) : ∀ o ∈ f.files, o.opened ≤ f.lastRoll := by
  obtain ⟨o, ho, hroll⟩ := h.file
  have hsorted := h.sorted
  rw [files_eq ho, List.map_append, List.pairwise_append] at hsorted
  rw [files_eq ho, List.forall_mem_append]
  refine ⟨fun u hu => ?_, by simp [hroll]⟩
  rw [← hroll]
  exact (hsorted.2.2 _ (List.mem_map_of_mem hu) _ (by simp)).le

lemma Inv.rollFile (h : f.Inv cfg lines) {now : ℤ} (hlt : now < yearsEnd) :
    (f.rollFile now).Inv cfg lines := by
  by_cases hnow : f.lastRoll < now
  swap
  · rw [RollingLogFile.rollFile, if_neg hnow]
    exact h
  obtain ⟨o, ho, hroll, hhold⟩ := h.exists_file
  have hflush := h.flushFile ho hhold
  have hfiles : (f.rollFile now).files = { f with file := some o.flush }.files ++
      [.new (getLogFileName cfg now) now] := by
    simp [RollingLogFile.rollFile, hnow, files, ho, h.config]
  have hpos : 0 < now := by have := hhold.pos; omega
  refine ⟨?_, ?_, ?_, ?_, ?_⟩
  · rw [RollingLogFile.rollFile, if_pos hnow]
    exact h.config
  · rw [RollingLogFile.rollFile, if_pos hnow]
    exact ⟨_, rfl, rfl⟩
  · rw [hfiles, List.flatMap_append, hflush.lines]
    simp [OpenedFile.new]
  · rw [hfiles, List.forall_mem_append]
    exact ⟨hflush.holds, by simpa using holds_new hpos hlt⟩
  · rw [hfiles, List.map_append, List.pairwise_append]
    refine ⟨hflush.sorted, List.pairwise_singleton .., ?_⟩
    simp only [List.mem_map, List.map_cons, List.map_nil, List.mem_singleton]
    rintro _ ⟨u, hu, rfl⟩ _ rfl
    exact (hflush.opened_le u hu).trans_lt hnow

/-- What an append does behind the line: it opens another file, flushes, or counts. -/
lemma Inv.afterAppend (h : f.Inv cfg lines) (ho : f.file = some o) (hhold : Holds cfg o)
    {now now' : ℤ} (hlt : now < yearsEnd) (hlt' : now' < yearsEnd) :
    (f.afterAppend o now now').Inv cfg lines := by
  have hcount : ∀ n, Inv cfg { f with count := n } lines := fun n => { h with }
  unfold RollingLogFile.afterAppend
  split
  · exact h.rollFile hlt
  split
  · unfold checkPeriod
    split
    · exact (hcount 0).rollFile hlt'
    split
    · exact { (hcount 0).flushFile ho hhold with }
    · exact hcount 0
  · exact hcount _

lemma getFile_eq (ho : f.file = some o) : f.getFile = .ok o := by
  rw [getFile, ho]
  rfl

lemma Inv.step (h : f.Inv cfg lines) {e : Event} (hw : e.Writes)
    (hlt : ∀ r ∈ e.readings, r < yearsEnd) :
    Safe (f.step e) fun f' => f'.Inv cfg (lines ++ e.lines) := by
  obtain ⟨o, ho, -, hhold⟩ := h.exists_file
  cases e with
  | append logline writes now now' =>
    simp only [Event.readings, List.mem_cons, List.not_mem_nil, or_false, forall_eq_or_imp,
      forall_eq] at hlt
    rw [RollingLogFile.step, appendUnlocked, getFile_eq ho, ok_bind, safe_bind]
    refine (AppendFile.appendFrom_spec hw o.file (Nat.zero_le _)).mono ?_
    rintro file rfl
    rw [List.drop_zero, safe_pure]
    have hhold' := hhold.append logline (o.file.writtenBytes + logline.length)
    exact Inv.afterAppend (h.setFile ho hhold' rfl rfl) rfl hhold' hlt.1 hlt.2
  | flush =>
    rw [RollingLogFile.step, RollingLogFile.flush, getFile_eq ho, ok_bind, Event.lines,
      List.append_nil]
    exact h.flushFile ho hhold
  | rollFile now =>
    rw [Event.lines, List.append_nil]
    exact h.rollFile (hlt now (List.mem_singleton_self now))

lemma foldl_lines (lines : List (List UInt8)) (es : List Event) :
    es.foldl (fun lines e => lines ++ e.lines) lines = lines ++ es.flatMap Event.lines := by
  induction es generalizing lines with
  | nil => simp
  | cons e es ih => simp [ih]

/-- As long as the stream does not fail, the files of a `LogFile` in the order of their names hold
the lines that were appended to it, whole and in the order in which they were appended. This needs
the clock to say a time after 1970 when the first file is opened, and never one after 9999. -/
theorem files_hold_lines (config : LogFileConfig) {start : ℤ} (hstart : 0 < start)
    (hend : start < yearsEnd) {es : List Event} (hwrites : ∀ e ∈ es, e.Writes)
    (hreadings : ∀ e ∈ es, ∀ r ∈ e.readings, r < yearsEnd) :
    Safe (run RollingLogFile.step (new config start) es) fun f =>
      f.files.flatMap OpenedFile.lines = es.flatMap Event.lines ∧
      (∀ o ∈ f.files, o.file.content = o.lines.flatten) ∧
      (f.files.map (·.file.name)).Pairwise (· < ·) := by
  have hrun := run_follows (R := Inv config) (f := fun lines (e : Event) => lines ++ e.lines)
    (P := fun _ e => e.Writes ∧ ∀ r ∈ e.readings, r < yearsEnd)
    (fun f lines e h he => h.step he.1 he.2) (inv_new hstart hend)
    (along_of_forall (fun e he _ => ⟨hwrites e he, hreadings e he⟩) _)
  refine hrun.mono fun f h => ⟨?_, fun o ho => (h.holds o ho).content, ?_⟩
  · rw [h.lines, foldl_lines]
    rfl
  · have hsorted := h.sorted
    rw [List.pairwise_map] at hsorted ⊢
    refine hsorted.imp_of_mem fun {o o'} ho ho' hlt => ?_
    rw [(h.holds o ho).name, (h.holds o' ho').name]
    exact getLogFileName_lt config (h.holds o ho).pos.le hlt (h.holds o' ho').lt

/-- Two lines in one second, and a third one on the next day. -/
theorem files_hold_three_lines :
    Safe (run RollingLogFile.step (new ⟨ascii "app", 4, 3, 1, ascii "host", 7⟩ 86390)
      [.append (ascii "ab\n") [(3, false)] 86390 86390,
        .append (ascii "cd\n") [(1, false), (2, false)] 86390 86390,
        .append (ascii "ef\n") [(3, false)] 86400 86401]) fun f =>
      f.files.flatMap OpenedFile.lines = [ascii "ab\n", ascii "cd\n", ascii "ef\n"] ∧
      (∀ o ∈ f.files, o.file.content = o.lines.flatten) ∧
      (f.files.map (·.file.name)).Pairwise (· < ·) :=
  files_hold_lines ⟨ascii "app", 4, 3, 1, ascii "host", 7⟩ (by decide) (by decide)
    (by simp [Event.Writes]) (by simp [Event.readings, yearsEnd])

/-! ### What the logger sees of it -/

/-- What has been flushed or closed. -/
def onDisk (f : RollingLogFile) : List UInt8 :=
  f.closed.flatMap (·.file.content) ++
    f.file.toList.flatMap fun o => o.file.content.take o.file.flushed

/-- What the file of the logger makes of a call. It knows nothing of files that are rolled. -/
def observe (q : LogFile) : Event → LogFile
  | .append logline _ _ _ => q.append logline
  | .flush => q.flush
  | .rollFile _ => q

lemma onDisk_eq (ho : f.file = some o) :
    f.onDisk = f.closed.flatMap (·.file.content) ++ o.file.content.take o.file.flushed := by
  simp [onDisk, ho]

/-- A flushed file is there as a whole. -/
lemma onDisk_flush (ho : f.file = some o) : { f with file := some o.flush }.onDisk =
    f.files.flatMap (·.file.content) := by
  rw [onDisk_eq rfl, files_eq ho]
  simp [OpenedFile.flush, AppendFile.flush]

lemma onDisk_initial (f : RollingLogFile) : f.onDisk <+: f.files.flatMap (·.file.content) := by
  cases ho : f.file with
  | none => simp [onDisk, files, ho]
  | some o =>
    rw [onDisk_eq ho, files_eq ho, List.flatMap_append, List.prefix_append_right_inj]
    simpa using List.take_prefix ..

lemma onDisk_rollFile (f : RollingLogFile) (now : ℤ) : f.onDisk <+: (f.rollFile now).onDisk := by
  rw [rollFile]
  split
  · refine f.onDisk_initial.trans ?_
    cases ho : f.file with
    | none => simp [onDisk, files, ho, OpenedFile.new, AppendFile.open_]
    | some o => simp [onDisk, files, ho, OpenedFile.new, AppendFile.open_, OpenedFile.flush,
        AppendFile.flush]
  · exact List.prefix_rfl

lemma onDisk_afterAppend (ho : f.file = some o) (now now' : ℤ) :
    f.onDisk <+: (f.afterAppend o now now').onDisk := by
  unfold afterAppend
  split
  · exact f.onDisk_rollFile now
  split
  · unfold checkPeriod
    split
    · exact onDisk_rollFile { f with count := 0 } now'
    split
    · have hdisk := f.onDisk_initial
      rw [← onDisk_flush ho] at hdisk
      exact hdisk
    · exact List.prefix_rfl
  · exact List.prefix_rfl

/-- What the logger has been told is in the file is there. -/
structure Refines (cfg : LogFileConfig) (f : RollingLogFile) (q : LogFile) : Prop where
  inv : f.Inv cfg q.pieces
  flushed : q.flushed ≤ q.pieces.length
  written : q.written <+: f.onDisk

lemma Inv.contents (h : f.Inv cfg lines) :
    f.files.flatMap (·.file.content) = lines.flatten := by
  rw [← h.lines, List.flatMap_def, List.flatMap_def, List.flatten_flatten, List.map_map]
  congr 1
  exact List.map_congr_left fun o ho => (h.holds o ho).content

lemma Refines.step {q : LogFile} (h : f.Refines cfg q) {e : Event} (hw : e.Writes)
    (hlt : ∀ r ∈ e.readings, r < yearsEnd) :
    Safe (f.step e) fun f' => f'.Refines cfg (observe q e) := by
  obtain ⟨o, ho, -, hhold⟩ := h.inv.exists_file
  refine ((h.inv.step hw hlt).and_of_ok (R := fun f' => (observe q e).written <+: f'.onDisk)
    fun f' hf' => ?_).mono ?_
  · cases e with
    | append logline writes now now' =>
      rw [RollingLogFile.step, appendUnlocked, getFile_eq ho, ok_bind, bind_eq_ok] at hf'
      obtain ⟨file, hfile, hf'⟩ := hf'
      cases hf'
      have hspec := (AppendFile.appendFrom_spec hw o.file (Nat.zero_le _)).of_ok hfile
      have hwritten : (observe q (.append logline writes now now')).written = q.written := by
        rw [observe, LogFile.written, LogFile.append, List.take_append_of_le_length h.flushed,
          LogFile.written]
      refine hwritten ▸ h.written.trans (List.IsPrefix.trans ?_ (onDisk_afterAppend rfl now now'))
      rw [onDisk_eq ho, onDisk_eq rfl, hspec, List.prefix_append_right_inj]
      simp only [List.drop_zero]
      rw [List.take_append_of_le_length hhold.flushed]
    | flush =>
      rw [RollingLogFile.step, RollingLogFile.flush, getFile_eq ho, ok_bind] at hf'
      cases hf'
      rw [onDisk_flush ho, h.inv.contents, observe, LogFile.written, LogFile.flush,
        List.take_length]
    | rollFile now =>
      cases hf'
      exact h.written.trans (f.onDisk_rollFile now)
  · rintro f' ⟨hinv, hwritten⟩
    refine ⟨?_, ?_, hwritten⟩
    · cases e with
      | append logline writes now now' => exact hinv
      | flush | rollFile now => simpa [Event.lines, observe, LogFile.flush] using hinv
    · have := h.flushed
      cases e <;> simp [observe, LogFile.append, LogFile.flush] <;> omega

/-- To the logger a `LogFile` is the file that it takes it to be: all that it appended is in the
files, and what it flushed is on the disk, whatever files the lines were put in. -/
theorem refines_logFile (config : LogFileConfig) {start : ℤ} (hstart : 0 < start)
    (hend : start < yearsEnd) {es : List Event} (hwrites : ∀ e ∈ es, e.Writes)
    (hreadings : ∀ e ∈ es, ∀ r ∈ e.readings, r < yearsEnd) :
    Safe (run RollingLogFile.step (new config start) es) fun f =>
      let q := es.foldl observe ⟨[], 0⟩
      f.files.flatMap (·.file.content) = q.pieces.flatten ∧ q.written <+: f.onDisk := by
  have hnew : Refines config (new config start) ⟨[], 0⟩ :=
    ⟨inv_new hstart hend, le_rfl, List.nil_prefix⟩
  have hrun := run_follows (R := Refines config) (f := observe)
    (P := fun _ e => e.Writes ∧ ∀ r ∈ e.readings, r < yearsEnd)
    (fun f q e h he => h.step he.1 he.2) hnew
    (along_of_forall (fun e he _ => ⟨hwrites e he, hreadings e he⟩) _)
  exact hrun.mono fun f h => ⟨h.inv.contents, h.written⟩

/-- A line is flushed, another one is not. -/
theorem refines_logFile_two_lines :
    Safe (run RollingLogFile.step (new ⟨ascii "app", 100, 3, 1024, ascii "host", 7⟩ 86390)
      [.append (ascii "ab\n") [(3, false)] 86390 86390, .flush,
        .append (ascii "cd\n") [(3, false)] 86391 86391]) fun f =>
      f.files.flatMap (·.file.content) = ascii "ab\ncd\n" ∧ ascii "ab\n" <+: f.onDisk :=
  refines_logFile ⟨ascii "app", 100, 3, 1024, ascii "host", 7⟩ (by decide) (by decide)
    (by simp [Event.Writes]) (by simp [Event.readings, yearsEnd])

end RollingLogFile
end Muduo

import Muduo.Base.LogStream
import Muduo.Base.TimeZone

/-!
# Logging

The log statement of `muduo/base/Logging.{h,cc}`: a `Logger` writes the time, the thread and the
level into the buffer of its stream, the statement adds what follows, and the destructor closes the
record with the name of the source file and the line. The buffer is of a fixed size, and a piece
that does not fit is dropped.

## Main results

* `endsProperly_iff`: how full the buffer may be for the end of the record to fit.
-/

namespace Muduo

open Machine

namespace Logging

open LogStream (Operand)

inductive LogLevel where
  | trace
  | debug
  | info
  | warn
  | error
  | fatal
  | numLogLevels
  deriving DecidableEq

/-- `LogLevelName[level]`. -/
def logLevelName : LogLevel → Code (List UInt8)
  | .trace => return ascii "TRACE "
  | .debug => return ascii "DEBUG "
  | .info => return ascii "INFO  "
  | .warn => return ascii "WARN  "
  | .error => return ascii "ERROR "
  | .fatal => return ascii "FATAL "
  | .numLogLevels => .error (.failed .logLevelName)

/-! ### The source file -/

/-- `data_` and `size_`. -/
structure SourceFile where
  name : List UInt8
  deriving DecidableEq

namespace SourceFile

/-- What follows the last slash of a C string. -/
def behindSlash (str : List UInt8) : List UInt8 := (str.reverse.takeWhile (· ≠ 47)).reverse

/-- The name of an array, which may go on behind the end of the C string in it. -/
def ofArray (arr : List UInt8) : SourceFile :=
  let str := arr.takeWhile (· ≠ 0)
  ⟨behindSlash str ++ arr.drop str.length⟩

def ofFilename (filename : List UInt8) : SourceFile := ⟨behindSlash filename⟩

end SourceFile

/-! ### The beginning of a record -/

/-- `T(str, len)`. -/
def T (str : List UInt8) (len : ℕ) : Code (List UInt8) := do
  check .logTextLength (str.length = len)
  return str

/-- The text of a `Fmt`. -/
def fmt (text : List UInt8) : Code (List UInt8) := do
  check .fmtLength (text.length < 32)
  return text

/-- The text of a broken-down time, as `snprintf` leaves it in `t_time`. -/
def tmText (tm : Tm) : Code (List UInt8) := do
  let text := padded 4 (tm.year + 1900) ++ zeroPadded 2 (tm.mon + 1) ++ zeroPadded 2 tm.mday ++
    ascii " " ++ zeroPadded 2 tm.hour ++ ascii ":" ++ zeroPadded 2 tm.min ++ ascii ":" ++
    zeroPadded 2 tm.sec
  check .logTimeLength (text.length = 17)
  return snprintf 64 text

/-- The variables of a thread. -/
structure Thread where
  tid : BitVec 32
  time : List UInt8
  lastSecond : ℤ
  deriving DecidableEq

namespace Thread

def tidString (thread : Thread) : List UInt8 :=
  snprintf 32 (padded 5 thread.tid.toInt ++ ascii " ")

/-- The part of `formatTime` that keeps the text of the current second. -/
def updateTime (thread : Thread) (zone : TimeZone.Zone) (seconds : ℤ) : Code Thread :=
  if seconds ≠ thread.lastSecond then do
    let tm ← if zone.valid then zone.toLocalTime seconds else .ok (gmtime seconds)
    let text ← tmText tm
    return { thread with time := text, lastSecond := seconds }
  else
    return thread

end Thread

def kMicroSecondsPerSecond : ℤ := 1000 * 1000

/-- What a log statement finds: the time zone of the log, the time, the variables of its thread,
`errno` and the texts of `strerror_r`. -/
structure Context where
  zone : TimeZone.Zone
  now : ℤ
  thread : Thread
  errno : BitVec 32
  strerror : BitVec 32 → List UInt8

namespace Context

def formatTime (ctx : Context) (stream : LogStream) : Code (LogStream × Thread) := do
  let seconds := ctx.now.tdiv kMicroSecondsPerSecond
  let microseconds := ctx.now.tmod kMicroSecondsPerSecond
  let thread ← ctx.thread.updateTime ctx.zone seconds
  let len := if ctx.zone.valid then 8 else 9
  let us ← fmt (ascii "." ++ zeroPadded 6 microseconds ++
    ascii (if ctx.zone.valid then " " else "Z "))
  check .logMicrosecondsLength (us.length = len)
  let time ← T thread.time 17
  let us ← T us len
  return ((stream.append time).append us, thread)

end Context

structure Logger where
  stream : LogStream
  level : LogLevel
  line : BitVec 32
  basename : SourceFile
  deriving DecidableEq

/-- The arguments of a constructor behind the file and the line. -/
inductive Arguments where
  | none
  | level (level : LogLevel)
  | func (level : LogLevel) (func : Option (List UInt8))
  | toAbort (toAbort : Bool)

namespace Logger

/-- The constructor of `Impl`. -/
def impl (ctx : Context) (level : LogLevel) (savedErrno : BitVec 32) (file : SourceFile)
    (line : BitVec 32) : Code (Logger × Thread) := do
  let (stream, thread) ← ctx.formatTime []
  let tid ← T thread.tidString thread.tidString.length
  let name ← T (← logLevelName level) 6
  let stream := (stream.append tid).append name
  let stream := if savedErrno ≠ 0
    then [.cString (some (ctx.strerror savedErrno)), .cString (some (ascii " (errno=")),
      .int savedErrno, .cString (some (ascii ") "))].foldl LogStream.insert stream
    else stream
  return (⟨stream, level, line, file⟩, thread)

def new (ctx : Context) (file : SourceFile) (line : BitVec 32) : Arguments → Code (Logger × Thread)
  | .none => impl ctx .info 0 file line
  | .level level => impl ctx level 0 file line
  | .func level func => do
    let (logger, thread) ← impl ctx level 0 file line
    let stream := (logger.stream.insert (.cString func)).insert (.char 32)
    return ({ logger with stream }, thread)
  | .toAbort toAbort => impl ctx (if toAbort then .fatal else .error) ctx.errno file line

/-- The operands of the statement. -/
def insertAll (logger : Logger) (ops : List Operand) : Logger :=
  { logger with stream := ops.foldl LogStream.insert logger.stream }

def finish (logger : Logger) : Logger :=
  let stream := logger.stream.insert (.cString (some (ascii " - ")))
  let stream := stream.append logger.basename.name
  let stream := stream.insert (.char 58)
  let stream := stream.insert (.int logger.line)
  { logger with stream := stream.insert (.char 10) }

/-- What the destructor passes to `g_output`, and whether it aborts. -/
def destroy (logger : Logger) : List UInt8 × Bool :=
  (logger.finish.stream, logger.level = .fatal)

/-- The logger of a log statement at a line of a file, when its destructor is called. -/
def Written (file : SourceFile) (line : BitVec 32) (logger : Logger) : Prop :=
  ∃ ctx args logger₀ thread ops, new ctx file line args = .ok (logger₀, thread) ∧
    logger = logger₀.insertAll ops

end Logger

/-- The end of a record. -/
def trailer (file : SourceFile) (line : BitVec 32) : List UInt8 :=
  ascii " - " ++ file.name ++ ascii ":" ++ decimalInt line.toInt ++ ascii "\n"

/-! ### The fill level -/

lemma T_eq_ok {str text : List UInt8} {len : ℕ} (h : T str len = .ok text) :
    str.length = len ∧ text = str := by
  obtain ⟨_, hcheck, htext⟩ := bind_eq_ok.mp h
  cases htext
  exact ⟨check_eq_ok.mp hcheck, rfl⟩

lemma length_decimalInt_int (v : BitVec 32) : (decimalInt v.toInt).length ≤ 11 := by
  refine length_decimalInt_le (k := 9) ?_
  have := v.isLt
  rw [BitVec.toInt_eq_toNat_cond]
  split <;> omega

lemma length_tidString (thread : Thread) :
    6 ≤ thread.tidString.length ∧ thread.tidString.length ≤ 12 := by
  have hint := length_decimalInt_int thread.tid
  have hlen : (padded 5 thread.tid.toInt ++ ascii " ").length =
      max 5 (decimalInt thread.tid.toInt).length + 1 := by
    rw [List.length_append, length_padded]
    rfl
  rw [Thread.tidString, snprintf, List.take_of_length_le (by omega), hlen]
  omega

lemma Context.length_formatTime {ctx : Context} {stream : LogStream} {thread : Thread}
    (h : ctx.formatTime [] = .ok (stream, thread)) : 25 ≤ stream.length ∧ stream.length ≤ 26 := by
  rw [Context.formatTime] at h
  obtain ⟨thread', -, h⟩ := bind_eq_ok.mp h
  obtain ⟨us, -, h⟩ := bind_eq_ok.mp h
  obtain ⟨_, -, h⟩ := bind_eq_ok.mp h
  obtain ⟨time, htime, h⟩ := bind_eq_ok.mp h
  obtain ⟨us', hus, hpure⟩ := bind_eq_ok.mp h
  obtain ⟨hlen, rfl⟩ := T_eq_ok htime
  obtain ⟨hlen', rfl⟩ := T_eq_ok hus
  cases hpure
  have hbuffer : kSmallBuffer = 4000 := rfl
  have hcases : us'.length = 8 ∨ us'.length = 9 := by
    rw [hlen']
    split
    · exact .inl rfl
    · exact .inr rfl
  rw [LogStream.append_append_eq (by rw [List.length_nil]; omega), List.nil_append,
    List.length_append]
  omega

namespace Logger

variable {ctx : Context} {file : SourceFile} {line : BitVec 32} {logger : Logger} {thread : Thread}

/-- The buffer holds the beginning of a record, and is not full. -/
structure Started (file : SourceFile) (line : BitVec 32) (logger : Logger) : Prop where
  basename : logger.basename = file
  line : logger.line = line
  le_length : 37 ≤ logger.stream.length
  length_lt : logger.stream.length < kSmallBuffer

lemma Started.insertAll (h : Started file line logger) (ops : List Operand) :
    Started file line (logger.insertAll ops) := by
  obtain ⟨hlt, hstart⟩ := LogStream.foldl_insert ops h.length_lt
  exact ⟨h.basename, h.line, h.le_length.trans hstart.length_le, hlt⟩

lemma started_impl {level : LogLevel} {savedErrno : BitVec 32}
    (h : impl ctx level savedErrno file line = .ok (logger, thread)) :
    Started file line logger := by
  rw [impl] at h
  obtain ⟨⟨stream, thread'⟩, htime, h⟩ := bind_eq_ok.mp h
  obtain ⟨tid, htid, h⟩ := bind_eq_ok.mp h
  obtain ⟨_, -, h⟩ := bind_eq_ok.mp h
  obtain ⟨name, hname, hpure⟩ := bind_eq_ok.mp h
  obtain ⟨-, rfl⟩ := T_eq_ok htid
  obtain ⟨hname, rfl⟩ := T_eq_ok hname
  have hstream := Context.length_formatTime htime
  have htid := length_tidString thread'
  have hbuffer : kSmallBuffer = 4000 := rfl
  rw [LogStream.append_append_eq (by omega)] at hpure
  have hhead : Started file line ⟨stream ++ thread'.tidString ++ name, level, line, file⟩ := by
    refine ⟨rfl, rfl, ?_, ?_⟩
    · simp only [List.length_append, hname]
      omega
    · simp only [List.length_append, hname]
      omega
  cases hpure
  split
  · exact hhead.insertAll _
  · exact hhead

lemma started_new {args : Arguments} (h : new ctx file line args = .ok (logger, thread)) :
    Started file line logger := by
  cases args with
  | none => exact started_impl h
  | level level => exact started_impl h
  | toAbort toAbort => exact started_impl h
  | func level func =>
    obtain ⟨⟨logger', thread'⟩, himpl, hpure⟩ := bind_eq_ok.mp h
    cases hpure
    exact (started_impl himpl).insertAll [.cString func, .char 32]

lemma Written.started (h : Written file line logger) : Started file line logger := by
  obtain ⟨ctx, args, logger₀, thread, ops, hnew, rfl⟩ := h
  exact (started_new hnew).insertAll ops

/-! ### The end of a record -/

lemma finish_stream : logger.finish.stream =
    ((((logger.stream.append (ascii " - ")).append logger.basename.name).append [58]).formatInteger
      logger.line.toInt).append [10] := by
  simp only [finish, LogStream.insert, LogStream.appendCString, Option.getD_some]

/-- The line number is written if there is room for any number behind the colon. -/
lemma append_line {T : LogStream} (line : BitVec 32)
    (h : T.length + 1 + kMaxNumericSize ≤ kSmallBuffer) :
    ((T.append [58]).formatInteger line.toInt).append [10] =
      T ++ (ascii ":" ++ decimalInt line.toInt ++ ascii "\n") := by
  have hnumeric : kMaxNumericSize = 32 := rfl
  have hdigits := length_decimalInt_int line
  have hcolon : T.append [58] = T ++ [58] :=
    LogStream.append_eq (by rw [List.length_singleton]; omega)
  have hline : (T.append [58]).formatInteger line.toInt = T ++ [58] ++ decimalInt line.toInt := by
    rw [hcolon]
    exact LogStream.formatInteger_eq (by rw [List.length_append]; exact h)
  rw [hline, LogStream.append_eq (by
    simp only [List.length_append, List.length_singleton]
    omega)]
  simp only [List.append_assoc]
  rfl

/-- The end of the record is written if there is room for any line number behind the file name. -/
lemma finish_eq (h : logger.stream.length + 3 + logger.basename.name.length + 1 + kMaxNumericSize ≤
    kSmallBuffer) :
    logger.finish.stream = logger.stream ++ trailer logger.basename logger.line := by
  have hnumeric : kMaxNumericSize = 32 := rfl
  have hdash : (ascii " - ").length = 3 := rfl
  have hname : (logger.stream.append (ascii " - ")).append logger.basename.name =
      logger.stream ++ ascii " - " ++ logger.basename.name :=
    LogStream.append_append_eq (by omega)
  rw [finish_stream, hname, append_line logger.line, trailer]
  · simp only [List.append_assoc]
  · rw [List.length_append, List.length_append, hdash]
    exact h

lemma subset_of_suffix {l rest T P : List UInt8} (h : l ++ rest <:+ T ++ P)
    (hlen : P.length ≤ rest.length) : l ⊆ T := by
  obtain ⟨X, hX⟩ := h
  have hstart : X ++ l <+: T ++ P := ⟨rest, by rw [List.append_assoc, hX]⟩
  have hlength := congrArg List.length hX
  simp only [List.length_append] at hlength
  have hsub := (List.prefix_of_prefix_length_le hstart (List.prefix_append T P)
    (by rw [List.length_append]; omega)).subset
  exact fun a ha => hsub (List.mem_append_right X ha)

/-- What the dash and the file name add to a text, if the whole trailer does not fit. -/
lemma append_dash_name {T name : List UInt8}
    (h : kSmallBuffer < T.length + 3 + name.length + 1 + kMaxNumericSize) :
    ∃ P, (LogStream.append (LogStream.append T (ascii " - ")) name) = T ++ P ∧
      P.length ≤ 3 + name.length ∧
      ((T ++ P).length + 1 + kMaxNumericSize ≤ kSmallBuffer → P.length ≤ name.length) := by
  have hbuffer : kSmallBuffer = 4000 := rfl
  have hnumeric : kMaxNumericSize = 32 := rfl
  have hdash : (ascii " - ").length = 3 := rfl
  rcases LogStream.append_cases T (ascii " - ") with ⟨e₁, h₁⟩ | ⟨e₁, h₁⟩
  · rw [e₁]
    rcases LogStream.append_cases (T ++ ascii " - ") name with ⟨e₂, h₂⟩ | ⟨e₂, h₂⟩
    · refine ⟨ascii " - " ++ name, by rw [e₂, List.append_assoc], ?_, fun hroom => ?_⟩
      · rw [List.length_append, hdash]
      · simp only [List.length_append] at hroom
        omega
    · refine ⟨_, e₂, by omega, fun hroom => ?_⟩
      rw [List.length_append] at h₂ hroom
      omega
  · rw [e₁]
    rcases LogStream.append_cases T name with ⟨e₂, h₂⟩ | ⟨e₂, h₂⟩
    · exact ⟨name, e₂, by omega, fun _ => le_rfl⟩
    · exact ⟨[], by rw [e₂, List.append_nil], Nat.zero_le _, fun _ => Nat.zero_le _⟩

/-- Otherwise only a text with a dash can look like it. -/
lemma not_suffix_finish (h : kSmallBuffer <
      logger.stream.length + 3 + logger.basename.name.length + 1 + kMaxNumericSize)
    (hdash : 45 ∉ logger.stream) :
    ¬ trailer logger.basename logger.line <:+ logger.finish.stream := by
  intro hsuffix
  have hbuffer : kSmallBuffer = 4000 := rfl
  have hnumeric : kMaxNumericSize = 32 := rfl
  have hdigits := length_decimalInt_int logger.line
  obtain ⟨l, b, hlast, hb⟩ := exists_decimalInt_eq logger.line.toInt
  have hpos : 1 ≤ (decimalInt logger.line.toInt).length := by
    rw [hlast, List.length_append, List.length_singleton]
    omega
  -- The dash of the trailer is not in the text, so it is in what was added.
  have hadded : ∀ P, trailer logger.basename logger.line <:+ logger.stream ++ P →
      logger.basename.name.length + (1 + (decimalInt logger.line.toInt).length + 1) < P.length := by
    intro P hs
    rw [trailer, List.append_assoc, List.append_assoc, List.append_assoc] at hs
    refine not_le.mp fun hlen => hdash (subset_of_suffix hs ?_ (by decide))
    simp only [List.length_append]
    exact hlen
  obtain ⟨P, hP, hle, hroom⟩ := append_dash_name h
  rw [finish_stream, hP] at hsuffix
  rcases Nat.lt_or_ge kSmallBuffer ((logger.stream ++ P).length + 1 + kMaxNumericSize) with
    hfull | hfits
  · rcases LogStream.append_cases (logger.stream ++ P) [58] with ⟨e₃, h₃⟩ | ⟨e₃, h₃⟩
    · -- A colon is where the last digit should be.
      rw [e₃, LogStream.formatInteger_of_lt (by rw [List.length_append]; exact hfull), trailer,
        hlast, ← List.append_assoc] at hsuffix
      have hcolon : b ≠ 58 := by
        rintro rfl
        exact absurd hb (by decide)
      rcases LogStream.append_cases (logger.stream ++ P ++ [58]) [10] with ⟨e₅, -⟩ | ⟨e₅, -⟩
      · rw [e₅] at hsuffix
        obtain ⟨X, hX⟩ := hsuffix
        rw [← List.append_assoc, ← List.append_assoc] at hX
        have hX' := List.append_cancel_right hX
        exact hcolon (List.singleton_injective (List.append_inj' hX' rfl).2)
      · rw [e₅] at hsuffix
        obtain ⟨X, hX⟩ := hsuffix
        rw [← List.append_assoc] at hX
        exact absurd (List.append_inj' hX rfl).2 (by decide)
    · rw [List.length_singleton] at h₃
      rw [e₃, LogStream.formatInteger_of_lt (by omega)] at hsuffix
      rcases LogStream.append_cases (logger.stream ++ P) [10] with ⟨-, h₅⟩ | ⟨e₅, -⟩
      · rw [List.length_singleton] at h₅
        omega
      · rw [e₅] at hsuffix
        have := hadded P hsuffix
        omega
  · -- Only the file name is missing, and it is longer than what was added instead.
    have hname := hroom hfits
    rw [append_line logger.line hfits, List.append_assoc] at hsuffix
    have hlt := hadded _ hsuffix
    rw [List.length_append, List.length_append, List.length_append,
      show (ascii ":").length = 1 from rfl, show (ascii "\n").length = 1 from rfl] at hlt
    omega

lemma destroy_fst : logger.destroy.1 = logger.finish.stream := by rw [destroy]

lemma Written.not_suffix_destroy (hwritten : Written file line logger)
    (h : kSmallBuffer < logger.stream.length + 3 + file.name.length + 1 + kMaxNumericSize)
    (hdash : 45 ∉ logger.stream) : ¬ trailer file line <:+ logger.destroy.1 := by
  have hstarted := hwritten.started
  rw [← hstarted.basename] at h
  rw [destroy_fst, ← hstarted.basename, ← hstarted.line]
  exact not_suffix_finish h hdash

end Logger

/-! ### Records of every length -/

/-- A log statement on a thread that has logged before in the same second. -/
def context : Context where
  zone := .fixed 0 (ascii "UTC")
  now := 1700000000000000
  thread := ⟨12345, ascii "20231114 22:13:20", 1700000000⟩
  errno := 0
  strerror _ := []

/-- What the constructor writes. -/
def head : LogStream := ascii "20231114 22:13:20.000000 12345 WARN  "

/-- The logger of `LOG_WARN << text`, where the text has `n` characters. -/
def warning (file : SourceFile) (line : BitVec 32) (n : ℕ) : Logger :=
  (Logger.mk head .warn line file).insertAll [.string (List.replicate n 120)]

section

variable {file : SourceFile} {line : BitVec 32} {n : ℕ}

lemma written_warning : (warning file line n).Written file line :=
  ⟨context, .level .warn, _, context.thread, _, rfl, rfl⟩

lemma stream_warning (hn : 37 + n < kSmallBuffer) :
    (warning file line n).stream = head ++ List.replicate n 120 :=
  LogStream.append_eq (by rw [List.length_replicate]; exact hn)

lemma length_warning (hn : 37 + n < kSmallBuffer) :
    (warning file line n).stream.length = 37 + n := by
  rw [stream_warning hn, List.length_append, List.length_replicate]
  rfl

lemma no_dash_warning (hn : 37 + n < kSmallBuffer) : 45 ∉ (warning file line n).stream := by
  rw [stream_warning hn, List.mem_append, not_or]
  refine ⟨by decide, fun hmem => ?_⟩
  exact absurd (List.eq_of_mem_replicate hmem) (by decide)

end

/-- All records of a line of a file that fill the buffer to the same level as this one end with the
dash, the file name, the line number and a newline, if and only if there is room for them. -/
theorem endsProperly_iff {file : SourceFile} {line : BitVec 32} {logger : Logger}
    (h : logger.Written file line) :
    (∀ logger' : Logger, logger'.Written file line →
      logger'.stream.length = logger.stream.length →
        trailer file line <:+ logger'.destroy.1) ↔
      logger.stream.length + 3 + file.name.length + 1 + kMaxNumericSize ≤ kSmallBuffer := by
  constructor
  · intro hall
    by_contra hfull
    obtain ⟨n, hn⟩ := Nat.exists_eq_add_of_le h.started.le_length
    have hn' : 37 + n < kSmallBuffer := hn ▸ h.started.length_lt
    have hlen : (warning file line n).stream.length = 37 + n := length_warning hn'
    refine written_warning.not_suffix_destroy ?_ (no_dash_warning hn')
      (hall (warning file line n) written_warning (hlen.trans hn.symm))
    rw [hlen, ← hn]
    exact not_le.mp hfull
  · intro hfits logger' hwritten hlen
    obtain ⟨rfl, rfl, -, -⟩ := hwritten.started
    rw [Logger.destroy_fst, Logger.finish_eq (by rwa [hlen])]
    exact List.suffix_append _ _

theorem endsProperly_hello :
    trailer (.ofArray (ascii "server/main.cc")) 42 <:+
      (warning (.ofArray (ascii "server/main.cc")) 42 5).destroy.1 :=
  (endsProperly_iff written_warning).mpr (by decide +kernel) _ written_warning rfl

/-- A text of 3962 characters fills the buffer. Nothing follows it, not even the newline. -/
theorem not_endsProperly_long :
    (warning (.ofArray (ascii "server/main.cc")) 42 3962).Written
      (.ofArray (ascii "server/main.cc")) 42 ∧
    ¬ trailer (.ofArray (ascii "server/main.cc")) 42 <:+
      (warning (.ofArray (ascii "server/main.cc")) 42 3962).destroy.1 ∧
    10 ∉ (warning (.ofArray (ascii "server/main.cc")) 42 3962).destroy.1 := by
  refine ⟨written_warning, ?_, by decide +kernel⟩
  exact written_warning.not_suffix_destroy (by decide +kernel) (no_dash_warning (by decide))

end Logging

end Muduo

import Muduo.Base.Date
import Muduo.Machine.BinarySearch
import Muduo.Machine.BrokenDownTime
import Muduo.Machine.Bytes
import Muduo.Machine.Reader

/-!
# TimeZone

The conversions of `muduo/base/TimeZone.cc`, and the reader of a zone file. `gmtime_r` and `timegm`
are those of the C library. A `time_t` is an integer without bounds.
-/

namespace Muduo

open Machine

namespace TimeZone

/-! ### UTC -/

def kSecondsPerDay : ℤ := 24 * 60 * 60

/-- The conversion of a number to `int`. -/
def toInt (x : ℤ) : ℤ := Int.bmod x (2 ^ 32)

/-- The conversion of an `int` to `unsigned`. -/
def toUnsigned (x : ℤ) : ℕ := (x % 2 ^ 32).toNat

def fillHMS (seconds : ℕ) (utc : Tm) : Tm :=
  let minutes := seconds / 60
  { utc with sec := (seconds % 60 : ℕ), min := (minutes % 60 : ℕ), hour := (minutes / 60 : ℕ) }

/-- A `tm` after `memZero`, with its zone. -/
def zeroTm (zone : List UInt8) : Tm := ⟨0, 0, 0, 0, 0, 0, 0, 0, 0, 0, zone⟩

/-- The first part of `toUtcTime`: the seconds of the day and the days. -/
def secondsAndDays (secondsSinceEpoch : ℤ) : Code (ℤ × ℤ) := do
  let seconds := toInt (secondsSinceEpoch.tmod kSecondsPerDay)
  let days := toInt (secondsSinceEpoch.tdiv kSecondsPerDay)
  if seconds < 0 then
    return (← int (seconds + kSecondsPerDay), ← int (days - 1))
  else
    return (seconds, days)

def toUtcTime (secondsSinceEpoch : ℤ) (yday : Bool) : Code Tm := do
  let (seconds, days) ← secondsAndDays secondsSinceEpoch
  let utc := fillHMS (toUnsigned seconds) (zeroTm (ascii "GMT"))
  let date ← int (days + Date.kJulianDayOf1970_01_01)
  let ymd ← Date.getYearMonthDay date
  let utc := { utc with
    year := ← int (ymd.year - 1900)
    mon := ← int (ymd.month - 1)
    mday := ymd.day
    wday := ← Date.weekDay date }
  if yday then
    let startOfYear ← Date.getJulianDayNumber ymd.year 1 1
    return { utc with yday := ← int (date - startOfYear) }
  else
    return utc

def fromUtcFields (year month day hour minute seconds : ℤ) : Code ℤ := do
  let date ← Date.getJulianDayNumber year month day
  let secondsInDay ← int ((← int ((← int (hour * 3600)) + (← int (minute * 60)))) + seconds)
  let days ← int (date - Date.kJulianDayOf1970_01_01)
  return days * kSecondsPerDay + secondsInDay

def fromUtcTime (utc : Tm) : Code ℤ := do
  fromUtcFields (← int (utc.year + 1900)) (← int (utc.mon + 1)) utc.mday utc.hour utc.min utc.sec

/-! ### Local time -/

structure Transition where
  gmttime : ℤ
  localtime : ℤ
  localtimeIdx : ℤ
  deriving DecidableEq

structure Localtime where
  gmtOffset : ℤ
  isDst : Bool
  arrbIdx : ℤ
  deriving DecidableEq

structure Comp where
  compareGmt : Bool

namespace Comp

/-- The time that is compared. -/
def time (c : Comp) (t : Transition) : ℤ := if c.compareGmt then t.gmttime else t.localtime

def less (c : Comp) (lhs rhs : Transition) : Bool := c.time lhs < c.time rhs

def equal (c : Comp) (lhs rhs : Transition) : Bool := c.time lhs = c.time rhs

end Comp

structure Data where
  transitions : List Transition
  localtimes : List Localtime
  abbreviation : List UInt8
  deriving DecidableEq

namespace Data

/-- `data.localtimes[idx]`. -/
def localtimeAt (data : Data) (idx : ℤ) : Code Localtime :=
  match data.localtimes[idx.toNat]? with
  | some l => do
    check .zoneLocaltimeIdx (0 ≤ idx)
    return l
  | none => .error (.failed .zoneLocaltimeIdx)

lemma localtimeAt_eq_ok {data : Data} {idx : ℤ} {l : Localtime} :
    data.localtimeAt idx = .ok l ↔ 0 ≤ idx ∧ data.localtimes[idx.toNat]? = some l := by
  unfold localtimeAt
  cases data.localtimes[idx.toNat]? with
  | none => simp
  | some l' => simp [bind_eq_ok, check_eq_ok, pure, Except.pure]

lemma exists_localtimeAt {data : Data} {idx : ℤ} (h : 0 ≤ idx ∧ idx < data.localtimes.length) :
    ∃ l, data.localtimeAt idx = .ok l ∧ data.localtimes[idx.toNat]? = some l := by
  have hget := List.getElem?_eq_getElem (l := data.localtimes) (i := idx.toNat) (by omega)
  exact ⟨_, localtimeAt_eq_ok.mpr ⟨h.1, hget⟩, hget⟩

def localtimeFront (data : Data) : Code Localtime :=
  match data.localtimes with
  | l :: _ => return l
  | [] => .error (.failed .zoneLocaltimeFront)

/-- The local time from a transition on. The iterator may be out of range. -/
def localtimeOf (data : Data) : Option Transition → Code Localtime
  | some t => data.localtimeAt t.localtimeIdx
  | none => .error (.failed .zoneTransitionBegin)

def findLocaltime (data : Data) (sentry : Transition) (comp : Comp) : Code Localtime :=
  if data.transitions.head?.all fun front => comp.less sentry front then data.localtimeFront
  else
    let transI := lowerBound (fun t => comp.less t sentry) data.transitions
    match data.transitions[transI]? with
    | some t =>
      if comp.equal sentry t then data.localtimeAt t.localtimeIdx
      else do
        check .zoneTransitionBegin (transI ≠ 0)
        data.localtimeOf data.transitions[transI - 1]?
    | none => data.localtimeOf data.transitions.getLast?

/-- From the first transition on, the search finds a transition that is not beyond the time, whether
the transitions are sorted or not. -/
lemma findLocaltime_eq_localtimeAt {data : Data} {comp : Comp} {sentry front : Transition}
    (hfront : data.transitions[0]? = some front) (hle : comp.time front ≤ comp.time sentry) :
    ∃ i t, data.transitions[i]? = some t ∧ comp.time t ≤ comp.time sentry ∧
      (comp.time t = comp.time sentry ∨
        ∀ t', data.transitions[i + 1]? = some t' → comp.time sentry < comp.time t') ∧
      data.findLocaltime sentry comp = data.localtimeAt t.localtimeIdx := by
  have hhead : ¬ (data.transitions.head?.all fun front => comp.less sentry front) = true := by
    rw [List.head?_eq_getElem?, hfront]
    simpa [Comp.less] using hle
  have hborder := lowerBound_isBorder (fun t => comp.less t sentry) data.transitions
  rw [findLocaltime, if_neg hhead]
  dsimp only
  generalize lowerBound (fun t => comp.less t sentry) data.transitions = b at hborder
  obtain ⟨hb, hbefore, hbehind⟩ := hborder
  have hpositive : 0 < data.transitions.length := (List.getElem?_eq_some_iff.mp hfront).1
  -- The transition before the border.
  have hprevious : 0 < b → ∃ t, data.transitions[b - 1]? = some t ∧
      comp.time t < comp.time sentry := by
    intro hb0
    have hget := List.getElem?_eq_getElem (l := data.transitions) (i := b - 1) (by omega)
    exact ⟨_, hget, by simpa [Comp.less] using hbefore _ hb0 hget⟩
  cases ht : data.transitions[b]? with
  | some t =>
    have hge : comp.time sentry ≤ comp.time t := by simpa [Comp.less] using hbehind t ht
    dsimp only
    by_cases hequal : comp.equal sentry t
    · rw [if_pos hequal]
      have heq : comp.time sentry = comp.time t := by simpa [Comp.equal] using hequal
      exact ⟨b, t, ht, heq.ge, .inl heq.symm, rfl⟩
    · rw [if_neg hequal]
      have hne : comp.time sentry ≠ comp.time t := by simpa [Comp.equal] using hequal
      have hb0 : b ≠ 0 := by
        rintro rfl
        cases hfront.symm.trans ht
        omega
      obtain ⟨t', ht', hlt⟩ := hprevious (Nat.pos_of_ne_zero hb0)
      rw [check_of hb0, ok_bind, ht']
      refine ⟨b - 1, t', ht', hlt.le, .inr ?_, rfl⟩
      rw [Nat.sub_add_cancel (Nat.pos_of_ne_zero hb0), ht]
      rintro y ⟨⟩
      omega
  | none =>
    have hlen := List.getElem?_eq_none_iff.mp ht
    obtain rfl : b = data.transitions.length := le_antisymm hb hlen
    obtain ⟨t', ht', hlt⟩ := hprevious hpositive
    dsimp only
    rw [List.getLast?_eq_getElem?, ht']
    refine ⟨_, t', ht', hlt.le, .inr ?_, rfl⟩
    rw [Nat.sub_add_cancel hpositive, ht]
    rintro y ⟨⟩

end Data

/-! ### The zone file -/

/-- The exceptions that the reader catches. `vector::reserve` throws a `length_error`, which is one
of them. -/
inductive LogicError where
  | noEnoughData
  | badInt32
  | badUInt8
  | badHead
  | lengthError
  deriving DecidableEq

def LogicError.what : LogicError → List UInt8
  | noEnoughData => ascii "no enough data"
  | badInt32 => ascii "bad int32_t data"
  | badUInt8 => ascii "bad uint8_t data"
  | badHead => ascii "bad head"
  | lengthError => ascii "vector::reserve"

abbrev File (α : Type) := Reader Fault LogicError Data α

namespace File

open Reader

/-- The array on the stack must not have a negative size. -/
def readBytes (n : ℤ) : File (List UInt8) := do
  lift (check .zoneReadBytes (0 ≤ n))
  fread n.toNat .noEnoughData

def readInt32 : File ℤ := do
  let x ← fread 4 .badInt32
  return (BitVec.ofNat 32 (byteSwap 4 (ofLeBytes x))).toInt

def readUInt8 : File UInt8 := do
  let x ← fread 1 .badUInt8
  return x.headD 0

/-- The body of the loop over the local times. -/
def readLocaltime : File Unit := do
  let gmtoff ← readInt32
  let isdst ← readUInt8
  let abbrind ← readUInt8
  modifyData fun data =>
    { data with localtimes := data.localtimes ++ [⟨gmtoff, isdst ≠ 0, abbrind.toNat⟩] }

/-- An element of a `vector` of the reader. -/
def elementAt {α : Type} (v : List α) (i : ℕ) : File α :=
  lift (match v[i]? with
    | some x => return x
    | none => .error (.failed .zoneTransIdx))

/-- The body of the loop over the transitions. -/
def pushTransition (trans : List ℤ) (localtimes : List UInt8) (i : ℕ) : File Unit := do
  let localIdx ← elementAt localtimes i
  let t ← elementAt trans i
  let l ← lift ((← data).localtimeAt localIdx.toNat)
  modifyData fun data =>
    { data with transitions := data.transitions ++ [⟨t, t + l.gmtOffset, localIdx.toNat⟩] }

/-- The counts that are used. -/
structure Counts where
  timecnt : ℤ
  typecnt : ℤ
  charcnt : ℤ

def readCounts : File Counts := do
  let head ← readBytes 4
  throwIf (head ≠ ascii "TZif") .badHead
  let _version ← readBytes 1
  let _ ← readBytes 15
  let _isgmtcnt ← readInt32
  let _isstdcnt ← readInt32
  let _leapcnt ← readInt32
  let timecnt ← readInt32
  let typecnt ← readInt32
  let charcnt ← readInt32
  return ⟨timecnt, typecnt, charcnt⟩

def readTables (c : Counts) : File Unit := do
  throwIf (c.timecnt < 0) .lengthError
  let trans ← readInt32.times c.timecnt.toNat
  let localtimes ← readUInt8.times c.timecnt.toNat
  let _ ← readLocaltime.times c.typecnt.toNat
  forM (List.range c.timecnt.toNat) (pushTransition trans localtimes)
  let abbreviation ← readBytes c.charcnt
  modifyData fun data => { data with abbreviation }

/-- What `readTimeZoneFile` does inside of `try`. -/
def read : File Unit := do
  readTables (← readCounts)

end File

/-- What `readTimeZoneFile` returns and leaves behind: its result, the data, and what it printed. -/
structure Loading where
  result : Bool
  data : Data
  stderr : List UInt8
  deriving DecidableEq

/-- The file is given by its bytes, or by nothing if it cannot be opened. -/
def readTimeZoneFile (zonefile : Option (List UInt8)) (data : Data) : Code Loading :=
  match zonefile with
  | none => return ⟨true, data, []⟩
  | some bytes => do
    match ← File.read.exec ⟨bytes, data⟩ with
    | (.ok (), s) => return ⟨true, s.data, []⟩
    | (.error e, s) => return ⟨true, s.data, e.what ++ ascii "\n"⟩

/-- A zone without data is not valid. -/
structure Zone where
  data : Option Data
  deriving DecidableEq

namespace Zone

/-- The zone of a file. -/
def ofFile (zonefile : Option (List UInt8)) : Code Zone := do
  let loading ← readTimeZoneFile zonefile ⟨[], [], []⟩
  return ⟨if loading.result then some loading.data else none⟩

/-- The zone `eastOfUtc` seconds east of UTC. -/
def fixed (eastOfUtc : ℤ) (name : List UInt8) : Zone := ⟨some ⟨[], [⟨eastOfUtc, false, 0⟩], name⟩⟩

def valid (zone : Zone) : Bool := zone.data.isSome

/-- `assert(data_ != NULL)`. -/
def getData (zone : Zone) : Code Data :=
  match zone.data with
  | some data => return data
  | none => .error (.failed .zoneData)

def toLocalTime (zone : Zone) (seconds : ℤ) : Code Tm := do
  let data ← zone.getData
  let l ← data.findLocaltime ⟨seconds, 0, 0⟩ ⟨true⟩
  check .zoneAbbreviation (0 ≤ l.arrbIdx ∧ l.arrbIdx ≤ data.abbreviation.length)
  return (gmtime (seconds + l.gmtOffset)).inZone (if l.isDst then 1 else 0) l.gmtOffset
    ((data.abbreviation.drop l.arrbIdx.toNat).takeWhile (· ≠ 0))

def fromLocalTime (zone : Zone) (localTm : Tm) : Code ℤ := do
  let data ← zone.getData
  let seconds := timegm localTm
  let l ← data.findLocaltime ⟨0, seconds, 0⟩ ⟨false⟩
  if localTm.isdst ≠ 0 then
    let tryTm ← zone.toLocalTime (seconds - l.gmtOffset)
    if tryTm.isdst = 0 ∧ tryTm.hour = localTm.hour ∧ tryTm.min = localTm.min then
      return seconds - 3600 - l.gmtOffset
    else
      return seconds - l.gmtOffset
  else
    return seconds - l.gmtOffset

end Zone

end TimeZone

end Muduo

import Muduo.Machine.Gregorian
import Muduo.Machine.Text

/-!
# Broken-down time

`Tm` is the `struct tm` of the C library. `gmtime` breaks the seconds since 1970 down into the
fields of the Gregorian calendar, and `timegm` puts them together again. Days have 86400 seconds.
-/

namespace Machine

open Gregorian

structure Tm where
  sec : ℤ
  min : ℤ
  hour : ℤ
  mday : ℤ
  mon : ℤ
  year : ℤ
  wday : ℤ
  yday : ℤ
  isdst : ℤ
  gmtoff : ℤ
  zone : List UInt8
  deriving DecidableEq

namespace Tm

/-- The day of the calendar. The years are counted from 1900 and the months from 0. -/
def date (tm : Tm) : Day := ⟨tm.year + 1900, tm.mon + 1, tm.mday⟩

/-- The fields in the order of their size. -/
def fields (tm : Tm) : List ℤ := [tm.year, tm.mon, tm.mday, tm.hour, tm.min, tm.sec]

/-- The same calendar time, in another zone. -/
def inZone (tm : Tm) (isdst gmtoff : ℤ) (zone : List UInt8) : Tm := { tm with isdst, gmtoff, zone }

end Tm

/-- The number of the first of January of 1970. -/
def epochDay : ℤ := 719162

def gmtime (t : ℤ) : Tm :=
  let d := ofNumber (t / 86400 + epochDay)
  let s := t % 86400
  { sec := s % 60
    min := s / 60 % 60
    hour := s / 3600
    mday := d.day
    mon := d.month - 1
    year := d.year - 1900
    wday := (t / 86400 + 4) % 7
    yday := d.yearDay
    isdst := 0
    gmtoff := 0
    zone := ascii "GMT" }

/-- The months may go beyond a year, and the other fields beyond their range as well. -/
def timegm (tm : Tm) : ℤ :=
  let year := tm.year + 1900 + tm.mon / 12
  86400 * (yearStart year + monthStart year (tm.mon % 12 + 1) + tm.mday - 1 - epochDay) +
    3600 * tm.hour + 60 * tm.min + tm.sec

lemma date_gmtime (t : ℤ) : (gmtime t).date = ofNumber (t / 86400 + epochDay) := by
  unfold gmtime Tm.date
  dsimp only
  rw [sub_add_cancel, sub_add_cancel]

/-- What `timegm` makes of a day of the calendar. -/
lemma timegm_eq {tm : Tm} (h : tm.date.Valid) :
    timegm tm = 86400 * (tm.date.number - epochDay) + 3600 * tm.hour + 60 * tm.min + tm.sec := by
  have hmonth : 1 ≤ tm.mon + 1 ∧ tm.mon + 1 ≤ 12 := ⟨h.one_le_month, h.month_le⟩
  have hdiv : tm.mon / 12 = 0 := by omega
  have hmod : tm.mon % 12 = tm.mon := by omega
  unfold timegm Tm.date Day.number Day.yearDay
  dsimp only
  rw [hdiv, hmod, add_zero]
  ring

lemma valid_date_gmtime (t : ℤ) : (gmtime t).date.Valid := by
  rw [date_gmtime]
  exact (ofNumber_spec _).1

theorem timegm_gmtime (t : ℤ) : timegm (gmtime t) = t := by
  rw [timegm_eq (valid_date_gmtime t), date_gmtime, (ofNumber_spec _).2]
  unfold gmtime
  dsimp only
  omega

/-- A later time has later fields. -/
theorem fields_gmtime_lt {t t' : ℤ} (h : t < t') : (gmtime t).fields < (gmtime t').fields := by
  simp only [Tm.fields, List.cons_lt_cons_iff, List.lt_irrefl, and_false, or_false]
  rcases (Int.ediv_le_ediv (by norm_num) h.le : t / 86400 ≤ t' / 86400).lt_or_eq with hday | hday
  · have hlt : (gmtime t).date.number < (gmtime t').date.number := by
      rw [date_gmtime, date_gmtime, (ofNumber_spec _).2, (ofNumber_spec _).2]
      omega
    have hbefore := Day.before_of_number_lt (valid_date_gmtime t) (valid_date_gmtime t') hlt
    unfold Tm.date Day.Before at hbefore
    dsimp only at hbefore
    omega
  · -- On one day the hours, minutes and seconds decide.
    have hdate : (gmtime t).date = (gmtime t').date := by rw [date_gmtime, date_gmtime, hday]
    have hyear := congrArg Day.year hdate
    have hmonth := congrArg Day.month hdate
    have hmday := congrArg Day.day hdate
    unfold Tm.date at hyear hmonth hmday
    dsimp only at hyear hmonth hmday
    have htime : (gmtime t).hour = t % 86400 / 3600 ∧ (gmtime t).min = t % 86400 / 60 % 60 ∧
        (gmtime t).sec = t % 86400 % 60 := ⟨rfl, rfl, rfl⟩
    have htime' : (gmtime t').hour = t' % 86400 / 3600 ∧ (gmtime t').min = t' % 86400 / 60 % 60 ∧
        (gmtime t').sec = t' % 86400 % 60 := ⟨rfl, rfl, rfl⟩
    omega

end Machine

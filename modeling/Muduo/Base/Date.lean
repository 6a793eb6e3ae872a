import Muduo.Base.Code
import Muduo.Machine.Gregorian

/-!
# Date

The two conversions of `muduo/base/Date.cc` between a date of the Gregorian calendar and its Julian
day number. They are written in truncating divisions of `int`s, and an operation that overflows is a
fault.

## Main results

* `calendar_exact`: from the year -4799 to the year 1000000 the two conversions are each other's
  inverses, no operation overflows, and the next day has the next number.
-/

namespace Muduo

open Machine Gregorian

/-- The result of an operation on `int`s. -/
def int (x : ℤ) : Code ℤ := do
  check .dateOverflow (-2 ^ 31 ≤ x ∧ x < 2 ^ 31)
  return x

namespace Date

abbrev YearMonthDay := Gregorian.Day

def getJulianDayNumber (year month day : ℤ) : Code ℤ := do
  let a := (← int (14 - month)).tdiv 12
  let y ← int ((← int (year + 4800)) - a)
  let m ← int ((← int (month + (← int (12 * a)))) - 3)
  let days ← int (day + (← int ((← int (153 * m)) + 2)).tdiv 5)
  let days ← int (days + (← int (y * 365)))
  let days ← int (days + y.tdiv 4)
  let days ← int (days - y.tdiv 100)
  let days ← int (days + y.tdiv 400)
  int (days - 32045)

def getYearMonthDay (julianDayNumber : ℤ) : Code YearMonthDay := do
  let a ← int (julianDayNumber + 32044)
  let b := (← int ((← int (4 * a)) + 3)).tdiv 146097
  let c ← int (a - (← int (b * 146097)).tdiv 4)
  let d := (← int ((← int (4 * c)) + 3)).tdiv 1461
  let e ← int (c - (← int (1461 * d)).tdiv 4)
  let m := (← int ((← int (5 * e)) + 2)).tdiv 153
  let day ← int ((← int (e - (← int ((← int (153 * m)) + 2)).tdiv 5)) + 1)
  let month ← int ((← int (m + 3)) - (← int (12 * m.tdiv 10)))
  let year ← int ((← int ((← int ((← int (b * 100)) + d)) - 4800)) + m.tdiv 10)
  return ⟨year, month, day⟩

def kDaysPerWeek : ℤ := 7

/-- `getJulianDayNumber(1970, 1, 1)`. -/
def kJulianDayOf1970_01_01 : ℤ := 2440588

def weekDay (julianDayNumber : ℤ) : Code ℤ := do
  return (← int (julianDayNumber + 1)).tmod kDaysPerWeek

example : getJulianDayNumber 1970 1 1 = .ok kJulianDayOf1970_01_01 := by decide +kernel

/-! ### From a date to its number -/

lemma int_bind {α : Type} {x : ℤ} (h : -2 ^ 31 ≤ x ∧ x < 2 ^ 31) (f : ℤ → Code α) :
    int x >>= f = f x := by
  rw [int, check_of h]
  rfl

lemma int_eq {x : ℤ} (h : -2 ^ 31 ≤ x ∧ x < 2 ^ 31) : int x = .ok x := by
  rw [int, check_of h]
  rfl

/-- The number of the first of January of year 1. -/
def kJulianDayOfYear1 : ℤ := 1721426

variable {d : YearMonthDay}

/-- The code on the months counted from March, of a year that begins with March. -/
lemma getJulianDayNumber_march {year month day a y m : ℤ} (ha : (14 - month) / 12 = a)
    (hy : year + 4800 - a = y) (hm : month + 12 * a - 3 = m) (hmonth : 1 ≤ month)
    (hmonth' : month ≤ 12) (hyear : 0 ≤ y) (hyear' : year ≤ 1000001) (hday : 1 ≤ day)
    (hday' : day ≤ 31) :
    getJulianDayNumber year month day =
      .ok (day + (153 * m + 2) / 5 + 365 * y + y / 4 - y / 100 + y / 400 - 32045) := by
  unfold getJulianDayNumber
  rw [int_bind (by omega), Int.tdiv_eq_ediv_of_nonneg (by omega), ha]
  dsimp only
  rw [int_bind (by omega), hy, int_bind (by omega), int_bind (by omega), int_bind (by omega), hm,
    int_bind (by omega)]
  rw [int_bind (by omega), int_bind (by omega), Int.tdiv_eq_ediv_of_nonneg (by omega),
    int_bind (by omega)]
  simp only [Int.tdiv_eq_ediv_of_nonneg hyear]
  rw [int_bind (by omega), int_bind (by omega), int_bind (by omega), int_bind (by omega),
    int_bind (by omega), int_eq (by omega), mul_comm y]

lemma getJulianDayNumber_eq (h : d.Valid) (hyear : -4799 ≤ d.year) (hyear' : d.year ≤ 1000001) :
    getJulianDayNumber d.year d.month d.day = .ok (d.number + kJulianDayOfYear1) := by
  obtain ⟨hm, hm', hd, hd'⟩ := h
  have hlength := monthLength_mem d.year d.month
  unfold Day.number Day.yearDay kJulianDayOfYear1
  rw [monthStart_eq hm hm']
  by_cases hmarch : d.month ≤ 2
  · rw [getJulianDayNumber_march (a := 1) (by omega) rfl rfl hm hm' (by omega) hyear' hd (by omega),
      if_pos hmarch]
    unfold yearStart
    congr 1
    omega
  · -- The year that begins in March has its leap day at the end.
    have hnext := yearStart_succ d.year
    have hstart : yearStart (d.year + 1) =
        365 * d.year + d.year / 4 - d.year / 100 + d.year / 400 := by
      rw [yearStart, add_sub_cancel_right]
    have hmonths : (153 * (d.month - 3) + 2) / 5 = (367 * d.month - 362) / 12 - 61 := by omega
    have h4 : (d.year + 4800) / 4 = d.year / 4 + 1200 := by omega
    have h100 : (d.year + 4800) / 100 = d.year / 100 + 48 := by omega
    have h400 : (d.year + 4800) / 400 = d.year / 400 + 12 := by omega
    rw [getJulianDayNumber_march (a := 0) (by omega) (sub_zero _) (by rw [mul_zero, add_zero]) hm
      hm' (by omega) hyear' hd (by omega), if_neg hmarch, hmonths, h4, h100, h400]
    rw [hstart, monthStart_eq (by norm_num) (by norm_num), if_neg (by norm_num)] at hnext
    congr 1
    split_ifs at hnext ⊢ <;> omega

/-! ### From a number to its date -/

lemma getYearMonthDay_eq {j : ℤ} (h : -32044 ≤ j) (h' : j ≤ 536838866) :
    getYearMonthDay j = .ok (ofNumber (j - kJulianDayOfYear1)) := by
  obtain ⟨a, rfl⟩ : ∃ a, j = a - 32044 := ⟨j + 32044, by omega⟩
  obtain ⟨b, c, d, e, m, hb, hc, hd, he, hc0, hmarch, hday⟩ := ofNumber_eq a
  have hm0 : 0 ≤ m ∧ m ≤ 11 := by
    have := hmarch.month_mem
    omega
  obtain ⟨hd0, he0, -, hm⟩ := hmarch
  have hk : 0 ≤ e - (153 * m + 2) / 5 ∧ e - (153 * m + 2) / 5 ≤ 30 := by omega
  rw [kJulianDayOfYear1, sub_sub, show (32044 : ℤ) + 1721426 = 1753470 from rfl, hday,
    getYearMonthDay, sub_add_cancel, int_bind (by omega)]
  rw [int_bind (by omega), int_bind (by omega), Int.tdiv_eq_ediv_of_nonneg (by omega), hb,
    int_bind (by omega), mul_comm b, Int.tdiv_eq_ediv_of_nonneg (by omega), hc, int_bind (by omega)]
  rw [int_bind (by omega), int_bind (by omega), Int.tdiv_eq_ediv_of_nonneg (by omega), hd,
    int_bind (by omega), Int.tdiv_eq_ediv_of_nonneg (by omega), he, int_bind (by omega)]
  rw [int_bind (by omega), int_bind (by omega), Int.tdiv_eq_ediv_of_nonneg (by omega), hm]
  simp only [Int.tdiv_eq_ediv_of_nonneg hm0.1]
  rw [int_bind (by omega), int_bind (by omega), Int.tdiv_eq_ediv_of_nonneg (by omega),
    int_bind (by omega), int_bind (by omega)]
  rw [int_bind (by omega), int_bind (by omega), int_bind (by omega)]
  rw [int_bind (by omega), int_bind (by omega), int_bind (by omega), int_bind (by omega)]
  rfl

/-! ### The two conversions -/

def firstDay : YearMonthDay := ⟨-4799, 1, 1⟩

def lastDay : YearMonthDay := ⟨1000000, 12, 31⟩

lemma valid_firstDay : firstDay.Valid := by decide

lemma valid_lastDay : lastDay.Valid := by decide

lemma number_firstDay : firstDay.number + kJulianDayOfYear1 = -31738 := by decide +kernel

lemma number_lastDay : lastDay.number + kJulianDayOfYear1 = 366963925 := by decide +kernel

lemma year_mem_iff (h : d.Valid) : -4799 ≤ d.year ∧ d.year ≤ 1000000 ↔
    firstDay.number ≤ d.number ∧ d.number ≤ lastDay.number := by
  have hfirst : firstDay.year = -4799 := rfl
  have hlast : lastDay.year = 1000000 := rfl
  constructor
  · rintro ⟨hyear, hyear'⟩
    have hlength := monthLength_mem d.year d.month
    obtain ⟨hm, hm', hd, hd'⟩ := h
    constructor
    · by_contra hlt
      have hbefore := Day.before_of_number_lt ⟨hm, hm', hd, hd'⟩ valid_firstDay (not_le.mp hlt)
      dsimp only [firstDay, Day.Before] at hbefore
      omega
    · by_contra hlt
      have hbefore := Day.before_of_number_lt valid_lastDay ⟨hm, hm', hd, hd'⟩ (not_le.mp hlt)
      dsimp only [lastDay, Day.Before] at hbefore
      omega
  · rintro ⟨hle, hle'⟩
    constructor
    · by_contra hlt
      have := Day.number_lt_of_year_lt h valid_firstDay (by omega)
      omega
    · by_contra hlt
      have := Day.number_lt_of_year_lt valid_lastDay h (by omega)
      omega

/-- The day of a number between those of the first and the last day. -/
lemma ofNumber_mem {j : ℤ} (hj : firstDay.number + kJulianDayOfYear1 ≤ j)
    (hj' : j ≤ lastDay.number + kJulianDayOfYear1) :
    getYearMonthDay j = .ok (ofNumber (j - kJulianDayOfYear1)) ∧
      -4799 ≤ (ofNumber (j - kJulianDayOfYear1)).year ∧
      (ofNumber (j - kJulianDayOfYear1)).year ≤ 1000000 := by
  have hfirst := number_firstDay
  have hlast := number_lastDay
  obtain ⟨hvalid, hnumber⟩ := ofNumber_spec (j - kJulianDayOfYear1)
  exact ⟨getYearMonthDay_eq (by omega) (by omega), (year_mem_iff hvalid).mpr (by omega)⟩

lemma weekDay_eq {j : ℤ} (h : 0 ≤ j) (h' : j + 1 < 2 ^ 31) : weekDay j = .ok ((j + 1) % 7) := by
  rw [weekDay, int_bind (by omega), Int.tmod_eq_emod_of_nonneg (by omega)]
  rfl

/-- From a date to its number and back, from a day to the next one, from a number to its date and
back, and the days of the week. -/
theorem calendar_exact :
    (∀ d : YearMonthDay, d.Valid → -4799 ≤ d.year → d.year ≤ 1000000 →
      Yields (getJulianDayNumber d.year d.month d.day) fun j => getYearMonthDay j = .ok d ∧
        getJulianDayNumber d.next.year d.next.month d.next.day = .ok (j + 1)) ∧
    (∀ first last j, getJulianDayNumber (-4799) 1 1 = .ok first →
      getJulianDayNumber 1000000 12 31 = .ok last → first ≤ j → j ≤ last →
      Yields (getYearMonthDay j) fun d => getJulianDayNumber d.year d.month d.day = .ok j) ∧
    ∀ j, 0 ≤ j → j + 2 < 2 ^ 31 → Yields (weekDay j) fun w =>
      0 ≤ w ∧ w < 7 ∧ weekDay (j + 1) = .ok ((w + 1) % 7) := by
  refine ⟨fun d hvalid hyear hyear' => ?_, fun first last j hfirst hlast hj hj' => ?_,
    fun j hj hj' => ?_⟩
  · refine ⟨_, getJulianDayNumber_eq hvalid hyear (by omega), ?_, ?_⟩
    · have hrange := (year_mem_iff hvalid).mp ⟨hyear, hyear'⟩
      rw [(ofNumber_mem (by omega) (by omega)).1, add_sub_cancel_right, hvalid.ofNumber_number]
    have hnext : d.year ≤ d.next.year ∧ d.next.year ≤ d.year + 1 := by
      unfold Day.next
      split_ifs <;> dsimp only <;> omega
    rw [getJulianDayNumber_eq (Day.valid_next hvalid) (by omega) (by omega),
      Day.number_next hvalid]
    congr 1
    omega
  · have hfirst' := getJulianDayNumber_eq valid_firstDay (by decide) (by decide)
    have hlast' := getJulianDayNumber_eq valid_lastDay (by decide) (by decide)
    cases hfirst.symm.trans hfirst'
    cases hlast.symm.trans hlast'
    obtain ⟨hcode, hyear, hyear'⟩ := ofNumber_mem hj hj'
    obtain ⟨hvalid, hnumber⟩ := ofNumber_spec (j - kJulianDayOfYear1)
    refine ⟨_, hcode, ?_⟩
    dsimp only
    rw [getJulianDayNumber_eq hvalid hyear (by omega), hnumber, sub_add_cancel]
  · refine ⟨_, weekDay_eq hj (by omega), by omega, by omega, ?_⟩
    rw [weekDay_eq (by omega) (by omega)]
    congr 1
    omega

/-- A leap day. -/
theorem calendar_exact_leap :
    (Yields (getJulianDayNumber 2000 2 29) fun j => getYearMonthDay j = .ok ⟨2000, 2, 29⟩ ∧
      getJulianDayNumber 2000 3 1 = .ok (j + 1)) ∧
    (Yields (getYearMonthDay 0) fun d => getJulianDayNumber d.year d.month d.day = .ok 0) ∧
    Yields (weekDay 0) fun w => 0 ≤ w ∧ w < 7 ∧ weekDay 1 = .ok ((w + 1) % 7) :=
  ⟨calendar_exact.1 ⟨2000, 2, 29⟩ (by decide) (by decide) (by decide),
    calendar_exact.2.1 (-31738) 366963925 0 (by decide +kernel) (by decide +kernel) (by decide)
      (by decide),
    calendar_exact.2.2 0 (by decide) (by decide)⟩

end Date

end Muduo

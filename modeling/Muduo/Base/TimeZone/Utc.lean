import Muduo.Base.TimeZone

/-!
# Conversion from and to UTC

`toUtcTime` is `gmtime` written in `int`s and truncating divisions, and `fromUtcTime` is `timegm`.
They agree with the C library from Julian day 0 to the last day of the year 1000000.

## Main results

* `utc_round_trip`: a time is broken down into fields of the calendar and put together again, and a
  later time has later fields.
-/

namespace Muduo

open Machine Gregorian

namespace TimeZone

open Date

/-- A time of a day whose Julian day number is at least 0 and at most `last`. -/
structure InRange (last t : ℤ) : Prop where
  first_le : 0 ≤ t / kSecondsPerDay + kJulianDayOf1970_01_01
  le_last : t / kSecondsPerDay + kJulianDayOf1970_01_01 ≤ last

lemma toInt_eq {x : ℤ} (h : -2 ^ 31 ≤ x) (h' : x < 2 ^ 31) : toInt x = x :=
  Int.bmod_eq_of_le (by norm_num; omega) (by norm_num; omega)

/-- The borrow makes the division round down. -/
lemma secondsAndDays_eq {t : ℤ} (h : -2 ^ 31 < t / kSecondsPerDay)
    (h' : t / kSecondsPerDay < 2 ^ 31 - 1) :
    secondsAndDays t = .ok (t % kSecondsPerDay, t / kSecondsPerDay) := by
  unfold secondsAndDays
  have hday : kSecondsPerDay = 86400 := rfl
  rw [hday] at h h' ⊢
  by_cases hexact : 0 ≤ t ∨ 86400 ∣ t
  · have hdiv : t.tdiv 86400 = t / 86400 := by rw [Int.tdiv_eq_ediv, if_pos hexact, add_zero]
    have hmod : t.tmod 86400 = t % 86400 := by
      rw [Int.tmod_eq_emod, if_pos hexact, Nat.cast_zero, sub_zero]
    rw [hdiv, hmod, toInt_eq (by omega) (by omega), toInt_eq (by omega) (by omega),
      if_neg (by omega)]
    rfl
  · have hdiv : t.tdiv 86400 = t / 86400 + 1 := by
      rw [Int.tdiv_eq_ediv, if_neg hexact]
      rfl
    have hmod : t.tmod 86400 = t % 86400 - 86400 := by
      rw [Int.tmod_eq_emod, if_neg hexact]
      rfl
    rw [hdiv, hmod, toInt_eq (by omega) (by omega), toInt_eq (by omega) (by omega),
      if_pos (by omega), int_bind (by omega), int_bind (by omega), sub_add_cancel,
      add_sub_cancel_right]
    rfl

variable {t t' last : ℤ}

/-- The hours, minutes and seconds of a day. -/
lemma fillHMS_eq {s : ℤ} (h : 0 ≤ s) (h' : s < kSecondsPerDay) (utc : Tm) :
    fillHMS (toUnsigned s) utc =
      { utc with sec := s % 60, min := s / 60 % 60, hour := s / 3600 } := by
  have hday : kSecondsPerDay = 86400 := rfl
  obtain ⟨n, rfl⟩ := Int.eq_ofNat_of_zero_le h
  have hn : toUnsigned n = n := by
    unfold toUnsigned
    omega
  rw [hn, fillHMS]
  congr 1
  omega

/-- The day of a time in the range. -/
structure IsDay (t j : ℤ) (d : Day) : Prop where
  number : t / 86400 + kJulianDayOf1970_01_01 = j
  nonneg : 0 ≤ j ∧ j ≤ 366963925
  code : getYearMonthDay j = .ok d
  gmtime : ofNumber (t / 86400 + epochDay) = d
  year : -4799 ≤ d.year ∧ d.year ≤ 1000000
  valid : d.Valid
  day : d.number + kJulianDayOfYear1 = j

lemma InRange.exists_isDay (hlast : getJulianDayNumber 1000000 12 31 = .ok last)
    (h : InRange last t) : ∃ j d, IsDay t j d := by
  have hlast' := getJulianDayNumber_eq valid_lastDay (by decide) (by decide)
  have hfirst := number_firstDay
  have hnumber := number_lastDay
  rw [hnumber] at hlast'
  cases hlast.symm.trans hlast'
  obtain ⟨hj, hj'⟩ := h
  rw [show kSecondsPerDay = 86400 from rfl] at hj hj'
  obtain ⟨j, hjeq⟩ : ∃ j, t / 86400 + kJulianDayOf1970_01_01 = j := ⟨_, rfl⟩
  have hdate : t / 86400 + epochDay = j - kJulianDayOfYear1 := by
    unfold epochDay kJulianDayOfYear1
    unfold kJulianDayOf1970_01_01 at hjeq
    omega
  obtain ⟨hcode, hyear⟩ := ofNumber_mem (j := j) (by omega) (by omega)
  obtain ⟨hvalid, hnumber⟩ := ofNumber_spec (j - kJulianDayOfYear1)
  refine ⟨j, _, hjeq, by omega, hcode, ?_, hyear, hvalid, by omega⟩
  rw [hdate]

/-- In the range `toUtcTime` is `gmtime`. -/
lemma toUtcTime_eq (hlast : getJulianDayNumber 1000000 12 31 = .ok last) (h : InRange last t) :
    toUtcTime t true = .ok (gmtime t) := by
  obtain ⟨j, d, hj, hrange, hcode, hd, hyear, hvalid, hnumber⟩ := h.exists_isDay hlast
  have hday : kSecondsPerDay = 86400 := rfl
  have hepoch : kJulianDayOf1970_01_01 = 2440588 := rfl
  have hmonth := hvalid.one_le_month
  have hmonth' := hvalid.month_le
  have hstart : getJulianDayNumber d.year 1 1 = .ok (j - d.yearDay) := by
    have hfirst : Day.Valid ⟨d.year, 1, 1⟩ :=
      ⟨le_rfl, by norm_num, le_rfl, by have := monthLength_mem d.year 1; dsimp only; omega⟩
    have hjan := getJulianDayNumber_eq hfirst hyear.1 (by dsimp only; omega)
    rw [hjan, Day.number, Day.yearDay, monthStart_one]
    unfold Day.number at hnumber
    congr 1
    dsimp only
    omega
  have hyday : 0 ≤ d.yearDay ∧ d.yearDay < 2 ^ 31 := by
    have hlt := hvalid.yearDay_lt
    rw [monthStart_eq (by norm_num) (by norm_num), if_neg (by norm_num)] at hlt
    refine ⟨hvalid.yearDay_nonneg, ?_⟩
    split_ifs at hlt <;> omega
  unfold toUtcTime
  rw [secondsAndDays_eq (by rw [hday]; omega) (by rw [hday]; omega), hday, ok_bind]
  dsimp only
  rw [fillHMS_eq (by omega) (by rw [hday]; omega), hj, int_bind (by omega), hcode, ok_bind,
    int_bind (by omega), int_bind (by omega), weekDay_eq (by omega) (by omega), ok_bind, if_pos rfl,
    hstart, ok_bind, sub_sub_cancel, int_bind (by omega)]
  unfold gmtime
  rw [hd]
  have hwday : (j + 1) % 7 = (t / 86400 + 4) % 7 := by omega
  rw [hwday]
  rfl

lemma fromUtcTime_eq (hlast : getJulianDayNumber 1000000 12 31 = .ok last) (h : InRange last t) :
    fromUtcTime (gmtime t) = .ok t := by
  obtain ⟨j, d, hj, hrange, -, hd, hyear, hvalid, hnumber⟩ := h.exists_isDay hlast
  have hepoch : kJulianDayOf1970_01_01 = 2440588 := rfl
  have hmonth := hvalid.one_le_month
  have hmonth' := hvalid.month_le
  have hcode := getJulianDayNumber_eq hvalid hyear.1 (by omega)
  unfold fromUtcTime gmtime
  rw [hd]
  dsimp only
  rw [sub_add_cancel, sub_add_cancel, int_bind (by omega), int_bind (by omega), fromUtcFields,
    hcode, ok_bind, int_bind (by omega), int_bind (by omega), int_bind (by omega),
    int_bind (by omega), hnumber, int_bind (by omega)]
  refine congrArg Except.ok ?_
  rw [show kSecondsPerDay = 86400 from rfl]
  omega

/-- The fields of a broken-down time, and the time that they are put together to. A later time has
later fields. -/
theorem utc_round_trip (hlast : getJulianDayNumber 1000000 12 31 = .ok last) :
    (∀ t, InRange last t → Yields (toUtcTime t true) fun utc =>
      fromUtcTime utc = .ok t ∧
      (0 ≤ utc.sec ∧ utc.sec < 60) ∧ (0 ≤ utc.min ∧ utc.min < 60) ∧
      (0 ≤ utc.hour ∧ utc.hour < 24) ∧ (0 ≤ utc.mon ∧ utc.mon < 12) ∧
      (1 ≤ utc.mday ∧ utc.mday ≤ monthLength (utc.year + 1900) (utc.mon + 1)) ∧
      (0 ≤ utc.wday ∧ utc.wday < 7) ∧ utc.yday = utc.date.yearDay) ∧
    ∀ t t', InRange last t → InRange last t' → t < t' →
      Yields (toUtcTime t true) fun utc =>
        Yields (toUtcTime t' true) fun utc' => utc.fields < utc'.fields := by
  constructor
  · intro t h
    obtain ⟨hmonth, hmonth', hday, hday'⟩ := valid_date_gmtime t
    have hyday : (gmtime t).yday = (gmtime t).date.yearDay := by
      rw [date_gmtime]
      rfl
    have hsec : (gmtime t).sec = t % 86400 % 60 := rfl
    have hmin : (gmtime t).min = t % 86400 / 60 % 60 := rfl
    have hhour : (gmtime t).hour = t % 86400 / 3600 := rfl
    have hwday : (gmtime t).wday = (t / 86400 + 4) % 7 := rfl
    unfold Tm.date at hmonth hmonth' hday hday'
    dsimp only at hmonth hmonth' hday hday'
    exact ⟨_, toUtcTime_eq hlast h, fromUtcTime_eq hlast h, by omega, by omega, by omega, by omega,
      ⟨hday, hday'⟩, by omega, hyday⟩
  · intro t t' h h' hlt
    exact ⟨_, toUtcTime_eq hlast h, _, toUtcTime_eq hlast h', fields_gmtime_lt hlt⟩

/-- The last second of 1969 and the leap day of 2000. -/
theorem utc_round_trip_before_1970 :
    (Yields (toUtcTime (-1) true) fun utc => fromUtcTime utc = .ok (-1)) ∧
    Yields (toUtcTime (-1) true) fun utc =>
      Yields (toUtcTime 951782400 true) fun utc' => utc.fields < utc'.fields := by
  have hlast : getJulianDayNumber 1000000 12 31 = .ok 366963925 := by decide +kernel
  have hbefore : InRange 366963925 (-1) := ⟨by decide +kernel, by decide +kernel⟩
  have hleap : InRange 366963925 951782400 := ⟨by decide +kernel, by decide +kernel⟩
  obtain ⟨hround, hlt⟩ := utc_round_trip hlast
  obtain ⟨utc, hcode, hback, -⟩ := hround (-1) hbefore
  exact ⟨⟨utc, hcode, hback⟩, hlt (-1) 951782400 hbefore hleap (by norm_num)⟩

end TimeZone

end Muduo

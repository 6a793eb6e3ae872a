import Mathlib.Tactic

/-!
# The Gregorian calendar

Days of the calendar, the day after a day, and the number of a day, counted from the first of
January of year 1. The calendar goes on in both directions without end. `ofNumber` finds the day
with a number: it counts the years from March, so that a leap day is the last day of a year.
-/

namespace Machine

namespace Gregorian

structure Day where
  year : ℤ
  month : ℤ
  day : ℤ
  deriving DecidableEq

def IsLeap (year : ℤ) : Prop := year % 4 = 0 ∧ (year % 100 ≠ 0 ∨ year % 400 = 0)

instance (year : ℤ) : Decidable (IsLeap year) := inferInstanceAs (Decidable (_ ∧ _))

def monthLength (year month : ℤ) : ℤ :=
  if month = 2 then if IsLeap year then 29 else 28
  else if month = 4 ∨ month = 6 ∨ month = 9 ∨ month = 11 then 30
  else 31

/-- The days of the year before a month. -/
def monthStart (year month : ℤ) : ℤ :=
  ((List.range (month - 1).toNat).map fun i : ℕ => monthLength year (i + 1)).sum

/-- The days before a year. -/
def yearStart (year : ℤ) : ℤ :=
  365 * (year - 1) + (year - 1) / 4 - (year - 1) / 100 + (year - 1) / 400

namespace Day

/-- The day is in the calendar. -/
structure Valid (d : Day) : Prop where
  one_le_month : 1 ≤ d.month
  month_le : d.month ≤ 12
  one_le_day : 1 ≤ d.day
  day_le : d.day ≤ monthLength d.year d.month

instance (d : Day) : Decidable d.Valid :=
  decidable_of_iff (1 ≤ d.month ∧ d.month ≤ 12 ∧ 1 ≤ d.day ∧ d.day ≤ monthLength d.year d.month)
    ⟨fun ⟨h₁, h₂, h₃, h₄⟩ => ⟨h₁, h₂, h₃, h₄⟩, fun ⟨h₁, h₂, h₃, h₄⟩ => ⟨h₁, h₂, h₃, h₄⟩⟩

/-- The day after a day. -/
def next (d : Day) : Day :=
  if d.day < monthLength d.year d.month then ⟨d.year, d.month, d.day + 1⟩
  else if d.month < 12 then ⟨d.year, d.month + 1, 1⟩
  else ⟨d.year + 1, 1, 1⟩

/-- The days of the year before a day. -/
def yearDay (d : Day) : ℤ := monthStart d.year d.month + (d.day - 1)

/-- The days before a day, from the first of January of year 1. -/
def number (d : Day) : ℤ := yearStart d.year + d.yearDay

end Day

variable {year month : ℤ} {d d' : Day}

lemma monthLength_mem (year month : ℤ) :
    28 ≤ monthLength year month ∧ monthLength year month ≤ 31 := by
  unfold monthLength
  split_ifs <;> omega

lemma monthStart_one (year : ℤ) : monthStart year 1 = 0 := rfl

lemma monthStart_succ (h : 1 ≤ month) (year : ℤ) :
    monthStart year (month + 1) = monthStart year month + monthLength year month := by
  have hsucc : (month + 1 - 1).toNat = (month - 1).toNat + 1 := by omega
  have hmonth : (((month - 1).toNat : ℤ) + 1) = month := by omega
  rw [monthStart, hsucc, List.range_succ, List.map_append, List.sum_append, List.map_singleton,
    List.sum_singleton, hmonth, monthStart]

/-- The days before a month, from the eleven months before December. -/
lemma monthStart_eq (h : 1 ≤ month) (h' : month ≤ 12) (year : ℤ) :
    monthStart year month = (367 * month - 362) / 12 -
      if month ≤ 2 then 0 else if IsLeap year then 1 else 2 := by
  interval_cases month <;> by_cases hleap : IsLeap year <;>
    simp [monthStart, monthLength, List.range_succ, hleap]

lemma monthStart_mono {month' : ℤ} (h : 1 ≤ month) (hle : month ≤ month') (h' : month' ≤ 12)
    (year : ℤ) : monthStart year month ≤ monthStart year month' := by
  rw [monthStart_eq h (hle.trans h'), monthStart_eq (h.trans hle) h']
  split_ifs <;> omega

/-- The days of a year. -/
lemma yearStart_succ (year : ℤ) :
    yearStart (year + 1) = yearStart year + monthStart year 12 + 31 := by
  rw [monthStart_eq (by norm_num) (by norm_num)]
  unfold yearStart IsLeap
  split_ifs <;> omega

namespace Day

lemma valid_next (h : d.Valid) : d.next.Valid := by
  obtain ⟨hm, hm', hd, hd'⟩ := h
  unfold next
  split_ifs with hday hmonth
  · exact ⟨hm, hm', by dsimp only; omega, by dsimp only; omega⟩
  · have := monthLength_mem d.year (d.month + 1)
    exact ⟨by dsimp only; omega, by dsimp only; omega, le_rfl, by dsimp only; omega⟩
  · have := monthLength_mem (d.year + 1) 1
    exact ⟨le_rfl, by norm_num, le_rfl, by dsimp only; omega⟩

/-- The day after a day has the next number. -/
lemma number_next (h : d.Valid) : d.next.number = d.number + 1 := by
  obtain ⟨hm, hm', hd, hd'⟩ := h
  unfold next number yearDay
  split_ifs with hday hmonth
  · dsimp only
    omega
  · dsimp only
    rw [monthStart_succ hm]
    omega
  · -- The last day of December.
    have hmonth' : d.month = 12 := by omega
    have hlength : monthLength d.year 12 = 31 := rfl
    rw [hmonth', hlength] at hd' hday
    dsimp only
    rw [yearStart_succ, hmonth', monthStart_one]
    omega

lemma Valid.yearDay_nonneg (h : d.Valid) : 0 ≤ d.yearDay := by
  have hmono := monthStart_mono le_rfl h.one_le_month h.month_le d.year
  rw [monthStart_one] at hmono
  have := h.one_le_day
  unfold yearDay
  omega

lemma Valid.yearDay_lt (h : d.Valid) : d.yearDay < monthStart d.year 12 + 31 := by
  have hday := h.day_le
  unfold yearDay
  rcases h.month_le.lt_or_eq with hlt | heq
  · have hm := h.one_le_month
    have := monthStart_mono (by omega) (Int.add_one_le_of_lt hlt) le_rfl d.year
    rw [monthStart_succ hm] at this
    omega
  · have hlength : monthLength d.year 12 = 31 := rfl
    rw [heq, hlength] at hday
    rw [heq]
    omega

lemma number_lt_of_month_lt (h : d.Valid) (h' : d'.Valid) (hyear : d.year = d'.year)
    (hlt : d.month < d'.month) : d.number < d'.number := by
  obtain ⟨hm, hm', hd, hd'⟩ := h
  obtain ⟨-, hn', he, -⟩ := h'
  have hmono := monthStart_mono (by omega) (Int.add_one_le_of_lt hlt) hn' d'.year
  rw [monthStart_succ hm] at hmono
  unfold number yearDay
  rw [hyear] at hd' ⊢
  omega

lemma number_lt_of_year_lt (h : d.Valid) (h' : d'.Valid) (hlt : d.year < d'.year) :
    d.number < d'.number := by
  have hmono : yearStart (d.year + 1) ≤ yearStart d'.year := by
    unfold yearStart
    omega
  have hend := h.yearDay_lt
  have hstart := h'.yearDay_nonneg
  rw [yearStart_succ] at hmono
  unfold number
  omega

/-- A day comes before another one in the calendar. -/
def Before (d d' : Day) : Prop :=
  d.year < d'.year ∨ d.year = d'.year ∧
    (d.month < d'.month ∨ d.month = d'.month ∧ d.day < d'.day)

lemma before_trichotomy (d d' : Day) : d.Before d' ∨ d = d' ∨ d'.Before d := by
  obtain ⟨year, month, day⟩ := d
  obtain ⟨year', month', day'⟩ := d'
  simp only [Before, mk.injEq]
  omega

lemma Before.number_lt (h : d.Valid) (h' : d'.Valid) (hbefore : d.Before d') :
    d.number < d'.number := by
  rcases hbefore with hyear | ⟨hyear, hmonth | ⟨hmonth, hday⟩⟩
  · exact number_lt_of_year_lt h h' hyear
  · exact number_lt_of_month_lt h h' hyear hmonth
  · unfold number yearDay
    rw [hyear, hmonth]
    omega

/-- The order of the days is the order of their numbers. -/
lemma before_of_number_lt (h : d.Valid) (h' : d'.Valid) (hlt : d.number < d'.number) :
    d.Before d' := by
  rcases before_trichotomy d d' with hbefore | rfl | hafter
  · exact hbefore
  · exact absurd hlt (lt_irrefl _)
  · exact absurd hlt (hafter.number_lt h' h).not_gt

lemma number_inj (h : d.Valid) (h' : d'.Valid) (heq : d.number = d'.number) : d = d' := by
  rcases before_trichotomy d d' with hbefore | rfl | hafter
  · exact absurd heq (hbefore.number_lt h h').ne
  · rfl
  · exact absurd heq (hafter.number_lt h' h).ne'

end Day

/-! ### The day with a number -/

/-- The day `e` days after the first of March, in year `d` of century `b` after the year -4800, and
in month `m` after March. -/
def march (b d e m : ℤ) : Day :=
  ⟨b * 100 + d - 4800 + m / 10, m + 3 - 12 * (m / 10), e - (153 * m + 2) / 5 + 1⟩

/-- The numbers from which `march` makes a day of the calendar. -/
structure IsMarch (b d e m : ℤ) : Prop where
  year : 0 ≤ d ∧ d ≤ 99
  day : 0 ≤ e ∧ e ≤ 365
  leap : e = 365 → d % 4 = 3 ∧ (d = 99 → b % 4 = 3)
  month : (5 * e + 2) / 153 = m

lemma IsMarch.month_mem {b d e m : ℤ} (h : IsMarch b d e m) :
    m ≤ 9 ∧ 0 ≤ m ∧ m / 10 = 0 ∨ m ≤ 11 ∧ 10 ≤ m ∧ m / 10 = 1 := by
  obtain ⟨-, he, -, hm⟩ := h
  omega

lemma IsMarch.valid {b d e m : ℤ} (h : IsMarch b d e m) : (march b d e m).Valid := by
  have hten := h.month_mem
  obtain ⟨hd, he, hleap, hm⟩ := h
  refine ⟨?_, ?_, ?_, ?_⟩
  · dsimp only [march]
    omega
  · dsimp only [march]
    omega
  · dsimp only [march]
    omega
  · unfold march monthLength IsLeap
    dsimp only
    split_ifs <;> omega

lemma IsMarch.number {b d e m : ℤ} (h : IsMarch b d e m) :
    (march b d e m).number = 146097 * b / 4 + 1461 * d / 4 + e - 1753470 := by
  have hten := h.month_mem
  obtain ⟨hd, he, -, hm⟩ := h
  obtain ⟨y, hy⟩ : ∃ y, b * 100 + d - 4800 = y := ⟨_, rfl⟩
  have hb4 : 146097 * b / 4 = 36524 * b + b / 4 := by omega
  have hd4 : 1461 * d / 4 = 365 * d + d / 4 := by omega
  -- The first of January in a year that begins in March.
  have hjanuary : yearStart (y + 1) = 36524 * b + b / 4 + 365 * d + d / 4 + 306 - 1753470 := by
    rw [yearStart, add_sub_cancel_right]
    omega
  unfold march Day.number Day.yearDay
  dsimp only
  rw [hy, hb4, hd4, monthStart_eq (by omega) (by omega)]
  rcases hten with ⟨hm9, hm0, hten⟩ | ⟨hm11, hm10, hten⟩
  · have hnext := yearStart_succ y
    rw [hjanuary, monthStart_eq (by norm_num) (by norm_num), if_neg (by norm_num)] at hnext
    have hmonths : (367 * (m + 3) - 362) / 12 = (153 * m + 2) / 5 + 61 := by omega
    rw [hten, mul_zero, sub_zero, add_zero, if_neg (by omega), hmonths]
    split_ifs at hnext ⊢ <;> omega
  · rw [hten, hjanuary, if_pos (by omega)]
    omega

def ofNumber (n : ℤ) : Day :=
  let a := n + 1753470
  let b := (4 * a + 3) / 146097
  let c := a - 146097 * b / 4
  let d := (4 * c + 3) / 1461
  let e := c - 1461 * d / 4
  march b d e ((5 * e + 2) / 153)

/-- The numbers of `ofNumber`. -/
lemma ofNumber_eq (a : ℤ) : ∃ b c d e m, (4 * a + 3) / 146097 = b ∧ a - 146097 * b / 4 = c ∧
    (4 * c + 3) / 1461 = d ∧ c - 1461 * d / 4 = e ∧ (0 ≤ c ∧ c ≤ 36524) ∧ IsMarch b d e m ∧
    ofNumber (a - 1753470) = march b d e m := by
  obtain ⟨b, hb⟩ : ∃ b, (4 * a + 3) / 146097 = b := ⟨_, rfl⟩
  obtain ⟨c, hc⟩ : ∃ c, a - 146097 * b / 4 = c := ⟨_, rfl⟩
  obtain ⟨d, hd⟩ : ∃ d, (4 * c + 3) / 1461 = d := ⟨_, rfl⟩
  obtain ⟨e, he⟩ : ∃ e, c - 1461 * d / 4 = e := ⟨_, rfl⟩
  have hb4 : 146097 * b / 4 = 36524 * b + b / 4 := by omega
  have hd4 : 1461 * d / 4 = 365 * d + d / 4 := by omega
  have hc0 : 0 ≤ c ∧ c ≤ 36524 ∧ (c = 36524 → b % 4 = 3) := by omega
  have hd0 : 0 ≤ d ∧ d ≤ 99 := by omega
  have he0 : 0 ≤ e ∧ e ≤ 365 ∧ (e = 365 → d % 4 = 3 ∧ (d = 99 → c = 36524)) := by omega
  refine ⟨b, c, d, e, _, hb, hc, hd, he, ⟨hc0.1, hc0.2.1⟩,
    ⟨hd0, ⟨he0.1, he0.2.1⟩, by omega, rfl⟩, ?_⟩
  rw [ofNumber, sub_add_cancel, hb, hc, hd, he]

/-- The day with a number is in the calendar, and has this number. -/
lemma ofNumber_spec (n : ℤ) : (ofNumber n).Valid ∧ (ofNumber n).number = n := by
  obtain ⟨b, c, d, e, m, -, hc, -, he, -, h, heq⟩ := ofNumber_eq (n + 1753470)
  rw [add_sub_cancel_right] at heq
  rw [heq]
  refine ⟨h.valid, ?_⟩
  rw [h.number]
  omega

lemma Day.Valid.ofNumber_number (h : d.Valid) : ofNumber d.number = d :=
  Day.number_inj (ofNumber_spec _).1 h (ofNumber_spec _).2

end Gregorian

end Machine

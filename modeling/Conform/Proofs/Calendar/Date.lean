import Conform.Calendar.Date
import Mathlib.Tactic.IntervalCases

/-! Day numbers and dates. The date of a day number is one of the calendar, and its day number is the one it is made of.
    Within an era of 400 years a day is found by its century, its period of four years, its year and its day there;
    years begin in March, so that what is left over stands at the end of each. -/

namespace Conform

namespace Calendar

/-! ### Days of an era -/

/-- A day of an era of 400 years, counted from March: the last century, and the last year of each period of four but the
    last of a century, have one day more. -/
structure EraDay where
  century : Nat
  period : Nat
  year : Nat
  day : Nat
  century_le : century ≤ 3
  period_le : period ≤ 24
  year_le : year ≤ 3
  day_le : day ≤ 365
  leap : day = 365 → year = 3 ∧ (period = 24 → century = 3)

namespace EraDay

variable (d : EraDay)

/-- The year of the era. -/
def yearOfEra : Nat := 100 * d.century + 4 * d.period + d.year

/-- The number of the day in its era. -/
def number : Nat := 36524 * d.century + 1461 * d.period + 365 * d.year + d.day

/-- Every day of an era is one. -/
theorem exists_number {n : Nat} (h : n < 146097) : ∃ d : EraDay, d.number = n := by
  obtain ⟨c, hc⟩ : ∃ c, c = min (n / 36524) 3 := ⟨_, rfl⟩
  obtain ⟨p, hp⟩ : ∃ p, p = (n - 36524 * c) / 1461 := ⟨_, rfl⟩
  obtain ⟨y, hy⟩ : ∃ y, y = min ((n - 36524 * c - 1461 * p) / 365) 3 := ⟨_, rfl⟩
  refine ⟨⟨c, p, y, n - 36524 * c - 1461 * p - 365 * y, ?_, ?_, ?_, ?_, ?_⟩, ?_⟩
  · omega
  · omega
  · omega
  · omega
  · omega
  · simp only [number]
    omega

/-- The year of a day of an era, as it is computed of its number. -/
theorem yearOfEra_eq :
    (d.number - d.number / 1460 + d.number / 36524 - d.number / 146096) / 365 = d.yearOfEra := by
  obtain ⟨c, p, y, r, hc, hp, hy, hr, hleap⟩ := d
  simp only [number, yearOfEra]
  obtain ⟨n, hn⟩ : ∃ n, n = 36524 * c + 1461 * p + 365 * y + r := ⟨_, rfl⟩
  rw [← hn]
  -- The periods before the day, with one more near the end of a leap year.
  have hperiods : n / 1460 = 25 * c + p ∧ 24 * c + p + 365 * y + r < 1460 ∨
      n / 1460 = 25 * c + p + 1 ∧ 1460 ≤ 24 * c + p + 365 * y + r := by omega
  by_cases hlast : n = 146096
  · subst hlast
    omega
  · have hcentury : n / 36524 = c := by omega
    have hera : n / 146096 = 0 := by omega
    rw [hcentury, hera]
    obtain ⟨hperiods, hbefore⟩ | ⟨hperiods, hbehind⟩ := hperiods
    · rw [hperiods]
      omega
    · rw [hperiods]
      omega

/-- The days of the era before the year of a day. -/
theorem number_sub_day : 365 * d.yearOfEra + d.yearOfEra / 4 - d.yearOfEra / 100 = d.number - d.day := by
  obtain ⟨c, p, y, r, hc, hp, hy, hr, hleap⟩ := d
  simp only [number, yearOfEra]
  omega

/-- The months of the year before a day, from March. -/
def months : Nat := (5 * d.day + 2) / 153

/-- The date of a day of an era. Months behind the tenth belong to the next year. -/
def civil (era : Int) : Civil :=
  let month := if d.months < 10 then d.months + 3 else d.months - 9
  { year := 400 * era + d.yearOfEra + (if month ≤ 2 then 1 else 0)
    month := month
    day := d.day - (153 * d.months + 2) / 5 + 1 }

/-- A month begins on its first day and ends before the next one begins. -/
theorem months_spec : d.months ≤ 11 ∧ (153 * d.months + 2) / 5 ≤ d.day ∧ d.day < (153 * (d.months + 1) + 2) / 5 := by
  have hday := d.day_le
  unfold months
  omega

/-- The last day of a year that has one more is the leap day of the next. -/
theorem isLeap_of_last (era : Int) (h : d.day = 365) : isLeap (400 * era + d.yearOfEra + 1) = true := by
  obtain ⟨hyear, hperiod⟩ := d.leap h
  have hle := d.period_le
  simp only [isLeap, yearOfEra, Bool.and_eq_true, Bool.or_eq_true, beq_iff_eq, bne_iff_ne]
  omega

/-- The months from March to January have a day for each one before the next month. -/
theorem daysInMonth_of_months (year : Int) {m : Nat} (h : m ≤ 10) :
    daysInMonth year (if m < 10 then m + 3 else m - 9) = (153 * (m + 1) + 2) / 5 - (153 * m + 2) / 5 := by
  interval_cases m <;> rfl

/-- The date is one of the calendar. -/
theorem civil_valid (era : Int) :
    1 ≤ (d.civil era).month ∧ (d.civil era).month ≤ 12 ∧ 1 ≤ (d.civil era).day ∧
      (d.civil era).day ≤ daysInMonth (d.civil era).year (d.civil era).month := by
  obtain ⟨hm, hlow, hhigh⟩ := d.months_spec
  have hday := d.day_le
  dsimp only [civil]
  refine ⟨by split <;> omega, by split <;> omega, Nat.le_add_left 1 _, ?_⟩
  by_cases hlast : d.months ≤ 10
  · rw [daysInMonth_of_months _ hlast]
    omega
  · have hfebruary : d.months = 11 := by omega
    rw [hfebruary] at hlow ⊢
    by_cases hend : d.day = 365
    · have hyear : daysInMonth (400 * era + d.yearOfEra + 1) 2 = 29 := by simp [daysInMonth, d.isLeap_of_last era hend]
      exact (show d.day - 337 + 1 ≤ 29 by omega).trans_eq hyear.symm
    · have hshort : 28 ≤ daysInMonth (400 * era + d.yearOfEra + 1) 2 := by
        rw [daysInMonth]
        split <;> split <;> omega
      exact (show d.day - 337 + 1 ≤ 28 by omega).trans hshort

theorem dayNumber_civil (era : Int) :
    dayNumber (d.civil era).year (d.civil era).month (d.civil era).day = 146097 * era + d.number - 719468 := by
  obtain ⟨hm, hlow, -⟩ := d.months_spec
  have hyear := d.number_sub_day
  have hnumber : d.day ≤ d.number := by
    simp only [number]
    omega
  have hlt : d.yearOfEra < 400 := by
    have hc := d.century_le
    have hp := d.period_le
    have hy := d.year_le
    simp only [yearOfEra]
    omega
  have hquarter : (400 * era + d.yearOfEra) / 4 = 100 * era + (d.yearOfEra / 4 : Nat) := by omega
  have hcentury : (400 * era + d.yearOfEra) / 100 = 4 * era + (d.yearOfEra / 100 : Nat) := by omega
  have hera : (400 * era + d.yearOfEra) / 400 = era := by omega
  simp only [dayNumber, civil]
  by_cases hlast : d.months < 10
  · have hmonth : ¬d.months + 3 ≤ 2 := by omega
    simp only [if_pos hlast, if_neg hmonth, add_zero, hquarter, hcentury, hera]
    push_cast
    omega
  · have hmonth : d.months - 9 ≤ 2 := by omega
    simp only [if_neg hlast, if_pos hmonth, add_sub_cancel_right, hquarter, hcentury, hera]
    push_cast
    omega

end EraDay

/-! ### Day numbers -/

theorem civil_eq (number : Int) :
    ∃ (era : Int) (d : EraDay), number = 146097 * era + d.number - 719468 ∧ civil number = d.civil era := by
  obtain ⟨d, hd⟩ := EraDay.exists_number (n := ((number + 719468) % 146097).toNat) (by omega)
  refine ⟨(number + 719468) / 146097, d, by omega, ?_⟩
  have hyear := d.number_sub_day
  have hday : d.number - (d.number - d.day) = d.day := by
    simp only [EraDay.number]
    omega
  simp only [civil, ← hd, d.yearOfEra_eq, d.number_sub_day, hday]
  rfl

/-- The date of a day number is one of the calendar, and has that day number. -/
theorem dayNumber_civil (number : Int) : dayNumber (civil number).year (civil number).month (civil number).day = number := by
  obtain ⟨era, d, rfl, hcivil⟩ := civil_eq number
  rw [hcivil, d.dayNumber_civil]

theorem civil_valid (number : Int) :
    1 ≤ (civil number).month ∧ (civil number).month ≤ 12 ∧ 1 ≤ (civil number).day ∧
      (civil number).day ≤ daysInMonth (civil number).year (civil number).month := by
  obtain ⟨era, d, -, hcivil⟩ := civil_eq number
  rw [hcivil]
  exact d.civil_valid era

theorem daysInMonth_le (year : Int) (month : Nat) : daysInMonth year month ≤ 31 := by
  rw [daysInMonth]
  split <;> split <;> omega

end Calendar

namespace Date

theorem civil_bounds (d : Date) : (1 ≤ d.civil.month ∧ d.civil.month ≤ 12) ∧ 1 ≤ d.civil.day ∧ d.civil.day ≤ 31 := by
  obtain ⟨hmonth, hmonth', hday, hday'⟩ := Calendar.civil_valid d.number
  exact ⟨⟨hmonth, hmonth'⟩, hday, hday'.trans (Calendar.daysInMonth_le _ _)⟩

theorem ofNumber?_number (d : Date) : ofNumber? d.number = some d := dif_pos ⟨d.min_le, d.le_max⟩

/-- A day spelt out is a date if it is in the calendar. -/
theorem ofCivil?_eq (number : Int) :
    ofCivil? (Calendar.civil number).year (Calendar.civil number).month (Calendar.civil number).day = ofNumber? number := by
  obtain ⟨hmonth, hmonth', hday, hday'⟩ := Calendar.civil_valid number
  rw [ofCivil?, if_pos ⟨hmonth, hmonth', hday, hday'⟩, Calendar.dayNumber_civil]

/-- A date is the one that it spells. -/
theorem ofCivil?_civil (d : Date) : ofCivil? d.civil.year d.civil.month d.civil.day = some d :=
  (ofCivil?_eq d.number).trans d.ofNumber?_number

/-- A day of a year of four digits is in the calendar. -/
theorem isSome_ofNumber? {number : Int} (h : 0 ≤ (Calendar.civil number).year ∧ (Calendar.civil number).year ≤ 9999) :
    (ofNumber? number).isSome = true := by
  obtain ⟨hmonth, hmonth', hday, hday'⟩ := Calendar.civil_valid number
  have hnumber := Calendar.dayNumber_civil number
  generalize Calendar.civil number = c at *
  have hdays : c.day ≤ 31 := hday'.trans (Calendar.daysInMonth_le _ _)
  simp only [Calendar.dayNumber] at hnumber
  obtain ⟨y, hy⟩ : ∃ y, y = if c.month ≤ 2 then c.year - 1 else c.year := ⟨_, rfl⟩
  rw [← hy] at hnumber
  have hyear : -1 ≤ y ∧ y ≤ 9999 := by split at hy <;> omega
  have hbounds : -96465292 ≤ number ∧ number ≤ 95026236 := by split at hnumber <;> omega
  rw [ofNumber?, dif_pos hbounds]
  rfl

end Date

end Conform

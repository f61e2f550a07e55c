/-!
Dates of the proleptic Gregorian calendar. A date is the number of its day, counted from 1 January
1970; years run from -262143 to 262142.
-/

namespace Conform.Calendar

/-! ### Years, months and days -/

def isLeap (year : Int) : Bool := year % 4 == 0 && (year % 100 != 0 || year % 400 == 0)

def daysInMonth (year : Int) (month : Nat) : Nat :=
  if month = 2 then (if isLeap year then 29 else 28)
  else if month = 4 ∨ month = 6 ∨ month = 9 ∨ month = 11 then 30
  else 31

/-- The day number of a date. Years are counted from March, so that a leap day ends its year. -/
def dayNumber (year : Int) (month day : Nat) : Int :=
  let y := if month ≤ 2 then year - 1 else year
  let m : Int := if month ≤ 2 then month + 9 else (month : Int) - 3
  365 * y + y / 4 - y / 100 + y / 400 + (153 * m + 2) / 5 + day - 719469

/-- A date spelt out. -/
structure Civil where
  year : Int
  month : Nat
  day : Nat
deriving DecidableEq

/-- The year, month and day of a day number. -/
def civil (number : Int) : Civil :=
  let z := number + 719468
  let era := z / 146097
  let ofEra := (z % 146097).toNat
  let year := (ofEra - ofEra / 1460 + ofEra / 36524 - ofEra / 146096) / 365
  let ofYear := ofEra - (365 * year + year / 4 - year / 100)
  let m := (5 * ofYear + 2) / 153
  let month := if m < 10 then m + 3 else m - 9
  { year := 400 * era + year + (if month ≤ 2 then 1 else 0)
    month := month
    day := ofYear - (153 * m + 2) / 5 + 1 }

/-- Days of the week from Monday, as 0, to Sunday, as 6. -/
def weekday (number : Int) : Nat := ((number + 3) % 7).toNat

end Conform.Calendar

namespace Conform

open Calendar

/-- A day between 1 January -262143 and 31 December 262142. -/
structure Date where
  number : Int
  min_le : -96465292 ≤ number
  le_max : number ≤ 95026236
deriving DecidableEq

namespace Date

def ofNumber? (n : Int) : Option Date :=
  if h : -96465292 ≤ n ∧ n ≤ 95026236 then some ⟨n, h.1, h.2⟩ else none

/-- A date in the calendar, if there is one. -/
def ofCivil? (year : Int) (month day : Nat) : Option Date :=
  if 1 ≤ month ∧ month ≤ 12 ∧ 1 ≤ day ∧ day ≤ daysInMonth year month then
    ofNumber? (dayNumber year month day)
  else none

def civil (d : Date) : Civil := Calendar.civil d.number

end Date

end Conform

import Conform.Calendar.Time
import Conform.Numeric.Digits

/-!
Writing dates, times and durations in the forms of ISO 8601. Years outside 0 to 9999 carry a sign; a
fraction of a second has three, six or nine digits, or is left out; a leap second is second 60.
-/

namespace Conform

open Digits (ofNat padded)

/-- A year in four digits; a year beyond them has a sign. -/
def Calendar.yearText (year : Int) : List Char :=
  if 0 ≤ year ∧ year ≤ 9999 then padded 4 year.toNat
  else (if year < 0 then '-' else '+') :: padded 4 year.natAbs

def Calendar.dateText (c : Calendar.Civil) : List Char :=
  Calendar.yearText c.year ++ '-' :: padded 2 c.month ++ '-' :: padded 2 c.day

def Date.text (d : Date) : List Char := Calendar.dateText d.civil

/-- The digits of a fraction of a second, in groups of three. -/
def Calendar.fractionText (nano : Nat) : List Char :=
  if nano = 0 then []
  else if nano % 1000000 = 0 then '.' :: padded 3 (nano / 1000000)
  else if nano % 1000 = 0 then '.' :: padded 6 (nano / 1000)
  else '.' :: padded 9 nano

/-- The seconds of the day and nanoseconds as a clock shows them. -/
def Calendar.clockText (second nano : Nat) : List Char :=
  padded 2 (second / 3600) ++ ':' :: padded 2 (second / 60 % 60) ++
    ':' :: padded 2 (second % 60 + nano / 1000000000) ++ Calendar.fractionText (nano % 1000000000)

def Time.text (t : Time) : List Char := Calendar.clockText t.second t.nano

def DateTime.text (t : DateTime) : List Char := t.date.text ++ 'T' :: t.time.text

/-- An offset to the nearest minute. -/
def Calendar.offsetText (offset : Int) : List Char :=
  let minutes := (offset.natAbs + 30) / 60
  (if offset < 0 then '-' else '+') :: padded 2 (minutes / 60) ++ ':' :: padded 2 (minutes % 60)

/-- The clock at the offset, then the offset; leap seconds are those of UTC. -/
def OffsetDateTime.text (t : OffsetDateTime) : List Char :=
  Calendar.dateText (Calendar.civil t.shown.1) ++ 'T' :: Calendar.clockText t.shown.2 t.utc.time.nano ++
    Calendar.offsetText t.offset

/-- The significant digits of a fraction of a second. -/
def Calendar.shortFractionText (nano : Nat) : List Char :=
  if nano = 0 then []
  else
    let (digits, dropped) := Digits.dropZeros 9 nano
    '.' :: padded (9 - dropped) digits

/-- A duration in seconds alone; no time at all is no day. -/
def Duration.text (d : Duration) : List Char :=
  if d.nanos = 0 then ['P', '0', 'D']
  else
    let n := d.nanos.natAbs
    let body := 'P' :: 'T' :: ofNat (n / 1000000000) ++ Calendar.shortFractionText (n % 1000000000) ++ ['S']
    if d.nanos < 0 then '-' :: body else body

end Conform

import Conform.Calendar.Date

/-!
Times of day, with and without a date and an offset from UTC, and durations. The nanoseconds of a
second reach past 10⁹ in a leap second. What is read or counted makes leap seconds of the last second
of a minute alone; a clock moved by some seconds has them elsewhere, and a time may be built so.
-/

namespace Conform

/-! ### Times -/

/-- A time of day: seconds since midnight and nanoseconds of that second. -/
structure Time where
  second : Nat
  nano : Nat
  second_lt : second < 86400
  nano_lt : nano < 2000000000
deriving DecidableEq

namespace Time

/-- The time of day, if there is such a one: only the last second of a minute may be a leap second. -/
def make? (second nano : Nat) : Option Time :=
  if h : second < 86400 ∧ nano < 2000000000 ∧ (1000000000 ≤ nano → second % 60 = 59) then
    some ⟨second, nano, h.1, h.2.1⟩
  else none

def midnight : Time := ⟨0, 0, by decide, by decide⟩

/-- The time of day so many seconds later, on whichever day; the nanoseconds stay, those of a leap
    second too, which need not be the last of its minute then. -/
def shift (t : Time) (seconds : Int) : Time :=
  ⟨((t.second + seconds) % 86400).toNat, t.nano, by omega, t.nano_lt⟩

theorem second_shift (t : Time) (seconds : Int) : (t.shift seconds).second = ((t.second + seconds) % 86400).toNat := rfl

theorem nano_shift (t : Time) (seconds : Int) : (t.shift seconds).nano = t.nano := rfl

/-- Hours, minutes and seconds as a clock shows them; a leap second is second 60. -/
def ofClock? (hour minute second nano : Nat) : Option Time :=
  if hour < 24 ∧ minute < 60 ∧ second ≤ 60 ∧ nano < 1000000000 then
    if second = 60 then make? (hour * 3600 + minute * 60 + 59) (nano + 1000000000)
    else make? (hour * 3600 + minute * 60 + second) nano
  else none

protected def compare (a b : Time) : Ordering :=
  (Ord.compare a.second b.second).then (Ord.compare a.nano b.nano)

end Time

/-! ### Dates with times -/

/-- A date and a time of day, without an offset. -/
structure DateTime where
  date : Date
  time : Time
deriving DecidableEq

namespace DateTime

/-- Seconds since the start of 1970. -/
def epoch (t : DateTime) : Int := t.date.number * 86400 + t.time.second

/-- The clock so long after the start of 1970; the day is rounded down, so times before 1970 count from
    midnight too. -/
def ofEpoch? (seconds : Int) (nano : Nat) : Option DateTime := do
  let date ← Date.ofNumber? (seconds / 86400)
  let time ← Time.make? (seconds % 86400).toNat nano
  pure ⟨date, time⟩

/-- Microseconds since the start of 1970; a finer part is cut off. -/
def epochMicros (t : DateTime) : Int := t.epoch * 1000000 + (t.time.nano / 1000 : Nat)

/-- The clock moved by some seconds, if the date stays in the calendar. -/
def shift? (t : DateTime) (seconds : Int) : Option DateTime :=
  (Date.ofNumber? ((t.epoch + seconds) / 86400)).map fun date => ⟨date, t.time.shift seconds⟩

protected def compare (a b : DateTime) : Ordering :=
  (Ord.compare a.date.number b.date.number).then (a.time.compare b.time)

end DateTime

/-- An instant and the offset from UTC, in seconds, under which it is shown. -/
structure OffsetDateTime where
  utc : DateTime
  offset : Int
  offset_lt : offset.natAbs < 86400
deriving DecidableEq

namespace OffsetDateTime

def ofUtc (utc : DateTime) : OffsetDateTime := ⟨utc, 0, by decide⟩

/-- The instant at which clocks with the given offset show `local`. -/
def ofLocal? (shown : DateTime) (offset : Int) : Option OffsetDateTime :=
  if h : offset.natAbs < 86400 then (shown.shift? (-offset)).map fun utc => ⟨utc, offset, h⟩ else none

/-- What clocks show: the day number, which may lie just outside the calendar, and the second. -/
def shown (t : OffsetDateTime) : Int × Nat :=
  let seconds := t.utc.epoch + t.offset
  (seconds / 86400, (seconds % 86400).toNat)

/-- The date and time that clocks show, if the date lies in the calendar. -/
def local? (t : OffsetDateTime) : Option DateTime := t.utc.shift? t.offset

/-- The time of day that clocks show, on whatever date. -/
def clock (t : OffsetDateTime) : Time := t.utc.time.shift t.offset

/-- Order of the instants. -/
protected def compare (a b : OffsetDateTime) : Ordering := a.utc.compare b.utc

/-- Equality of the instants. -/
def same (a b : OffsetDateTime) : Bool := a.utc = b.utc

end OffsetDateTime

/-! ### Durations -/

/-- A signed length of time in nanoseconds, up to `2 ^ 63 - 1` milliseconds either way. -/
structure Duration where
  nanos : Int
  nanos_le : nanos.natAbs ≤ 9223372036854775807000000
deriving DecidableEq

namespace Duration

def ofNanos? (n : Int) : Option Duration :=
  if h : n.natAbs ≤ 9223372036854775807000000 then some ⟨n, h⟩ else none

/-- Whole microseconds toward zero, if 64 bits hold them. -/
def micros? (d : Duration) : Option Int :=
  let us := d.nanos.tdiv 1000
  if -9223372036854775808 ≤ us ∧ us ≤ 9223372036854775807 then some us else none

/-- Whole seconds toward zero. -/
def seconds (d : Duration) : Int := d.nanos.tdiv 1000000000

def isZero (d : Duration) : Bool := d.nanos == 0

protected def compare (a b : Duration) : Ordering := Ord.compare a.nanos b.nanos

end Duration

end Conform

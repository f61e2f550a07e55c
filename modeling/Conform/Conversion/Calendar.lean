import Conform.Calendar.Span
import Conform.Calendar.Zone
import Conform.Conversion.Number

/-!
Conversion to dates, times and durations. Numbers are seconds since 1970, or milliseconds from 10¹¹
on; texts are read with an offset where they end in the mark of a zone. A time with date loses its
time as a date, and its date as a time of day.
-/

namespace Conform

namespace Converter

open Scope (refuse)

/-! ### Numbers as instants -/

def billion : Decimal := Decimal.ofInt 1000000000

/-- The seconds since 1970 that a number means: one of at least 10¹¹ in size counts milliseconds. -/
def epochSeconds (d : Decimal) : Decimal :=
  if d.abs.compare (Decimal.ofInt 100000000000) == .lt then d else (d.div? (Decimal.ofInt 1000)).getD d

/-- The clock in UTC at a number of seconds since 1970, to the nearest nanosecond. -/
def clockAt? (d : Decimal) : Option DateTime := do
  let seconds := epochSeconds d
  let part ← (← seconds.sub? (Decimal.ofInt seconds.floor)).mul? billion
  DateTime.ofEpoch? seconds.floor part.nearest.toNat

/-- The clock that a number of seconds since 1970 denotes, or of milliseconds where it is large. -/
def ofEpoch (v : Value) (t : Target) : Except ConversionError DateTime :=
  match v.toDecimal? with
  | none => .error (.mismatch v t.name .notFinite)
  | some d => match clockAt? d with
    | some clock => .ok clock
    | none => .error (.mismatch v t.name .timestampOutOfRange)

/-! ### Texts as instants -/

/-- A text with an offset where the mark of a zone ends it, and without one first otherwise. -/
def moment? (cs : List Char) : Option Value :=
  let aware := (OffsetDateTime.ofChars? cs).map Value.instant
  let naive := (DateTime.ofChars? cs).map Value.datetime
  if (Calendar.beforeZone? cs).isSome then aware.or naive else naive.or aware

/-! ### Dates -/

/-- The date of a clock; midnight is no loss. -/
def dateOf (s : Scope) (v : Value) (t : Target) (clock : DateTime) : Conversion := do
  unless clock.time = Time.midnight do s.allowLoss v t
  pure (.date clock.date)

/-- The clock at the offset. Where its date leaves the calendar there is none, and the conversion to a date is
    broken off; the clock of UTC stands for that here. -/
def shownClock (t : OffsetDateTime) : DateTime := t.local?.getD t.utc

/-- A text that spells a date, or a clock, or else a number of seconds since 1970. -/
def dateOfText (s : Scope) (v : Value) (t : Target) (cs : List Char) : Conversion :=
  match Date.ofChars? cs with
  | some d => .ok (.date d)
  | none => match moment? cs with
    | some (.datetime clock) => dateOf s v t clock
    | some (.instant i) => dateOf s v t (shownClock i)
    | _ => match numeral? cs with
      | some n => do dateOf s v t (← ofEpoch n t)
      | none => refuse v t .unrecognizedDate

/-- A date by itself, or from a clock, which loses the time unless that is midnight. -/
def toDate : Converter := fun s v t =>
  match v with
  | .datetime clock => dateOf s v t clock
  | .instant i => dateOf s v t (shownClock i)
  | .str _ | .bytes _ => dateOfText s v t (v.trimmed?.getD [])
  | .int _ | .float _ | .decimal _ => do dateOf s v t (← ofEpoch v t)
  | v => s.collapse v t

/-! ### Times -/

/-- The time of day so long after midnight: whole seconds toward zero, and the rest as a word of 32 bits, which makes too
    many nanoseconds of a negative one. -/
def timeOfDuration? (d : Duration) : Option Time :=
  if 0 ≤ d.seconds ∧ d.seconds < 86400 then
    Time.make? d.seconds.toNat (UInt32.ofInt (d.nanos - d.seconds * 1000000000)).toNat
  else none

/-- A time of day by itself, or from a clock, which loses the date; a duration within a day counts from
    midnight. -/
def toTime : Converter := fun s v t =>
  match v with
  | .datetime clock => do
    s.allowLoss v t
    pure (.time clock.time)
  | .instant i => do
    s.allowLoss v t
    pure (.time i.clock)
  | .str _ | .bytes _ =>
    match Time.ofZonedChars? (v.trimmed?.getD []) with
    | some time => .ok (.time time)
    | none => refuse v t .unrecognizedTime
  | .duration d =>
    match timeOfDuration? d with
    | some time => .ok (.time time)
    | none => refuse v t .notWithinDay
  | v => s.collapse v t

/-! ### Times with dates -/

/-- The instant of UTC so many seconds after the start of 1970. -/
def instantAt (v : Value) (t : Target) : Conversion := do pure (.instant (.ofUtc (← ofEpoch v t)))

/-- A clock by itself, a date at its midnight, or a number of seconds since 1970. -/
def toDateTime : Converter := fun s v t =>
  match v with
  | .date d => .ok (.datetime ⟨d, .midnight⟩)
  | .str _ | .bytes _ =>
    let cs := v.trimmed?.getD []
    match moment? cs with
    | some moment => .ok moment
    | none => match numeral? cs with
      | some n => instantAt n t
      | none => refuse v t .unrecognizedDateTime
  | .int _ | .float _ | .decimal _ => instantAt v t
  | v => s.collapse v t

/-! ### Durations -/

/-- A number of seconds to the nearest microsecond, if 64 bits hold the microseconds. -/
def durationOf? (seconds : Decimal) : Option Duration := do
  let micros ← int64? (← seconds.mul? (Decimal.ofInt 1000000)).nearest
  Duration.ofNanos? (micros.toInt * 1000)

/-- The duration of so many seconds, where it is in range. -/
def ofSeconds (v : Value) (t : Target) (seconds : Decimal) : Conversion :=
  match durationOf? seconds with
  | some d => .ok (.duration d)
  | none => refuse v t .durationOutOfRange

/-- A text is a number of seconds, or else a duration in one of its notations. -/
def ofSpanText (v : Value) (t : Target) (cs : List Char) : Conversion :=
  match (numeral? cs).bind Value.toDecimal? with
  | some seconds => ofSeconds v t seconds
  | none => match Calendar.readSpan cs with
    | .ok seconds => ofSeconds v t seconds
    | .error .unrecognized => refuse v t .unrecognizedDuration
    | .error .outOfRange => refuse v t .durationOutOfRange

/-- The time since midnight; a leap second counts on. -/
def sinceMidnight (time : Time) : Decimal :=
  ((Decimal.ofInt time.second).add? ((Decimal.make? false time.nano 9).getD .zero)).getD .zero

/-- A number or a text of seconds, or the time since midnight. -/
def toDuration : Converter := fun s v t =>
  match v with
  | .int _ | .float _ | .decimal _ =>
    match v.toDecimal? with
    | some seconds => ofSeconds v t seconds
    | none => refuse v t .notFinite
  | .str _ | .bytes _ => ofSpanText v t (v.trimmed?.getD [])
  | .time time => ofSeconds v t (sinceMidnight time)
  | v => s.collapse v t

end Converter

end Conform

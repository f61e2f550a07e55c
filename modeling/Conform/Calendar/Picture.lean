import Conform.Calendar.Time
import Conform.Numeric.Digits
import Conform.Numeric.Power
import Conform.Text.Blank

/-!
Reading dates and times by picture. A picture is a list of pieces, each of which takes something from
the front of the text; what the pieces found is then put together into a date, a time or both. A
picture fits a text only if it takes all of it.
-/

namespace Conform.Calendar

/-! ### Pieces -/

/-- One piece of a picture. -/
inductive Piece
  | literal (c : Char)
  | blanks
  | year
  | month
  | day
  | hour
  | hour12
  | minute
  | second
  | fraction
  | meridiem
  | monthName
  | shortMonthName
  | weekdayName
  | offset
deriving DecidableEq

abbrev Picture := List Piece

/-- What the pieces of a picture found. -/
structure Found where
  year : Option Int := none
  month : Option Nat := none
  day : Option Nat := none
  weekday : Option Nat := none
  hour : Option Nat := none
  hour12 : Option Nat := none
  afternoon : Option Bool := none
  minute : Option Nat := none
  second : Option Nat := none
  nano : Option Nat := none
  offset : Option Int := none

/-! ### Taking numbers and names -/

/-- At least `least` and at most `most` digits. -/
def takeDigits? (least most : Nat) (cs : List Char) : Option (List Char × List Char) :=
  let digits := (cs.take most).takeWhile Char.isDigit
  if digits.length < least then none else some (digits, cs.drop digits.length)

def takeNumber? (least most : Nat) (cs : List Char) : Option (Nat × List Char) :=
  (takeDigits? least most cs).map fun (digits, rest) => (Digits.toNat digits, rest)

/-- A number of one or two digits behind blanks, within bounds. -/
def takeShort? (low high : Nat) (cs : List Char) : Option (Nat × List Char) := do
  let (n, rest) ← takeNumber? 1 2 (Text.trimStart cs)
  if low ≤ n ∧ n ≤ high then some (n, rest) else none

/-- A year: up to four digits, or any number of them behind a sign. -/
def takeYear? (cs : List Char) : Option (Int × List Char) :=
  match Text.trimStart cs with
  | '-' :: rest => do
    let (digits, rest) := Digits.span rest
    if digits.isEmpty then none else some (-(Digits.toNat digits), rest)
  | '+' :: rest => do
    let (digits, rest) := Digits.span rest
    if digits.isEmpty then none else some (Digits.toNat digits, rest)
  | cs => (takeNumber? 1 4 cs).map fun (n, rest) => ((n : Int), rest)

/-- A fraction of a second as nanoseconds; digits past the ninth are dropped. -/
def takeNanos? (cs : List Char) : Option (Nat × List Char) := do
  let (digits, rest) ← takeDigits? 1 9 cs
  pure (Digits.toNat digits * tenTo (9 - digits.length), rest.dropWhile Char.isDigit)

/-- The months in lower case: the first three letters, and the rest of the name. -/
def monthNames : List (List Char × List Char) :=
  [("jan", "uary"), ("feb", "ruary"), ("mar", "ch"), ("apr", "il"), ("may", ""), ("jun", "e"),
    ("jul", "y"), ("aug", "ust"), ("sep", "tember"), ("oct", "ober"), ("nov", "ember"), ("dec", "ember")].map
    fun (short, rest) => (short.toList, rest.toList)

/-- The days of the week, from Monday, by their first three letters. -/
def weekdayNames : List (List Char) :=
  ["mon", "tue", "wed", "thu", "fri", "sat", "sun"].map String.toList

/-- The first of some names at the front, as its index and what follows. -/
def takeName? (names : List (List Char)) (cs : List Char) : Option (Nat × List Char) :=
  (names.zipIdx).findSome? fun (name, i) => (Text.dropPrefixIgnoringCase? name cs).map (i, ·)

/-- A month by its first three letters. -/
def takeShortMonth? (cs : List Char) : Option (Nat × List Char) :=
  (takeName? (monthNames.map Prod.fst) cs).map fun (i, rest) => (i + 1, rest)

/-- A month by its first three letters or its whole name. -/
def takeMonth? (cs : List Char) : Option (Nat × List Char) := do
  let (month, rest) ← takeShortMonth? cs
  let (_, ending) ← monthNames[month - 1]?
  pure (month, (Text.dropPrefixIgnoringCase? ending rest).getD rest)

/-- How the hours and minutes of an offset may be parted. -/
inductive OffsetStyle
  | loose
  | colon
  | joined
deriving DecidableEq

/-- What stands between the hours and the minutes of an offset, removed. -/
def OffsetStyle.part? : OffsetStyle → List Char → Option (List Char)
  | .loose, cs => some (cs.dropWhile fun c => c == ':' || Text.isBlank c)
  | .colon, cs => Text.dropPrefix? [':'] cs
  | .joined, cs => some cs

/-- An offset in seconds: a sign, two digits of hours and two of minutes. Mail has no typographic minus. -/
def takeOffset? (style : OffsetStyle) (cs : List Char) : Option (Int × List Char) := do
  let (negative, rest) ← match cs with
    | '+' :: rest => some (false, rest)
    | '-' :: rest => some (true, rest)
    | '\u2212' :: rest => if style = .joined then none else some (true, rest)
    | _ => none
  let (hours, rest) ← takeNumber? 2 2 rest
  let (minutes, rest) ← takeNumber? 2 2 (← style.part? rest)
  if minutes < 60 then
    let seconds : Int := hours * 3600 + minutes * 60
    some (if negative then -seconds else seconds, rest)
  else none

/-! ### Reading -/

/-- One piece taken from the front of the text. -/
def Piece.take? (piece : Piece) (found : Found) (cs : List Char) : Option (Found × List Char) :=
  match piece with
  | .literal c => (Text.dropPrefix? [c] cs).map (found, ·)
  | .blanks => some (found, Text.trimStart cs)
  | .year => (takeYear? cs).map fun (n, rest) => ({ found with year := some n }, rest)
  | .month => (takeShort? 1 12 cs).map fun (n, rest) => ({ found with month := some n }, rest)
  | .day => (takeShort? 1 31 cs).map fun (n, rest) => ({ found with day := some n }, rest)
  | .hour => (takeShort? 0 23 cs).map fun (n, rest) => ({ found with hour := some n }, rest)
  | .hour12 => (takeShort? 1 12 cs).map fun (n, rest) => ({ found with hour12 := some n }, rest)
  | .minute => (takeShort? 0 59 cs).map fun (n, rest) => ({ found with minute := some n }, rest)
  | .second => (takeShort? 0 60 cs).map fun (n, rest) => ({ found with second := some n }, rest)
  | .fraction => match cs with
    | '.' :: digits => (takeNanos? digits).map fun (n, rest) => ({ found with nano := some n }, rest)
    | _ => some (found, cs)
  | .meridiem => (takeName? ["am".toList, "pm".toList] cs).map fun (i, rest) =>
      ({ found with afternoon := some (i == 1) }, rest)
  | .monthName => (takeMonth? cs).map fun (n, rest) => ({ found with month := some n }, rest)
  | .shortMonthName => (takeShortMonth? cs).map fun (n, rest) => ({ found with month := some n }, rest)
  | .weekdayName => (takeName? weekdayNames cs).map fun (n, rest) => ({ found with weekday := some n }, rest)
  | .offset => (takeOffset? .loose (Text.trimStart cs)).map fun (n, rest) =>
      ({ found with offset := some n }, rest)

/-- All pieces in turn. -/
def Picture.take? : Picture → Found → List Char → Option (Found × List Char)
  | [], found, cs => some (found, cs)
  | piece :: rest, found, cs => do
    let (found, cs) ← piece.take? found cs
    take? rest found cs

/-- What a picture finds in a text that it fits. -/
def Picture.read? (picture : Picture) (cs : List Char) : Option Found :=
  match picture.take? {} cs with
  | some (found, []) => some found
  | _ => none

/-! ### Putting together -/

/-- The date that was found; a weekday has to agree. -/
def Found.date? (found : Found) : Option Date := do
  let date ← Date.ofCivil? (← found.year) (← found.month) (← found.day)
  match found.weekday with
  | some w => if w = Calendar.weekday date.number then some date else none
  | none => some date

/-- The hour that was found, on either clock. -/
def Found.hour? (found : Found) : Option Nat :=
  match found.hour with
  | some h => some h
  | none => do
    let h ← found.hour12
    let afternoon ← found.afternoon
    pure (h % 12 + if afternoon then 12 else 0)

/-- The time that was found; seconds may be missing. -/
def Found.time? (found : Found) : Option Time := do
  Time.ofClock? (← found.hour?) (← found.minute) (found.second.getD 0) (found.nano.getD 0)

def Found.dateTime? (found : Found) : Option DateTime := do
  pure ⟨← found.date?, ← found.time?⟩

def Found.offsetDateTime? (found : Found) : Option OffsetDateTime := do
  OffsetDateTime.ofLocal? (← found.dateTime?) (← found.offset)

/-! ### Pictures of the library -/

/-- A date in figures with a separator. -/
def figures (separator : Char) : Picture := [.year, .literal separator, .month, .literal separator, .day]

/-- Hours, minutes and seconds. -/
def wholeClock : Picture := [.hour, .literal ':', .minute, .literal ':', .second]

/-- Hours, minutes and seconds with an optional fraction. -/
def clock : Picture := wholeClock ++ [.fraction]

/-- Hours and minutes. -/
def shortClock : Picture := [.hour, .literal ':', .minute]

/-- How a date is written, the likeliest ways first: a text is read by the first picture that fits. -/
def datePictures : List Picture :=
  [figures '-', figures '/', figures '.', [.year, .month, .day],
    [.day, .blanks, .monthName, .blanks, .year],
    [.monthName, .blanks, .day, .literal ',', .blanks, .year]]

/-- How a time of day is written, on a clock of 24 hours or of 12. -/
def timePictures : List Picture :=
  [clock, shortClock,
    [.hour12, .literal ':', .minute, .literal ':', .second, .blanks, .meridiem],
    [.hour12, .literal ':', .minute, .blanks, .meridiem],
    [.hour, .minute, .second]]

/-- How a date with a time is written, without a zone. -/
def dateTimePictures : List Picture :=
  [figures '-' ++ .literal 'T' :: clock, figures '-' ++ .blanks :: clock,
    figures '-' ++ .literal 'T' :: shortClock, figures '-' ++ .blanks :: shortClock,
    figures '/' ++ .blanks :: clock, figures '/' ++ .blanks :: shortClock,
    [.year, .month, .day, .literal 'T', .hour, .minute, .second],
    [.weekdayName, .blanks, .shortMonthName, .blanks, .day, .blanks] ++ wholeClock ++ [.blanks, .year]]

/-- How a date with a time is written, with its distance from UTC. -/
def offsetDateTimePictures : List Picture :=
  [figures '-' ++ .literal 'T' :: clock ++ [.offset], figures '-' ++ .blanks :: clock ++ [.offset],
    figures '-' ++ .literal 'T' :: shortClock ++ [.offset], figures '-' ++ .blanks :: shortClock ++ [.offset],
    figures '/' ++ .blanks :: clock ++ [.offset]]

end Conform.Calendar

namespace Conform

open Calendar

def Date.ofChars? (cs : List Char) : Option Date :=
  datePictures.findSome? fun p => (p.read? cs).bind Found.date?

def Time.ofChars? (cs : List Char) : Option Time :=
  timePictures.findSome? fun p => (p.read? cs).bind Found.time?

/-- A date with a time, or a date alone at midnight. -/
def DateTime.ofChars? (cs : List Char) : Option DateTime :=
  (dateTimePictures.findSome? fun p => (p.read? cs).bind Found.dateTime?).or
    ((Date.ofChars? cs).map (⟨·, Time.midnight⟩))

end Conform

import Conform.Calendar.Time
import Conform.Numeric.Decimal.Numeral
import Conform.Pattern.Known
import Conform.Text.Blank

/-!
Lengths of time in words: weeks to seconds with their letters behind `P`, and days with a clock. A
numeral may have digits of any script, but only ASCII digits have a value.
-/

namespace Conform.Calendar

/-- Why a text is no length of time. -/
inductive SpanError
  | unrecognized
  | outOfRange
deriving DecidableEq

/-- The parts of a length of time, as numerals, and the sign before all of them. -/
structure Span where
  negative : Bool
  days : Option (List Char)
  weighted : List (List Char × Nat)

/-! ### Numerals -/

/-- A digit of any script. -/
def isDigit (c : Char) : Bool := Pattern.Known.digit.contains c

/-- A run of digits, at least one. -/
def takeRun? (cs : List Char) : Option (List Char × List Char) :=
  let run := cs.takeWhile isDigit
  if run.isEmpty then none else some (run, cs.dropWhile isDigit)

/-- A point and a run of digits, if they come next. -/
def takeFraction (cs : List Char) : List Char × List Char :=
  match cs with
  | '.' :: rest => match takeRun? rest with
    | some (run, rest) => ('.' :: run, rest)
    | none => ([], cs)
  | _ => ([], cs)

/-- A run of digits with an optional fraction. -/
def takeNumeral? (cs : List Char) : Option (List Char × List Char) := do
  let (whole, rest) ← takeRun? cs
  let (fraction, rest) := takeFraction rest
  pure (whole ++ fraction, rest)

/-! ### Letters behind `P` -/

/-- The numerals before the given letters, each of which may be missing. -/
def takeParts (letters : List (Char × Nat)) (cs : List Char) : List (List Char × Nat) × List Char :=
  match letters with
  | [] => ([], cs)
  | (letter, weight) :: letters =>
    match takeNumeral? cs with
    | some (numeral, c :: rest) =>
      if c = letter then
        let (parts, rest) := takeParts letters rest
        ((numeral, weight) :: parts, rest)
      else takeParts letters cs
    | _ => takeParts letters cs

def dateLetters : List (Char × Nat) := [('W', 604800), ('D', 86400)]

def clockLetters : List (Char × Nat) := [('H', 3600), ('M', 60), ('S', 1)]

/-- A minus or plus sign, if it comes next. -/
def takeSign (cs : List Char) : Bool × List Char :=
  match cs with
  | '-' :: rest => (true, rest)
  | '+' :: rest => (false, rest)
  | _ => (false, cs)

/-- A sign, `P`, weeks and days, and behind `T` hours, minutes and seconds. -/
def readLettered? (cs : List Char) : Option Span := do
  let (negative, rest) := takeSign cs
  let (dates, rest) := takeParts dateLetters (← Text.dropPrefix? ['P'] rest)
  let (clock, rest) := match rest with
    | 'T' :: rest => takeParts clockLetters rest
    | _ => ([], rest)
  if rest.isEmpty then some ⟨negative, none, dates ++ clock⟩ else none

/-! ### Days and a clock -/

/-- A number of days, the word for them and a comma. -/
def takeDays? (cs : List Char) : Option (List Char × List Char) := do
  let (sign, rest) := match cs with
    | '-' :: rest => (['-'], rest)
    | _ => ([], cs)
  let (run, rest) ← takeRun? rest
  let rest ← Text.dropPrefix? [' ', 'd', 'a', 'y'] rest
  let rest := (Text.dropPrefix? ['s'] rest).getD rest
  pure (sign ++ run, Text.trimStart (← Text.dropPrefix? [','] rest))

/-- A run of one or two digits. -/
def takePair? (cs : List Char) : Option (List Char × List Char) := do
  let (run, rest) ← takeRun? cs
  if run.length ≤ 2 then some (run, rest) else none

/-- Days if they come first, a minus sign for the clock alone, and hours, minutes and seconds. -/
def readClock? (cs : List Char) : Option Span := do
  let (days, rest) := match takeDays? cs with
    | some (days, rest) => (some days, rest)
    | none => (none, cs)
  let (negative, rest) := match rest with
    | '-' :: rest => (true, rest)
    | _ => (false, rest)
  let (hours, rest) ← takeRun? rest
  let (minutes, rest) ← takePair? (← Text.dropPrefix? [':'] rest)
  let (seconds, rest) ← takePair? (← Text.dropPrefix? [':'] rest)
  let (fraction, rest) := takeFraction rest
  if rest.isEmpty then some ⟨negative, days, [(hours, 3600), (minutes, 60), (seconds ++ fraction, 1)]⟩ else none

/-! ### Seconds -/

/-- The sum of the numerals times their weights, if all of it fits. -/
def weighted? (parts : List (List Char × Nat)) : Option Decimal :=
  parts.foldlM (fun total (numeral, weight) => do
    total.add? (← (← Decimal.ofPlain? numeral).mul? (Decimal.ofInt weight))) Decimal.zero

/-- The seconds of a span; the sign applies to all but the days. -/
def Span.seconds? (span : Span) : Option Decimal := do
  let sum ← weighted? span.weighted
  let clock := if span.negative then sum.neg else sum
  match span.days with
  | some days => (← weighted? [(days, 86400)]).add? clock
  | none => pure clock

/-- The seconds that a text names. -/
def readSpan (cs : List Char) : Except SpanError Decimal :=
  let span := match readLettered? cs with
    -- Without a digit no part is named.
    | some span => if cs.any Char.isDigit then some span else none
    | none => readClock? cs
  match span with
  | none => .error .unrecognized
  | some span => match span.seconds? with
    | some seconds => .ok seconds
    | none => .error .outOfRange

end Conform.Calendar

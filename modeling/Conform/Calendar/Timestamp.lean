import Conform.Calendar.Picture

/-!
Instants with an offset in the fixed formats of the net: the timestamp of RFC 3339 and the date of a
mail header of RFC 2822, and the reader that tries these and the library's pictures in turn.
-/

namespace Conform.Calendar

/-! ### RFC 3339 -/

/-- A number of exactly `width` digits. -/
def takeFixed? (width : Nat) (cs : List Char) : Option (Nat × List Char) := takeNumber? width width cs

/-- A date, `T`, `t` or a space, a time with an optional fraction, and `Z`, `z` or an offset. -/
def readTimestamp? (cs : List Char) : Option OffsetDateTime := do
  let (year, cs) ← takeFixed? 4 cs
  let (month, cs) ← takeFixed? 2 (← Text.dropPrefix? ['-'] cs)
  let (day, cs) ← takeFixed? 2 (← Text.dropPrefix? ['-'] cs)
  let cs ← match cs with
    | c :: rest => if c = 'T' ∨ c = 't' ∨ c = ' ' then some rest else none
    | [] => none
  let (hour, cs) ← takeFixed? 2 cs
  let (minute, cs) ← takeFixed? 2 (← Text.dropPrefix? [':'] cs)
  let (second, cs) ← takeFixed? 2 (← Text.dropPrefix? [':'] cs)
  let (nano, cs) ← match cs with
    | '.' :: digits => takeNanos? digits
    | _ => some (0, cs)
  let (offset, cs) ← match cs with
    | 'Z' :: rest | 'z' :: rest => some (0, rest)
    | _ => takeOffset? .colon cs
  if cs.isEmpty then
    OffsetDateTime.ofLocal? ⟨← Date.ofCivil? year month day, ← Time.ofClock? hour minute second nano⟩ offset
  else none

/-! ### RFC 2822 -/

/-- At least one blank, removed with those behind it. -/
def skipBlanks? : List Char → Option (List Char)
  | [] => none
  | c :: rest => if Text.isBlank c then some (Text.trimStart rest) else none

/-- A year as mail abbreviates it: two digits lie in 1950 to 2049, three count from 1900. -/
def mailYear (digits : List Char) : Nat :=
  let n := Digits.toNat digits
  if digits.length = 2 then (if n < 50 then n + 2000 else n + 1900)
  else if digits.length = 3 then n + 1900
  else n

/-- The zones that mail may name, with their hours. -/
def mailZones : List (String × Int) :=
  [("gmt", 0), ("ut", 0), ("edt", -4), ("est", -5), ("cdt", -5), ("cst", -6), ("mdt", -6), ("mst", -7),
    ("pdt", -7), ("pst", -8)]

/-- The hours of a zone by its name in either case. A single letter other than `J` is a military zone,
    which stands for UTC, since mail has never used those letters one way. -/
def zoneHours? (name : List Char) : Option Int :=
  match name.map Char.toLower with
  | [letter] => if letter = 'j' then none else some 0
  | name => mailZones.lookup (String.ofList name)

/-- A zone by its name, or else by its offset, in seconds. -/
def takeMailZone? (cs : List Char) : Option (Int × List Char) :=
  let name := cs.takeWhile Char.isAlpha
  if name.isEmpty then takeOffset? .joined cs
  else (zoneHours? name).map fun hours => (hours * 3600, cs.dropWhile Char.isAlpha)

/-- What follows the parenthesis that closes the `depth`-th one; a backslash guards the next character. -/
def closeComment? : (depth : Nat) → List Char → Option (List Char)
  | _, [] => none
  | depth, '\\' :: _ :: rest => closeComment? depth rest
  | depth, '(' :: rest => closeComment? (depth + 1) rest
  | 0, ')' :: rest => some rest
  | depth + 1, ')' :: rest => closeComment? depth rest
  | depth, _ :: rest => closeComment? depth rest

/-- A text made of comments alone, each behind any number of blanks; at most `fuel` of them. -/
def onlyComments : (fuel : Nat) → List Char → Bool
  | _, [] => true
  | 0, _ :: _ => false
  | fuel + 1, cs =>
    match Text.trimStart cs with
    | '(' :: rest => match closeComment? 0 rest with
      | some rest => onlyComments fuel rest
      | none => false
    | _ => false

/-- An optional weekday, the day, the short name of the month, the year, hours and minutes, optional
    seconds, the zone, and comments. -/
def readMailDate? (cs : List Char) : Option OffsetDateTime := do
  let cs := Text.trimStart cs
  let (weekday, cs) ← match takeName? weekdayNames cs with
    | some (w, ',' :: rest) => some (some w, rest)
    | some _ => none
    | none => some (none, cs)
  let (day, cs) ← takeNumber? 1 2 (Text.trimStart cs)
  let (month, cs) ← takeShortMonth? (← skipBlanks? cs)
  let (digits, cs) ← some (Digits.span (← skipBlanks? cs))
  if digits.length < 2 then none
  let (hour, cs) ← takeFixed? 2 (← skipBlanks? cs)
  let (minute, cs) ← takeFixed? 2 (Text.trimStart (← Text.dropPrefix? [':'] (Text.trimStart cs)))
  let (second, cs) ← match Text.trimStart cs with
    | ':' :: rest => takeFixed? 2 rest
    | _ => some (0, cs)
  let (offset, cs) ← takeMailZone? (← skipBlanks? cs)
  if onlyComments cs.length cs then
    let found : Found :=
      { year := some (mailYear digits), month := some month, day := some day, weekday := weekday,
        hour := some hour, minute := some minute, second := some second, offset := some offset }
    found.offsetDateTime?
  else none

/-! ### Instants in any form -/

/-- The text before a given ending, ASCII letters in either case. -/
def dropEnding? (ending cs : List Char) : Option (List Char) :=
  (Text.dropPrefixIgnoringCase? ending.reverse cs.reverse).map List.reverse

/-- A text with its mark for UTC, `Z`, `UTC` or `GMT`, written as an offset. -/
def withOffset (cs : List Char) : List Char :=
  let zero := ['+', '0', '0', ':', '0', '0']
  match dropEnding? ['z'] cs with
  | some front => front ++ zero
  | none => match (dropEnding? ['u', 't', 'c'] cs).or (dropEnding? ['g', 'm', 't'] cs) with
    | some front => Text.trimEnd front ++ zero
    | none => cs

end Conform.Calendar

namespace Conform

open Calendar

/-- An instant with an offset: a mail date, a timestamp, or one of the library's pictures. -/
def OffsetDateTime.ofChars? (cs : List Char) : Option OffsetDateTime :=
  (readMailDate? cs).or <|
    let cs := withOffset cs
    (readTimestamp? cs).or <|
      offsetDateTimePictures.findSome? fun p => (p.read? cs).bind Found.offsetDateTime?

end Conform

import Conform.Pattern.Node
import Conform.Text.Blank

/-!
The flags of patterns, and what signs and letters stand for under them.
-/

namespace Conform.Pattern

/-- The flags that a pattern may set. -/
structure Flags where
  ignoreCase : Bool := false
  multiLine : Bool := false
  dotAll : Bool := false
  preferFew : Bool := false
  unicode : Bool := true
  ignoreBlanks : Bool := false
  anyLineEnd : Bool := false

namespace Flags

/-! ### Letters of flags -/

/-- The flags with that of a letter set or cleared. -/
def set? (flags : Flags) (letter : Char) (on : Bool) : Option Flags :=
  match letter with
  | 'i' => some { flags with ignoreCase := on }
  | 'm' => some { flags with multiLine := on }
  | 's' => some { flags with dotAll := on }
  | 'U' => some { flags with preferFew := on }
  | 'u' => some { flags with unicode := on }
  | 'x' => some { flags with ignoreBlanks := on }
  | 'R' => some { flags with anyLineEnd := on }
  | _ => none

/-- Flags by their letters, those behind a hyphen switched off; no letter twice. -/
def change? (flags : Flags) (seen : List Char) (on : Bool) : List Char → Option Flags
  | [] => some flags
  | c :: rest =>
    if seen.contains c then none
    else if c = '-' then if rest.isEmpty then none else change? flags (c :: seen) false rest
    else do change? (← flags.set? c on) (c :: seen) on rest

/-! ### Sets -/

/-- The set with both cases, where case is ignored. -/
def folded (flags : Flags) (s : CharSet) : CharSet :=
  if !flags.ignoreCase then s else if flags.unicode then s.anyCase else s.anyAsciiCase

/-- The set or its complement; without Unicode a complement would hold parts of characters. -/
def signed? (flags : Flags) (negated : Bool) (s : CharSet) : Option CharSet :=
  if !negated then some s else if flags.unicode then some s.complement else none

/-- A set of a class by its letter. -/
def shorthand? (flags : Flags) (letter : Char) : Option CharSet :=
  let pick (wide narrow : CharSet) : CharSet := if flags.unicode then wide else narrow
  match letter.toLower with
  | 'd' => flags.signed? letter.isUpper (pick Known.digit .asciiDigit)
  | 's' => flags.signed? letter.isUpper (pick Known.blank .asciiBlank)
  | 'w' => flags.signed? letter.isUpper (pick Known.word .asciiWord)
  | _ => none

/-- The characters that a point stands for. -/
def anyChar? (flags : Flags) : Option CharSet :=
  if !flags.unicode then none
  else if flags.dotAll then some (.complement .empty)
  else if flags.anyLineEnd then some (.complement (.union (.single '\n') (.single '\r')))
  else some (.complement (.single '\n'))

/-- Characters past ASCII are no bytes. -/
def admits (flags : Flags) (c : Char) : Bool := flags.unicode || c.toNat < 128

/-! ### Conditions -/

/-- What a caret looks for. -/
def lineStart (flags : Flags) : Look :=
  if !flags.multiLine then .start else if flags.anyLineEnd then .anyLineStart else .lineStart

/-- What a dollar sign looks for. -/
def lineFinish (flags : Flags) : Look :=
  if !flags.multiLine then .finish else if flags.anyLineEnd then .anyLineFinish else .lineFinish

/-- An edge of words, which without Unicode are those of ASCII. -/
def word (flags : Flags) (edge : WordEdge) : Look := .word edge !flags.unicode

/-! ### Blanks -/

/-- The text behind blanks and comments, which count only where flags do not have them ignored. -/
def skipBlanks (flags : Flags) (cs : List Char) : List Char := if flags.ignoreBlanks then skip false cs else cs
where
  /-- Skips blanks, and everything inside a comment. -/
  skip (comment : Bool) : List Char → List Char
    | [] => []
    | c :: rest =>
      if comment then skip (c != '\n') rest
      else if Text.isBlank c then skip false rest
      else if c = '#' then skip true rest
      else c :: rest

/-- The characters before the first that `stops`, and the text from there on, blanks and comments before
    it left out where they are ignored. -/
def spanBlanks (flags : Flags) (stops : Char → Bool) (comment : Bool) : List Char → List Char × List Char
  | [] => ([], [])
  | c :: rest =>
    if comment then flags.spanBlanks stops (c != '\n') rest
    else if flags.ignoreBlanks && Text.isBlank c then flags.spanBlanks stops false rest
    else if flags.ignoreBlanks && c == '#' then flags.spanBlanks stops true rest
    else if stops c then ([], c :: rest)
    else
      let (front, rest) := flags.spanBlanks stops false rest
      (c :: front, rest)

/-- The first character behind blanks where they are ignored. A comment sign is passed over, but what
    follows it is not; where nothing follows, the first character of all counts. -/
def peek (flags : Flags) (cs : List Char) : Option Char :=
  if !flags.ignoreBlanks then cs.head?
  else match Text.trimStart cs with
    | '#' :: rest => (Text.trimStart rest).head?.or cs.head?
    | rest => rest.head?.or cs.head?

end Flags

end Conform.Pattern

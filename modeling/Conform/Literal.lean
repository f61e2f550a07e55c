import Conform.Numeric.Binary64.Numeral
import Conform.Text.Blank
import Conform.Value.Equality
import Conform.Value.Text

/-!
Literal text: lists in brackets, tuples in parentheses, sets and maps in braces, strings in single or
double quotes, numbers, the words for truth and nothing, and bare words, which are strings. The
scanner takes a value from the front of the text and returns what is left.
-/

namespace Conform

/-- Why a text is no literal. -/
inductive LiteralError
  | valueExpected
  | trailingInput
  | expected (c : Char)
  | unterminated
  | badFloat (text : String)
  | badInteger (text : String)
deriving DecidableEq

/-- The error in words. -/
def LiteralError.detail : LiteralError → String
  | .valueExpected => "value expected"
  | .trailingInput => "trailing input"
  | .expected c => "expected '" ++ c.toString ++ "'"
  | .unterminated => "unterminated string"
  | .badFloat text => "bad float " ++ Text.quoted text
  | .badInteger text => "bad int " ++ Text.quoted text

/-- The error as it is shown. -/
def LiteralError.message (e : LiteralError) : String := "invalid literal syntax: " ++ e.detail

/-- An integer numeral of 64 bits: an optional sign and digits. -/
def integer? (cs : List Char) : Option Int64 :=
  let (negative, digits) := Binary64.signed cs
  if digits.isEmpty || !digits.all Char.isDigit then none
  else int64? (if negative then -(Digits.toNat digits) else Digits.toNat digits)

namespace Literal

/-! ### Words and numbers -/

/-- Characters that end a bare word. -/
def isDelimiter (c : Char) : Bool := c == ',' || c == ':' || c == ']' || c == ')' || c == '\x7d'

/-- The text up to a delimiter, without the blanks at its end. -/
def takeWord (cs : List Char) : Except LiteralError (String × List Char) :=
  let word := Text.trimEnd (cs.takeWhile (!isDelimiter ·))
  if word.isEmpty then .error .valueExpected
  else .ok (String.ofList word, cs.dropWhile (!isDelimiter ·))

/-- The value of a bare word. -/
def wordValue (word : String) : Value :=
  if word = "true" ∨ word = "True" then .bool true
  else if word = "false" ∨ word = "False" then .bool false
  else if word = "null" ∨ word = "None" then .null
  else .str word

/-- The longest run that can belong to a number behind its sign: digits, underscores, points, and
    exponent marks with a sign. -/
def numberRun : List Char → List Char × List Char
  | [] => ([], [])
  | mark :: sign :: rest =>
    if (mark == 'e' || mark == 'E') && (sign == '-' || sign == '+') then
      let (run, rest) := numberRun rest
      (mark :: sign :: run, rest)
    else if mark.isDigit || mark == '_' || mark == '.' || mark == 'e' || mark == 'E' then
      let (run, rest) := numberRun (sign :: rest)
      (mark :: run, rest)
    else ([], mark :: sign :: rest)
  | [c] =>
    if c.isDigit || c == '_' || c == '.' || c == 'e' || c == 'E' then ([c], []) else ([], [c])

/-- A number; one that runs into other characters is a bare word. -/
def takeNumber (cs : List Char) : Except LiteralError (Value × List Char) :=
  let sign := cs.take 1 |>.filter fun c => c == '-' || c == '+'
  let (run, rest) := numberRun (cs.drop sign.length)
  let ends := match rest with
    | [] => true
    | c :: _ => Text.isBlank c || isDelimiter c
  if ends then
    let numeral := sign ++ run.filter (· != '_')
    if run.any fun c => c == '.' || c == 'e' || c == 'E' then
      match Binary64.ofChars? numeral with
      | some x => .ok (.float x, rest)
      | none => .error (.badFloat (String.ofList numeral))
    else
      match integer? numeral with
      | some i => .ok (.int i, rest)
      | none => .error (.badInteger (String.ofList numeral))
  else (takeWord cs).map fun (word, rest) => (.str word, rest)

/-! ### Strings -/

/-- What a backslash and a character stand for; one without a meaning stands for both. -/
def unescape (c : Char) : List Char :=
  if c = 'n' then ['\n']
  else if c = 't' then ['\t']
  else if c = 'r' then ['\r']
  else if c = '\\' ∨ c = '"' ∨ c = '\'' then [c]
  else ['\\', c]

/-- The characters up to the closing quote. -/
def takeString (quote : Char) : List Char → Except LiteralError (List Char × List Char)
  | [] => .error .unterminated
  | c :: rest =>
    if c = quote then .ok ([], rest)
    else if c = '\\' then
      match rest with
      | [] => .error .unterminated
      | e :: rest => do
        let (cs, rest) ← takeString quote rest
        pure (unescape e ++ cs, rest)
    else do
      let (cs, rest) ← takeString quote rest
      pure (c :: cs, rest)

/-! ### Values -/

/-- The text behind a character that must come next. -/
def expect (c : Char) (cs : List Char) : Except LiteralError (List Char) :=
  match cs with
  | d :: rest => if c = d then .ok rest else .error (.expected c)
  | [] => .error (.expected c)

mutual

/-- A value behind blanks; every third step takes a character. -/
def takeValue : (fuel : Nat) → List Char → Except LiteralError (Value × List Char)
  | 0, _ => .error .valueExpected
  | fuel + 1, cs =>
    match Text.trimStart cs with
    | [] => .error .valueExpected
    | '[' :: rest => do
      let (items, rest) ← takeItems fuel ']' rest
      pure (.list items, rest)
    | '(' :: rest => do
      let (items, rest) ← takeItems fuel ')' rest
      pure (.tuple items, rest)
    | '\x7b' :: rest => takeBraced fuel rest
    | '"' :: rest => do
      let (s, rest) ← takeString '"' rest
      pure (.str (String.ofList s), rest)
    | '\'' :: rest => do
      let (s, rest) ← takeString '\'' rest
      pure (.str (String.ofList s), rest)
    | c :: rest =>
      if c = '-' ∨ c = '+' ∨ c.isDigit then takeNumber (c :: rest)
      else (takeWord (c :: rest)).map fun (word, rest) => (wordValue word, rest)

/-- Items up to the closing bracket, a comma behind the last allowed. -/
def takeItems : (fuel : Nat) → (close : Char) → List Char → Except LiteralError (List Value × List Char)
  | 0, _, _ => .error .valueExpected
  | fuel + 1, close, cs =>
    let cs := Text.trimStart cs
    if cs.head? = some close then .ok ([], cs.tail)
    else do
      let (item, rest) ← takeValue fuel cs
      let rest := Text.trimStart rest
      if rest.head? = some ',' then
        let (items, rest) ← takeItems fuel close rest.tail
        pure (item :: items, rest)
      else
        let rest ← expect close rest
        pure ([item], rest)

/-- Entries behind the first one, up to the closing brace. -/
def takeEntries : (fuel : Nat) → List Char → Except LiteralError (List (Value × Value) × List Char)
  | 0, _ => .error .valueExpected
  | fuel + 1, cs =>
    let cs := Text.trimStart cs
    if cs.head? = some '\x7d' then .ok ([], cs.tail)
    else do
      let rest := Text.trimStart (← expect ',' cs)
      if rest.head? = some '\x7d' then pure ([], rest.tail)
      else
        let (key, rest) ← takeValue fuel rest
        let (value, rest) ← takeValue fuel (← expect ':' (Text.trimStart rest))
        let (entries, rest) ← takeEntries fuel rest
        pure ((key, value) :: entries, rest)

/-- What stands in braces: nothing is an empty map, and a colon behind the first item tells a map
    from a set. -/
def takeBraced : (fuel : Nat) → List Char → Except LiteralError (Value × List Char)
  | 0, _ => .error .valueExpected
  | fuel + 1, cs =>
    let cs := Text.trimStart cs
    if cs.head? = some '\x7d' then .ok (.map [], cs.tail)
    else do
      let (first, rest) ← takeValue fuel cs
      let rest := Text.trimStart rest
      if rest.head? = some ':' then
        let (value, rest) ← takeValue fuel rest.tail
        let (entries, rest) ← takeEntries fuel rest
        pure (.map (Value.entriesOf ((first, value) :: entries)), rest)
      else if rest.head? = some '\x7d' then pure (.set [first], rest.tail)
      else
        let (items, rest) ← takeItems fuel '\x7d' (← expect ',' rest)
        pure (.set (Value.distinct (first :: items)), rest)

end

@[simp] theorem takeValue_zero (cs : List Char) : takeValue 0 cs = .error .valueExpected := by rw [takeValue]

@[simp] theorem takeItems_zero (close : Char) (cs : List Char) : takeItems 0 close cs = .error .valueExpected := by
  rw [takeItems]

@[simp] theorem takeEntries_zero (cs : List Char) : takeEntries 0 cs = .error .valueExpected := by rw [takeEntries]

@[simp] theorem takeBraced_zero (cs : List Char) : takeBraced 0 cs = .error .valueExpected := by rw [takeBraced]

/-- The value of a literal text: nothing but blanks may follow it. -/
def read (cs : List Char) : Except LiteralError Value := do
  let (value, rest) ← takeValue (3 * cs.length + 1) cs
  if (Text.trimStart rest).isEmpty then pure value else .error .trailingInput

end Literal

end Conform

import Conform.Numeric.Digits
import Conform.Pattern.Flags

/-!
Reading escapes. A backslash makes a sign stand for itself and a letter for what it means: a character by
its number, a set by its name or a condition. What has no meaning is refused.
-/

namespace Conform.Pattern

/-- What an escape stands for. -/
inductive Escaped
  | char (c : Char)
  | set (s : CharSet)
  | look (l : Look)

namespace Escaped

/-! ### Characters by their numbers -/

/-- Letters that stand for a control character. -/
def controls : List (Char × Char) :=
  [('a', '\x07'), ('f', '\x0c'), ('t', '\t'), ('n', '\n'), ('r', '\r'), ('v', '\x0b')]

/-- The character of a number. -/
def ofNumber? (n : Nat) : Option Escaped := if n.isValidChar then some (.char (Char.ofNat n)) else none

/-- The number that hexadecimal digits spell. -/
def hexadecimal? (digits : List Char) : Option Nat := do
  pure ((← digits.mapM Digits.hexValue?).foldl (fun n v => 16 * n + v) 0)

/-- Exactly `n` characters, blanks between them left out. -/
def takeExactly? (flags : Flags) : (n : Nat) → List Char → Option (List Char × List Char)
  | 0, cs => some ([], cs)
  | _ + 1, [] => none
  | n + 1, c :: rest => do
    let (front, rest) ← takeExactly? flags n (flags.skipBlanks rest)
    pure (c :: front, rest)

/-- The text up to a closing brace, blanks left out, and the text behind the brace. -/
def takeBraced? (flags : Flags) (cs : List Char) : Option (List Char × List Char) :=
  match flags.spanBlanks (· == '\x7d') false cs with
  | (front, _ :: rest) => some (front, rest)
  | (_, []) => none

/-- A character by its hexadecimal digits: as many as the letter asks for, or any number in braces. -/
def takeNumber? (flags : Flags) (letter : Char) (cs : List Char) : Option (Escaped × List Char) :=
  match flags.skipBlanks cs with
  | '\x7b' :: rest => do
    let (digits, rest) ← takeBraced? flags rest
    if digits.isEmpty then none
    pure (← ofNumber? (← hexadecimal? digits), rest)
  | cs => do
    let (digits, rest) ← takeExactly? flags (if letter = 'x' then 2 else if letter = 'u' then 4 else 8) cs
    let n ← hexadecimal? digits
    -- A byte that is no character of its own.
    if letter = 'x' ∧ 127 < n ∧ !flags.unicode then none
    pure (← ofNumber? n, rest)

/-! ### Sets by their names -/

/-- What stands before a separator and behind it. -/
def cut? (separator : List Char) : List Char → Option (List Char × List Char)
  | [] => none
  | c :: rest =>
    match Text.dropPrefix? separator (c :: rest) with
    | some behind => some ([], behind)
    | none => (cut? separator rest).map fun (front, behind) => (c :: front, behind)

/-- The set that a name stands for, and whether its complement is meant. -/
def namedSet? (name : List Char) : Option (Bool × CharSet) :=
  match cut? ['!', '='] name with
  | some (property, value) => (CharSet.valued? property value).map ((true, ·))
  | none => match (cut? [':'] name).or (cut? ['='] name) with
    | some (property, value) => (CharSet.valued? property value).map ((false, ·))
    | none => (CharSet.named? name).map ((false, ·))

/-- A name in braces, or of one letter. -/
def takeName? (flags : Flags) (cs : List Char) : Option (List Char × List Char) :=
  match flags.skipBlanks cs with
  | [] => none
  | '\x7b' :: rest => takeBraced? flags rest
  | c :: rest => if c = '\\' then none else some ([c], rest)

/-- A set by the name of a property. -/
def takeNamedSet? (flags : Flags) (negated : Bool) (cs : List Char) : Option (Escaped × List Char) := do
  if !flags.unicode then none
  let (name, rest) ← takeName? flags cs
  let (differs, s) ← namedSet? name
  pure (.set (← flags.signed? (negated != differs) (flags.folded s)), rest)

/-! ### Edges of words -/

/-- The edges of words by their names. -/
def wordEdge? (name : String) : Option WordEdge :=
  [("start", WordEdge.start), ("end", .finish), ("start-half", .halfStart), ("end-half", .halfFinish)].lookup name

/-- An edge of a word, narrowed to one side by a name in braces. Braces that hold no name are left to
    be counts of a repetition. -/
def takeBoundary? (flags : Flags) (cs : List Char) : Option (Escaped × List Char) :=
  let isNamed (c : Char) : Bool := c.isAlpha || c == '-'
  match cs with
  | '\x7b' :: rest => match flags.skipBlanks rest with
    | [] => none
    | c :: rest =>
      if !isNamed c then some (.look (flags.word .boundary), cs)
      else match flags.spanBlanks (!isNamed ·) false (c :: rest) with
        | (name, '\x7d' :: rest) => (wordEdge? (String.ofList name)).map fun edge => (.look (flags.word edge), rest)
        | _ => none
  | _ => some (.look (flags.word .boundary), cs)

/-! ### Escapes -/

/-- What stands behind a backslash. -/
def take? (flags : Flags) : List Char → Option (Escaped × List Char)
  | [] => none
  | c :: rest =>
    if c = 'x' ∨ c = 'u' ∨ c = 'U' then takeNumber? flags c rest
    else if c = 'p' ∨ c = 'P' then takeNamedSet? flags (c == 'P') rest
    else if ['d', 's', 'w', 'D', 'S', 'W'].contains c then (flags.shorthand? c).map ((.set ·, rest))
    else if c = 'b' then takeBoundary? flags rest
    else if c = 'B' then some (.look (flags.word .noBoundary), rest)
    else if c = '<' then some (.look (flags.word .start), rest)
    else if c = '>' then some (.look (flags.word .finish), rest)
    else if c = 'A' then some (.look .start, rest)
    else if c = 'z' then some (.look .finish, rest)
    else match controls.lookup c with
      | some d => some (.char d, rest)
      | none => if c.toNat < 128 && !c.isAlphanum then some (.char c, rest) else none

end Escaped

end Conform.Pattern

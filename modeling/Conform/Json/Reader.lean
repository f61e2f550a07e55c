import Conform.Json.Numeral

/-!
Reading a JSON text. A text is a value between blanks and nothing else; containers nest at most 127
deep. Of equal keys in an object the last counts.
-/

namespace Conform.Json

def isBlank (c : Char) : Bool := c == ' ' || c == '\n' || c == '\t' || c == '\r'

def skipBlanks (cs : List Char) : List Char := cs.dropWhile isBlank

/-! ### Strings -/

/-- The number of four hexadecimal digits. -/
def hex4? (a b c d : Char) : Option Nat := do
  pure (((← Digits.hexValue? a) * 16 + (← Digits.hexValue? b)) * 256 + (← Digits.hexValue? c) * 16 + (← Digits.hexValue? d))

def escapes : List (Char × Char) :=
  [('"', '"'), ('\\', '\\'), ('/', '/'), ('b', '\x08'), ('f', '\x0c'), ('n', '\n'), ('r', '\r'), ('t', '\t')]

/-- The characters up to the closing quote. A character beyond 16 bits is escaped as a surrogate pair,
    and no surrogate stands alone. -/
def takeString? : List Char → Option (List Char × List Char)
  | '"' :: rest => some ([], rest)
  | '\\' :: 'u' :: a :: b :: c :: d :: '\\' :: 'u' :: e :: f :: g :: h :: rest => do
    let n ← hex4? a b c d
    if 0xd800 ≤ n ∧ n < 0xdc00 then
      let m ← hex4? e f g h
      if 0xdc00 ≤ m ∧ m < 0xe000 then
        let (cs, rest) ← takeString? rest
        pure (Char.ofNat (0x10000 + (n - 0xd800) * 0x400 + (m - 0xdc00)) :: cs, rest)
      else none
    else if 0xdc00 ≤ n ∧ n < 0xe000 then none
    else
      let (cs, rest) ← takeString? ('\\' :: 'u' :: e :: f :: g :: h :: rest)
      pure (Char.ofNat n :: cs, rest)
  | '\\' :: 'u' :: a :: b :: c :: d :: rest => do
    let n ← hex4? a b c d
    if 0xd800 ≤ n ∧ n < 0xe000 then none
    else
      let (cs, rest) ← takeString? rest
      pure (Char.ofNat n :: cs, rest)
  | '\\' :: c :: rest => do
    let e ← escapes.lookup c
    let (cs, rest) ← takeString? rest
    pure (e :: cs, rest)
  | c :: rest =>
    if c = '\\' ∨ c.toNat < 0x20 then none
    else do
      let (cs, rest) ← takeString? rest
      pure (c :: cs, rest)
  | [] => none

/-! ### Values -/

/-- A word that stands for a value. -/
def takeWord? (word : List Char) (value : Json) (cs : List Char) : Option (Json × List Char) :=
  if cs.take word.length = word then some (value, cs.drop word.length) else none

mutual

/-- A value behind blanks, inside at most `depth` more containers; every second step takes a character, so
    twice the length of the text is fuel enough. -/
def takeValue? : (fuel depth : Nat) → List Char → Option (Json × List Char)
  | 0, _, _ => none
  | fuel + 1, depth, cs =>
    match skipBlanks cs with
    | '[' :: rest =>
      if depth = 0 then none
      else match skipBlanks rest with
        | ']' :: rest => some (.array [], rest)
        | rest => do
          let (items, rest) ← takeItems? fuel (depth - 1) rest
          pure (.array items, rest)
    | '\x7b' :: rest =>
      if depth = 0 then none
      else match skipBlanks rest with
        | '\x7d' :: rest => some (.object [], rest)
        | rest => do
          let (members, rest) ← takeMembers? fuel (depth - 1) rest
          pure (.object (sortMembers members), rest)
    | '"' :: rest => do
      let (cs, rest) ← takeString? rest
      pure (.string (String.ofList cs), rest)
    | 'n' :: rest => takeWord? ['u', 'l', 'l'] .null rest
    | 't' :: rest => takeWord? ['r', 'u', 'e'] (.bool true) rest
    | 'f' :: rest => takeWord? ['a', 'l', 's', 'e'] (.bool false) rest
    | cs => takeNumber? cs

/-- Items up to the closing bracket. -/
def takeItems? : (fuel depth : Nat) → List Char → Option (List Json × List Char)
  | 0, _, _ => none
  | fuel + 1, depth, cs => do
    let (item, rest) ← takeValue? fuel depth cs
    match skipBlanks rest with
    | ',' :: rest =>
      let (items, rest) ← takeItems? fuel depth rest
      pure (item :: items, rest)
    | ']' :: rest => pure ([item], rest)
    | _ => none

/-- Members up to the closing brace. -/
def takeMembers? : (fuel depth : Nat) → List Char → Option (List (String × Json) × List Char)
  | 0, _, _ => none
  | fuel + 1, depth, cs =>
    match skipBlanks cs with
    | '"' :: rest => do
      let (key, rest) ← takeString? rest
      match skipBlanks rest with
      | ':' :: rest =>
        let (value, rest) ← takeValue? fuel depth rest
        match skipBlanks rest with
        | ',' :: rest =>
          let (members, rest) ← takeMembers? fuel depth rest
          pure ((String.ofList key, value) :: members, rest)
        | '\x7d' :: rest => pure ([(String.ofList key, value)], rest)
        | _ => none
      | _ => none
    | _ => none

end

@[simp] theorem takeValue?_zero (depth : Nat) (cs : List Char) : takeValue? 0 depth cs = none := by rw [takeValue?]

@[simp] theorem takeItems?_zero (depth : Nat) (cs : List Char) : takeItems? 0 depth cs = none := by rw [takeItems?]

@[simp] theorem takeMembers?_zero (depth : Nat) (cs : List Char) : takeMembers? 0 depth cs = none := by rw [takeMembers?]

/-- The document of a text that nests at most `depth` containers. -/
def readWithin? (depth : Nat) (cs : List Char) : Option Json := do
  let (value, rest) ← takeValue? (2 * cs.length + 1) depth cs
  if (skipBlanks rest).isEmpty then some value else none

/-- The document of a text, nested at most 127 deep. -/
def ofChars? (cs : List Char) : Option Json := readWithin? 127 cs

def ofString? (s : String) : Option Json := ofChars? s.toList

end Conform.Json

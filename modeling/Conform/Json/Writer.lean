import Conform.Json.Basic
import Conform.Numeric.Binary64.Shortest

/-!
Writing a JSON document, on one line without blanks or indented by two spaces. Strings escape quotes,
backslashes and control characters, and nothing else.
-/

namespace Conform.Json

/-! ### Scalars -/

/-- A character between the quotes of a string. -/
def escape (c : Char) : List Char :=
  if c = '"' then ['\\', '"']
  else if c = '\\' then ['\\', '\\']
  else if c = '\x08' then ['\\', 'b']
  else if c = '\x0c' then ['\\', 'f']
  else if c = '\n' then ['\\', 'n']
  else if c = '\r' then ['\\', 'r']
  else if c = '\t' then ['\\', 't']
  else if c.toNat < 0x20 then
    ['\\', 'u', '0', '0', Nat.digitChar (c.toNat / 16), Nat.digitChar (c.toNat % 16)]
  else [c]

def stringChars (s : String) : List Char := '"' :: s.toList.flatMap escape ++ ['"']

def integerChars (i : Int) : List Char :=
  if i < 0 then '-' :: Digits.ofNat i.natAbs else Digits.ofNat i.natAbs

def boolChars (b : Bool) : List Char := if b then ['t', 'r', 'u', 'e'] else ['f', 'a', 'l', 's', 'e']

/-! ### Documents -/

mutual

/-- The document on one line, without blanks. -/
def chars : Json → List Char
  | .null => ['n', 'u', 'l', 'l']
  | .bool b => boolChars b
  | .integer i => integerChars i
  | .float x => Binary64.json.text x
  | .string s => stringChars s
  | .array items => '[' :: itemChars items ++ [']']
  | .object members => '\x7b' :: memberChars members ++ ['\x7d']

def itemChars : List Json → List Char
  | [] => []
  | [item] => item.chars
  | item :: rest => item.chars ++ ',' :: itemChars rest

def memberChars : List (String × Json) → List Char
  | [] => []
  | [(key, value)] => stringChars key ++ ':' :: value.chars
  | (key, value) :: rest => stringChars key ++ ':' :: value.chars ++ ',' :: memberChars rest

end

theorem chars_integer (i : Int) : (integer i).chars = integerChars i := by rw [chars]

theorem itemChars_cons {more : List Json} (item : Json) (h : more ≠ []) :
    itemChars (item :: more) = item.chars ++ ',' :: itemChars more := by
  rw [itemChars]
  exact h

theorem memberChars_cons {more : List (String × Json)} (key : String) (value : Json) (h : more ≠ []) :
    memberChars ((key, value) :: more) = stringChars key ++ ':' :: value.chars ++ ',' :: memberChars more := by
  rw [memberChars]
  exact h

def text (j : Json) : String := String.ofList j.chars

/-- A new line at a level of indentation. -/
def newLine (level : Nat) : List Char := '\n' :: List.replicate (2 * level) ' '

mutual

/-- The document with every item of a container on a line of its own. -/
def prettyChars (level : Nat) : Json → List Char
  | .array (item :: rest) =>
    '[' :: prettyItems (level + 1) (item :: rest) ++ newLine level ++ [']']
  | .object (m :: rest) =>
    '\x7b' :: prettyMembers (level + 1) (m :: rest) ++ newLine level ++ ['\x7d']
  | j => j.chars

def prettyItems (level : Nat) : List Json → List Char
  | [] => []
  | [item] => newLine level ++ prettyChars level item
  | item :: rest => newLine level ++ prettyChars level item ++ ',' :: prettyItems level rest

def prettyMembers (level : Nat) : List (String × Json) → List Char
  | [] => []
  | [(key, value)] => newLine level ++ stringChars key ++ ':' :: ' ' :: prettyChars level value
  | (key, value) :: rest =>
    newLine level ++ stringChars key ++ ':' :: ' ' :: prettyChars level value ++ ',' :: prettyMembers level rest

end

def pretty (j : Json) : String := String.ofList (prettyChars 0 j)

end Conform.Json

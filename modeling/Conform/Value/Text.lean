import Conform.Value
import Conform.Calendar.Text
import Conform.Numeric.Binary64.Shortest
import Conform.Text.Quoted
import Conform.Text.Utf8

/-!
The text of a value in messages, and as the key of a map. Strings stand in quotes in a message; as a
key a string is bare, and a member is its stored value.
-/

namespace Conform.Value

def intChars (i : Int64) : List Char :=
  if i.toInt < 0 then '-' :: Digits.ofNat i.toInt.natAbs else Digits.ofNat i.toInt.natAbs

def boolChars (b : Bool) : List Char := if b then ['t', 'r', 'u', 'e'] else ['f', 'a', 'l', 's', 'e']

mutual

/-- The text of a value in a message. -/
def chars : Value → List Char
  | .null => ['n', 'u', 'l', 'l']
  | .bool b => boolChars b
  | .int i => intChars i
  | .float x => Binary64.plain.text x
  | .decimal d => d.text
  | .str s => Text.quotedChars s.toList
  | .bytes bs => 'b' :: Text.quotedChars (Text.Utf8.decodeLossy bs)
  | .date d => d.text
  | .time t => t.text
  | .datetime t => t.text
  | .instant t => t.text
  | .duration d => d.text
  | .uuid u => u.text
  | .list items => '[' :: itemChars items ++ [']']
  | .tuple items => '(' :: itemChars items ++ [')']
  | .set items => '\x7b' :: itemChars items ++ ['\x7d']
  | .map entries => '\x7b' :: entryChars entries ++ ['\x7d']
  | .member enumeration name _ => enumeration.toList ++ '.' :: name.toList

/-- Values with commas between them. -/
def itemChars : List Value → List Char
  | [] => []
  | [v] => v.chars
  | v :: rest => v.chars ++ ',' :: ' ' :: itemChars rest

def entryChars : List (Value × Value) → List Char
  | [] => []
  | [(k, v)] => k.chars ++ ':' :: ' ' :: v.chars
  | (k, v) :: rest => k.chars ++ ':' :: ' ' :: v.chars ++ ',' :: ' ' :: entryChars rest

end

theorem itemChars_cons {rest : List Value} (v : Value) (h : rest ≠ []) :
    itemChars (v :: rest) = v.chars ++ ',' :: ' ' :: itemChars rest := by
  rw [itemChars]
  exact h

def text (v : Value) : String := String.ofList v.chars

/-- The text of a value as a key. -/
def key : Value → String
  | .str s => s
  | .member _ _ v => v.key
  | v => v.text

end Conform.Value

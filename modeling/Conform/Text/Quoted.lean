import Conform.Text.Property

/-!
Text in quotes, as messages show it. Quotes, backslashes and the usual controls are escaped by letter;
what cannot be seen on its own, such as a combining mark or a blank other than the space, is written
by its code point.
-/

namespace Conform.Text

/-! ### What is seen as itself -/

/-- Whether a character extends the one before it; letters that do so have a form of their own. -/
def isExtending (c : Char) : Bool :=
  Property.extending.contains c && !Category.modifierLetter.contains c

/-- Whether a character shows nothing of itself, as fillers do, which are letters. -/
def isFiller (c : Char) : Bool := Property.otherIgnorable.contains c

/-- The categories of characters with a glyph. -/
def printableCategories : List Category :=
  Category.all.filter fun category =>
    category ∉ [.spaceSeparator, .lineSeparator, .paragraphSeparator, .control, .format, .privateUse]

def isPrintable (c : Char) : Bool :=
  if c.toNat < 128 then 32 ≤ c.toNat && c.toNat < 127 else printableCategories.any (·.contains c)

/-- Whether a character stands between quotes as itself. -/
def isShown (c : Char) : Bool := isPrintable c && (c.toNat < 128 || !(isExtending c || isFiller c))

/-! ### Escapes -/

def hexDigits (n : Nat) : List Char := Nat.toDigits 16 n

/-- A character as it stands between quotes. -/
def escape (c : Char) : List Char :=
  if c = '\x00' then ['\\', '0']
  else if c = '\t' then ['\\', 't']
  else if c = '\r' then ['\\', 'r']
  else if c = '\n' then ['\\', 'n']
  else if c = '"' then ['\\', '"']
  else if c = '\\' then ['\\', '\\']
  else if isShown c then [c]
  else '\\' :: 'u' :: '\x7b' :: hexDigits c.toNat ++ ['\x7d']

def quotedChars (cs : List Char) : List Char := '"' :: cs.flatMap escape ++ ['"']

/-- A text in quotes. -/
def quoted (s : String) : String := String.ofList (quotedChars s.toList)

/-- A list of texts in brackets, each in quotes. -/
def quotedList (texts : List String) : String := "[" ++ ", ".intercalate (texts.map quoted) ++ "]"

end Conform.Text

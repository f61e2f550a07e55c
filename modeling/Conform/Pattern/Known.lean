import Conform.Pattern.Age
import Conform.Pattern.CharSet

/-!
The characters that patterns know. Texts are cased and shown by a version of the standard that is one
newer than that of patterns; here the tables of texts are cut back to the older version.
-/

namespace Conform.Pattern.Known

open Text (Ranges Category)
open Text.Property (letters marks)

/-- The members of a set that patterns know. -/
def of (ranges : Ranges) : CharSet := ⟨ranges.difference Age.later⟩

/-! ### Categories -/

/-- The letter that became one without case after the version of patterns. -/
def formerlyCased : Ranges := Ranges.read "295"

/-- The characters of a category. -/
def category : Category → CharSet
  | .lowercaseLetter => of (Category.lowercaseLetter.ranges ++ formerlyCased)
  | .otherLetter => of (Category.otherLetter.ranges.difference formerlyCased)
  | c => of c.ranges

def categories (cs : List Category) : CharSet := .unions (cs.map category)

/-- Every character with a category. -/
def assigned : CharSet := categories Category.all

/-! ### Letters, words and blanks -/

def alphabetic : CharSet := of Text.Property.alphabetic

def lowercase : CharSet := of (Text.Property.lowercase ++ formerlyCased)

def uppercase : CharSet := of Text.Property.uppercase

/-- The digits of any script. -/
def digit : CharSet := category .decimalNumber

def blank : CharSet := of Text.Property.blank

/-- Letters, marks, digits, connectors and joiners: what makes up a word. -/
def word : CharSet :=
  .unions [alphabetic, categories (.decimalNumber :: .connectorPunctuation :: marks),
    .ofRanges (.read "200C-200D")]

/-! ### Case -/

/-- Characters behind their representative, given as pairs in the order of the representatives. -/
def groups : List (Char × Char) → List (List Char)
  | [] => []
  | (key, c) :: rest =>
    match groups rest with
    | (key' :: cs) :: orbits => if key = key' then (key :: c :: cs) :: orbits else [key, c] :: (key' :: cs) :: orbits
    | orbits => [key, c] :: orbits

/-- The classes of characters that differ in case alone, each of two members at least. -/
def orbits : List (List Char) :=
  let cased := (Text.lowerRuns.members ++ Text.foldRuns.members).map fun c => (Text.foldKey c, c)
  let isLater (c : Char) : Bool := Age.later.contains c
  groups ((cased.filter fun (key, c) => !isLater key && !isLater c).mergeSort fun p q => p.1 ≤ q.1)

end Known

/-- The set with all characters that differ from one of its members in case alone. -/
def CharSet.anyCase (s : CharSet) : CharSet := s.closure Known.orbits

end Conform.Pattern

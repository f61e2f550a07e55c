import Conform.Text.Casing

/-!
Sets of characters as patterns describe them. A set is kept as its one canonical list of ranges, so that
equal sets are equal data and the length of the list is a measure of the set.
-/

namespace Conform.Pattern

open Text (Ranges)

/-- A set of characters, by its canonical ranges. -/
structure CharSet where
  ranges : Ranges
deriving DecidableEq

namespace CharSet

def ofRanges (ranges : Ranges) : CharSet := ⟨ranges.canonical⟩

def empty : CharSet := ⟨[]⟩

/-- The characters from `c` to `d`. -/
def range (c d : Char) : CharSet := ⟨[(c.toNat, d.toNat)]⟩

def single (c : Char) : CharSet := range c c

/-- Whether a character is in the set. -/
def contains (s : CharSet) (c : Char) : Bool := s.ranges.contains c

/-! ### Operations -/

def union (s t : CharSet) : CharSet := ⟨s.ranges.union t.ranges⟩

def complement (s : CharSet) : CharSet := ⟨s.ranges.complement⟩

def intersection (s t : CharSet) : CharSet := ⟨s.ranges.intersection t.ranges⟩

def difference (s t : CharSet) : CharSet := ⟨s.ranges.difference t.ranges⟩

def symmetricDifference (s t : CharSet) : CharSet := (s.difference t).union (t.difference s)

/-- The union of all sets of a list. -/
def unions (sets : List CharSet) : CharSet := .ofRanges (sets.flatMap ranges)

/-! ### Views -/

/-- Whether all members are ASCII characters. -/
def isAscii (s : CharSet) : Bool := s.ranges.all fun (_, last) => last < 128

/-- The only member of the set. -/
def onlyMember? (s : CharSet) : Option Char :=
  match s.ranges with
  | [(first, last)] => if first = last then some (Char.ofNat first) else none
  | _ => none

/-! ### Both cases -/

/-- The set with all members of the classes that it meets. -/
def closure (classes : List (List Char)) (s : CharSet) : CharSet :=
  let met := classes.filter fun orbit => orbit.any s.contains
  .ofRanges (s.ranges ++ met.flatMap fun orbit => orbit.map fun c => (c.toNat, c.toNat))

/-- The letters of ASCII, each with that of the other case. -/
def asciiOrbits : List (List Char) :=
  (List.range 26).map fun i => [Char.ofNat ('a'.toNat + i), Char.ofNat ('A'.toNat + i)]

/-- The set with the other cases of its ASCII letters. -/
def anyAsciiCase (s : CharSet) : CharSet := s.closure asciiOrbits

end CharSet

end Conform.Pattern

import Conform.Pattern.Matching
import Conform.Pattern.Reader
import Conform.Pattern.Weight

/-!
Patterns as constraints use them: read from a text, refused if too deep or too heavy, and looked for in
other texts.
-/

namespace Conform

/-- A pattern and the text that it was read from. -/
structure Pattern where
  source : String
  node : Pattern.Node

namespace Pattern

/-- How deeply the parts of a pattern may nest. -/
def maxDepth : Nat := 250

/-- The pattern that a text spells. -/
def ofString? (source : String) : Option Pattern := do
  let piece ← Reader.read? source.toList
  if piece.depth ≤ maxDepth && piece.node.isLight then some ⟨source, piece.node⟩ else none

/-- Whether some part of a text matches. -/
def isMatch (p : Pattern) (cs : List Char) : Bool := p.node.matchesIn cs

end Pattern

end Conform

import Conform.Pattern.Named

/-!
Conditions on a place between two characters: the ends of the text, of a line and of a word.
-/

namespace Conform.Pattern

/-- How a place lies to words: at an end of one, or where none goes on to one side. -/
inductive WordEdge
  | boundary
  | noBoundary
  | start
  | finish
  | halfStart
  | halfFinish
deriving DecidableEq

/-- A condition on the place between two characters. Words may be those of ASCII alone. -/
inductive Look
  | start
  | finish
  | lineStart
  | lineFinish
  | anyLineStart
  | anyLineFinish
  | word (edge : WordEdge) (ascii : Bool)
deriving DecidableEq

/-- Whether the condition holds where a word stands before the place, and behind it. -/
def WordEdge.holds (edge : WordEdge) (before after : Bool) : Bool :=
  match edge with
  | .boundary => before != after
  | .noBoundary => before == after
  | .start => !before && after
  | .finish => before && !after
  | .halfStart => !before
  | .halfFinish => !after

/-- Whether the condition holds between two neighbours, either of which is missing at an end. -/
def Look.holds (look : Look) (before after : Option Char) : Bool :=
  match look with
  | .start => before.isNone
  | .finish => after.isNone
  | .lineStart => before.isNone || before == some '\n'
  | .lineFinish => after.isNone || after == some '\n'
  | .anyLineStart => before.isNone || before == some '\n' || (before == some '\r' && after != some '\n')
  | .anyLineFinish => after.isNone || after == some '\r' || (after == some '\n' && before != some '\r')
  | .word edge ascii =>
    let isWord (c : Option Char) : Bool := c.any (if ascii then CharSet.asciiWord else Known.word).contains
    edge.holds (isWord before) (isWord after)

end Conform.Pattern

import Conform.Numeric.Power
import Conform.Pattern.Bracketed

/-!
Reading patterns. A pattern is alternatives of sequences of characters, sets, conditions and groups,
each perhaps repeated. Flags set inside a group hold to its end. There are no back references and no
look-around; what cannot be read is no pattern.
-/

namespace Conform.Pattern

namespace Reader

/-! ### Repetition -/

/-- How often a pattern is repeated, and whether a question mark changes the preference among matches. -/
structure Repeat where
  least : Nat
  most : Option Nat
  marked : Bool

/-- A numeral, with blanks around it, of a count that 32 bits hold. -/
def takeCount? (flags : Flags) (cs : List Char) : Option (Nat × List Char) :=
  let (digits, rest) := flags.spanBlanks (!Char.isDigit ·) false (Text.trimStart cs)
  let n := Digits.toNat digits
  if digits.isEmpty || twoTo 32 ≤ n then none else some (n, Text.trimStart rest)

/-- The counts behind an opening brace. -/
def takeCounts? (flags : Flags) (cs : List Char) : Option (Nat × Option Nat × List Char) := do
  let (least, rest) ← takeCount? flags (flags.skipBlanks cs)
  match rest with
  | '\x7d' :: rest => pure (least, some least, rest)
  | ',' :: rest => match flags.skipBlanks rest with
    | '\x7d' :: rest => pure (least, none, rest)
    | rest => match ← takeCount? flags rest with
      | (most, '\x7d' :: rest) => if least ≤ most then pure (least, some most, rest) else none
      | _ => none
  | _ => none

/-- Whether a question mark follows, and the text behind it. -/
def takeMark : List Char → Bool × List Char
  | '?' :: rest => (true, rest)
  | cs => (false, cs)

/-- Counts, and the question mark that may follow. -/
def takeRepeat? (flags : Flags) (cs : List Char) : Option (Repeat × List Char) :=
  let withMark (least : Nat) (most : Option Nat) (rest : List Char) : Repeat × List Char :=
    let (marked, rest) := takeMark rest
    (⟨least, most, marked⟩, rest)
  match cs with
  | '*' :: rest => some (withMark 0 none rest)
  | '+' :: rest => some (withMark 1 none rest)
  | '?' :: rest => some (withMark 0 (some 1) rest)
  | '\x7b' :: rest => do
    let (least, most, rest) ← takeCounts? flags rest
    pure (withMark least most (flags.skipBlanks rest))
  | _ => none

/-! ### Groups -/

/-- Characters of a name; the first is no digit, point or bracket. -/
def isNameChar (first : Bool) (c : Char) : Bool :=
  c == '_' || Text.Property.alphabetic.contains c ||
    (!first && (['.', '[', ']'].contains c || (Text.Property.ofCategories Text.Property.numbers).contains c))

/-- Whether a text may name a group. -/
def isName : List Char → Bool
  | [] => false
  | c :: rest => isNameChar true c && rest.all (isNameChar false)

/-- What opens at a parenthesis: a group, perhaps with a name; one that is not counted as such; or flags for
    the rest of the group that they stand in. -/
inductive Opening
  | group (name : Option (List Char))
  | plain (flags : Flags)
  | flags (flags : Flags)

/-- A group's head behind its parenthesis. -/
def takeOpening? (flags : Flags) (cs : List Char) : Option (Opening × List Char) :=
  let cs := flags.skipBlanks cs
  let lookAround := [['?', '='], ['?', '!'], ['?', '<', '='], ['?', '<', '!']]
  if lookAround.any fun start => (Text.dropPrefix? start cs).isSome then none
  else match (Text.dropPrefix? ['?', 'P', '<'] cs).or (Text.dropPrefix? ['?', '<'] cs) with
    | some rest =>
      let name := rest.takeWhile (· != '>')
      match rest.dropWhile (· != '>') with
      | _ :: rest => if isName name then some (.group (some name), rest) else none
      | [] => none
    | none => match cs with
      | '?' :: rest =>
        let letters := rest.takeWhile fun c => c != ':' && c != ')'
        match rest.dropWhile fun c => c != ':' && c != ')' with
        | ':' :: rest => (flags.change? [] true letters).map ((.plain ·, rest))
        | ')' :: rest =>
          if letters.isEmpty then none else (flags.change? [] true letters).map ((.flags ·, rest))
        | _ => none
      | _ => some (.group none, cs)

/-! ### Pieces -/

/-- A part of a pattern, how deeply its own parts nest, and whether it may be repeated. -/
structure Piece where
  node : Node
  depth : Nat
  repeatable : Bool

namespace Piece

/-- A part that has no parts. -/
def plain (node : Node) : Piece := ⟨node, 0, true⟩

/-- The place of flags, which matches as nothing does. -/
def flags : Piece := ⟨.empty, 0, false⟩

/-- What stands one level above a part. -/
def wrap (p : Piece) (node : Node) : Piece := ⟨node, p.depth + 1, true⟩

/-- What several parts, the last one first, make together. A single part makes itself. -/
def together (join : List Node → Node) : List Piece → Piece
  | [] => plain .empty
  | [p] => p
  | parts => ⟨join (parts.reverse.map node), (parts.map depth).foldl max 0 + 1, true⟩

/-- The part repeated. -/
def repeat? (flags : Flags) (p : Piece) (r : Repeat) : Option Piece :=
  if p.repeatable then some (p.wrap (p.node.repeated r.least r.most (r.marked != flags.preferFew))) else none

end Piece

/-- A character that stands for itself. -/
def character (flags : Flags) (c : Char) : Node :=
  if flags.ignoreCase then .ofSet (flags.folded (.single c)) else .literal [c]

/-- A character, a point, a condition, an escape or a set in brackets. -/
def takePiece? (flags : Flags) : List Char → Option (Piece × List Char)
  | [] => none
  | '\\' :: rest => do
    let (escaped, rest) ← Escaped.take? flags rest
    match escaped with
    | .char c => pure (.plain (character flags c), rest)
    | .set s => pure (.plain (.ofSet s), rest)
    | .look l => pure (.plain (.look l), rest)
  | '[' :: rest => do
    let (nested, rest) ← Bracketed.take? flags rest
    pure (⟨.ofSet nested.set, nested.depth, true⟩, rest)
  | '.' :: rest => flags.anyChar?.map fun s => (.plain (.ofSet s), rest)
  | '^' :: rest => some (.plain (.look flags.lineStart), rest)
  | '$' :: rest => some (.plain (.look flags.lineFinish), rest)
  | c :: rest => some (.plain (character flags c), rest)

/-! ### Patterns -/

/-- A group as far as it is read: its alternatives but the last, and the parts of that, each list with
    the last one first; the flags, and the number and names of the groups so far. -/
structure Progress where
  branches : List Piece
  parts : List Piece
  flags : Flags
  count : Nat
  names : List (List Char)

namespace Progress

/-- The beginning of a group inside. -/
def inner (p : Progress) (flags : Flags) : Progress := { p with branches := [], parts := [], flags }

/-- The group going on with a part that was read apart. -/
def resume (p : Progress) (part : Piece) (inside : Progress) : Progress :=
  { p with parts := part :: p.parts, count := inside.count, names := inside.names }

/-- One more part. -/
def add (p : Progress) (part : Piece) : Progress := { p with parts := part :: p.parts }

/-- The last alternative, as far as it is read. -/
def branch (p : Progress) : Piece := .together .sequence p.parts

/-- The beginning of another alternative. -/
def nextBranch (p : Progress) : Progress := { p with branches := p.branch :: p.branches, parts := [] }

/-- The group as far as it is read. -/
def whole (p : Progress) : Piece := .together .choice (p.branch :: p.branches)

/-- The group with its last part repeated. -/
def repeat? (p : Progress) (r : Repeat) : Option Progress :=
  match p.parts with
  | [] => none
  | part :: parts => do pure { p with parts := (← part.repeat? p.flags r) :: parts }

/-- The group counted, with its name, which is new. -/
def name? (p : Progress) (name : Option (List Char)) : Option Progress :=
  if name.any p.names.contains then none
  else some { p with count := p.count + 1, names := name.toList ++ p.names }

end Progress

/-- A group up to its end: that of the text, or the closing parenthesis. Each step takes a character. -/
def takeGroup? : (fuel : Nat) → (inside : Bool) → Progress → List Char → Option (Progress × List Char)
  | 0, _, _, _ => none
  | fuel + 1, inside, p, cs =>
    match p.flags.skipBlanks cs with
    | [] => if inside then none else some (p, [])
    | ')' :: rest => if inside then some (p, rest) else none
    | '|' :: rest => takeGroup? fuel inside p.nextBranch rest
    | '(' :: rest => do
      match ← takeOpening? p.flags rest with
      | (.flags flags, rest) => takeGroup? fuel inside { p.add .flags with flags } rest
      | (.plain flags, rest) =>
        let (inner, rest) ← takeGroup? fuel true (p.inner flags) rest
        takeGroup? fuel inside (p.resume (inner.whole.wrap inner.whole.node) inner) rest
      | (.group name, rest) =>
        let begun ← (p.inner p.flags).name? name
        let (inner, rest) ← takeGroup? fuel true begun rest
        let part := inner.whole.wrap (.group begun.count name inner.whole.node)
        takeGroup? fuel inside (p.resume part inner) rest
    | c :: rest =>
      if ['*', '+', '?', '\x7b'].contains c then do
        let (r, rest) ← takeRepeat? p.flags (c :: rest)
        takeGroup? fuel inside (← p.repeat? r) rest
      else do
        let (part, rest) ← takePiece? p.flags (c :: rest)
        takeGroup? fuel inside (p.add part) rest

/-- The whole pattern that a text spells. -/
def read? (cs : List Char) : Option Piece := do
  let (p, _) ← takeGroup? (cs.length + 1) false ⟨[], [], {}, 0, []⟩ cs
  pure p.whole

end Reader

end Conform.Pattern

import Conform.Pattern.Escape

/-!
Reading sets in brackets. A bracket holds characters, ranges, escapes and brackets, whose union may be
joined with others by operators, all from left to right. With the set goes how deeply its parts nest.
-/

namespace Conform.Pattern

/-- A set that is read, and how deeply its parts nest. -/
structure Nested where
  set : CharSet
  depth : Nat

namespace Nested

/-- A set that has no parts. -/
def plain (s : CharSet) : Nested := ⟨s, 0⟩

/-- The union of the parts read, the last one first; a union of several is one more level. -/
def union (parts : List Nested) : Nested :=
  let deepest := (parts.map depth).foldl max 0
  ⟨.unions (parts.map set), if 1 < parts.length then deepest + 1 else deepest⟩

end Nested

/-! ### Operators -/

/-- How the sets beside an operator are joined. -/
inductive SetOperator
  | intersection
  | difference
  | symmetricDifference

/-- The set that the sides of an operator make. -/
def SetOperator.apply : SetOperator → CharSet → CharSet → CharSet
  | .intersection => .intersection
  | .difference => .difference
  | .symmetricDifference => .symmetricDifference

namespace Bracketed

/-- A bracket as far as it is read: whether its complement is meant, what stands before the last operator,
    and the parts behind it, the last one first. -/
structure Open where
  negated : Bool
  before : Option (Nested × SetOperator)
  parts : List Nested

namespace Open

/-- The bracket with one more part. -/
def add (o : Open) (part : Nested) : Open := { o with parts := part :: o.parts }

/-- The set read so far; sides of an operator are closed under case before they are joined. -/
def sofar (flags : Flags) (o : Open) : Nested :=
  let last := Nested.union o.parts
  match o.before with
  | none => last
  | some (first, op) => ⟨op.apply (flags.folded first.set) (flags.folded last.set), max first.depth last.depth + 1⟩

/-- The bracket behind an operator. -/
def operate (flags : Flags) (o : Open) (op : SetOperator) : Open :=
  { o with before := some (o.sofar flags, op), parts := [] }

/-- The set of the whole bracket, which is one more level. -/
def close? (flags : Flags) (o : Open) : Option Nested := do
  let inner := o.sofar flags
  pure ⟨← flags.signed? o.negated (flags.folded inner.set), inner.depth + 1⟩

end Open

/-! ### Openings -/

/-- How many hyphens the text begins with, and the text behind them. -/
def takeHyphens (flags : Flags) (cs : List Char) : Nat × List Char :=
  let (hyphens, rest) := flags.spanBlanks (· != '-') false cs
  (hyphens.length, rest)

/-- The beginning of a bracket: the hyphens, or else the closing bracket, in the first place stand for
    themselves. -/
def takeOpening (flags : Flags) (cs : List Char) : Open × List Char :=
  let cs := flags.skipBlanks cs
  let (negated, cs) := match cs with
    | '^' :: rest => (true, flags.skipBlanks rest)
    | _ => (false, cs)
  match takeHyphens flags cs with
  | (0, ']' :: rest) => (⟨negated, none, [.plain (.single ']')]⟩, rest)
  | (n, rest) => (⟨negated, none, List.replicate n (.plain (.single '-'))⟩, rest)

/-! ### Parts -/

/-- A class of POSIX behind its opening bracket. -/
def takePosix? (cs : List Char) : Option (Bool × CharSet × List Char) := do
  let rest ← Text.dropPrefix? [':'] cs
  let (negated, rest) := match rest with
    | '^' :: rest => (true, rest)
    | _ => (false, rest)
  let set ← CharSet.posix? (String.ofList (rest.takeWhile (· != ':')))
  pure (negated, set, ← Text.dropPrefix? [':', ']'] (rest.dropWhile (· != ':')))

/-- A character, or what an escape stands for. -/
def takeMember? (flags : Flags) : List Char → Option (Escaped × List Char)
  | [] => none
  | '\\' :: rest => Escaped.take? flags rest
  | c :: rest => some (.char c, rest)

/-- The end of a range, if a hyphen follows that makes one. A hyphen before a bracket or another hyphen
    makes none. -/
def takeRangeEnd? (flags : Flags) (cs : List Char) : Option (List Char) :=
  match cs with
  | '-' :: rest =>
    if flags.peek rest == some ']' || flags.peek rest == some '-' then none else some (flags.skipBlanks rest)
  | _ => none

/-- A single member or a range of characters. -/
def takeRange? (flags : Flags) (cs : List Char) : Option (CharSet × List Char) := do
  let (first, rest) ← takeMember? flags cs
  let rest := flags.skipBlanks rest
  match first, takeRangeEnd? flags rest with
  | .look _, _ | .set _, some _ => none
  | .set s, none => pure (s, rest)
  | .char c, none => if flags.admits c then pure (.single c, rest) else none
  | .char c, some rest =>
    match ← takeMember? flags rest with
    | (.char d, rest) => if c ≤ d ∧ flags.admits c ∧ flags.admits d then pure (.range c d, rest) else none
    | _ => none

/-- A bracket up to its closing one. Each step takes a character. -/
def takeParts? (flags : Flags) : (fuel : Nat) → Open → List Char → Option (Nested × List Char)
  | 0, _, _ => none
  | fuel + 1, o, cs =>
    match flags.skipBlanks cs with
    | [] => none
    | ']' :: rest => do pure (← o.close? flags, rest)
    | '&' :: '&' :: rest => takeParts? flags fuel (o.operate flags .intersection) rest
    | '-' :: '-' :: rest => takeParts? flags fuel (o.operate flags .difference) rest
    | '~' :: '~' :: rest => takeParts? flags fuel (o.operate flags .symmetricDifference) rest
    | '[' :: rest =>
      match takePosix? rest with
      | some (negated, set, rest) => do
        takeParts? flags fuel (o.add (.plain (← flags.signed? negated (flags.folded set)))) rest
      | none => do
        let (inner, rest) := takeOpening flags rest
        let (part, rest) ← takeParts? flags fuel inner rest
        takeParts? flags fuel (o.add part) rest
    | cs => do
      let (set, rest) ← takeRange? flags cs
      takeParts? flags fuel (o.add (.plain set)) rest

/-- A set behind its opening bracket. -/
def take? (flags : Flags) (cs : List Char) : Option (Nested × List Char) :=
  let (inner, rest) := takeOpening flags cs
  takeParts? flags (cs.length + 1) inner rest

end Bracketed

end Conform.Pattern

import Conform.Conversion.Scope
import Conform.Value.Order

/-!
Conversion to null, truth values, identifiers and members of enumerations. Words stand for null and
truth; a number that is neither zero nor one, like any other value, is true or false only at a loss.
-/

namespace Conform.Converter

open Scope (refuse)

/-! ### Words -/

/-- Whether a text is one of some words in lower case, ASCII letters matching in either case. -/
def isWord (words : List String) (cs : List Char) : Bool := words.contains (String.ofList (cs.map Char.toLower))

/-- The words for true. -/
def trueWords : List String := ["true", "yes", "y", "on", "t", "1"]

/-- The words for false. -/
def falseWords : List String := ["false", "no", "n", "off", "f", "0"]

/-- The words for null, nothing among them. -/
def nullWords : List String := ["", "null", "none"]

/-- Null of a word alone. -/
def toNull : Converter := fun _ v t =>
  if v.trimmed?.any (isWord nullWords) then .ok .null else refuse v t .notNull

/-- The truth value that a number denotes exactly. -/
def numberTruth? (v : Value) : Option Bool :=
  if !v.kind.isNumeric then none
  else if v.toBinary64?.any fun x => x.compare? (Binary64.ofNat 0) == some .eq then some false
  else if v.toBinary64?.any fun x => x.compare? (Binary64.ofNat 1) == some .eq then some true
  else none

/-- A truth value of a word, or of a number that is zero or one; else only at a loss. -/
def toBool : Converter := fun s v t =>
  match v.trimmed? with
  | some cs =>
    if isWord trueWords cs then .ok (.bool true)
    else if isWord falseWords cs then .ok (.bool false)
    else refuse v t .notBoolean
  | none =>
    match numberTruth? v with
    | some b => .ok (.bool b)
    | none => do
      s.allowLoss v t
      pure (.bool v.truthy)

/-! ### Identifiers -/

/-- Sixteen bytes or a text, or a whole number that is not negative. -/
def toUuid : Converter := fun s v t =>
  let ofText := match v.trimmed?.bind Uuid.ofChars? with
    | some u => .ok (.uuid u)
    | none => refuse v t .notUuid
  match v with
  | .bytes bs => if bs.length = 16 then .ok (.uuid (Uuid.ofBytes bs)) else ofText
  | .str _ => ofText
  | .int i => if 0 ≤ i.toInt then .ok (.uuid (Uuid.ofNat i.toInt.toNat)) else refuse v t .notUuid
  | .decimal d =>
    if !d.isIntegral then s.collapse v t
    else if d.negative then refuse v t .notUuid
    else .ok (.uuid (Uuid.ofNat d.truncated.toNat))
  | v => s.collapse v t

/-! ### Members -/

/-- A member by its stored value, else by its name, else by its stored value once the given one is
    read as the kind that the members store. -/
def toMember : Converter := fun s v t =>
  match t with
  | .enum e =>
    let candidate := match v with
      | .member _ _ w => w
      | _ => v
    let byName := match candidate with
      | .str name => e.member? (String.ofList (Text.trim name.toList))
      | _ => none
    let reread := do e.lookup? (← (s.reread candidate (← Target.ofStored? e)).toOption)
    match ((e.lookup? candidate).or byName).or reread with
    | some member => .ok member
    | none => refuse candidate t .notMember
  | _ => .error (.unsupported t.name)

end Conform.Converter

import Conform.Conversion
import Conform.Declaration.Error
import Conform.Registry.Standard

/-!
Declaring rules. A rule with constraints is checked as a whole: the keywords must apply to the origin and
agree with each other, bounds and constants are converted to the origin, and a fixed value or a choice of
values makes the other constraints superfluous. The constraints end up in the order of their keywords.
-/

namespace Conform

/-- A constraint as it is declared. -/
inductive Declared
  | value (keyword : Keyword) (v : Value) (lax : Bool)
  | pattern (source : String)
  | contains (r : Rule)

namespace Declared

/-- The keyword that is declared. -/
def keyword : Declared → Keyword
  | .value k _ _ => k
  | .pattern _ => .regex
  | .contains _ => .contains

/-- Whether the lax form is declared. -/
def isLax : Declared → Bool
  | .value _ _ lax => lax
  | _ => false

/-- What is declared, as a value. -/
def toValue : Declared → Value
  | .value _ v _ => v
  | .pattern source => .str source
  | .contains r => .str r.text

end Declared

/-- What is being declared, up to the first fault. -/
abbrev Declaring := Except DeclarationError

namespace Rule

/-! ### Keywords -/

/-- Refuses a keyword declared twice. -/
def checkOnce (seen : List Keyword) : List Declared → Declaring Unit
  | [] => .ok ()
  | d :: rest =>
    if seen.contains d.keyword then .error (.invalidOperand d.keyword d.toValue .declaredTwice)
    else checkOnce (d.keyword :: seen) rest

/-- Refuses two lower or two upper bounds. -/
def checkExclusive (keywords : List Keyword) : Declaring Unit := do
  if keywords.contains .gt && keywords.contains .ge then .error (.exclusiveConstraints .gt .ge)
  if keywords.contains .lt && keywords.contains .le then .error (.exclusiveConstraints .lt .le)

/-- Whether a keyword can mend values of an origin; open bounds take a next value, which numbers have. -/
def mends (origin : Target) (keyword : Keyword) : Bool :=
  keyword.hasLaxForm && (!keyword.isOpenBound || origin.kind?.any Kind.isNumeric)

/-! ### Operands -/

/-- A value of the origin's kind. -/
def originValue (origin : Target) (keyword : Keyword) (v : Value) : Declaring Value :=
  match Registry.standard.convert ⟨false, false⟩ v origin with
  | .ok w => .ok w
  | .error e => .error (.invalidOperand keyword v (.conversion e))

/-- The value of a constraint, brought to the form in which it is compared. -/
def operandValue (origin : Target) (keyword : Keyword) (v : Value) : Declaring Value :=
  let refuse (fault : OperandFault) : Declaring Value := .error (.invalidOperand keyword v fault)
  match keyword with
  | .gt | .ge | .lt | .le | .const => originValue origin keyword v
  | .enum => match v with
    | .list (item :: items) => do pure (.list (← (item :: items).mapM (originValue origin keyword)))
    | _ => refuse .notValues
  | .multipleOf =>
    if v.kind.isNumeric && v.compare? (.int 0) == some .gt then .ok v else refuse .notPositive
  | .uniqueItems => match v with
    | .bool _ => .ok v
    | _ => refuse .notBoolean
  | .regex | .contains => refuse .notPatternOrRule
  | .decimalPlaces | .maxDigits | .length | .minLength | .maxLength | .minContains | .maxContains => match v with
    | .int i => if 0 ≤ i.toInt then .ok v else refuse .notCount
    | _ => refuse .notCount

/-- The operand, made into what the keyword needs; a pattern must be well formed. -/
def operand (origin : Target) : Declared → Declaring (Operand Rule)
  | .value k v _ => (operandValue origin k v).map .value
  | .pattern source => match Pattern.ofString? source with
    | some p => .ok (.pattern p)
    | none => .error (.invalidPattern source)
  | .contains r => .ok (.rule r)

/-- Whether a constraint asks for nothing. -/
def isVoid : Constraint Rule → Bool
  | ⟨.uniqueItems, .value (.bool false), _⟩ => true
  | _ => false

/-- A constraint whose keyword applies to the origin and whose operand has its form. -/
def constraintOf (origin : Target) (d : Declared) : Declaring (Constraint Rule) := do
  if origin.kind?.any fun k => !d.keyword.supports k then
    .error (.unsupportedConstraint d.keyword origin.name)
  if d.isLax && !mends origin d.keyword then .error (.noLaxForm d.keyword)
  pure ⟨d.keyword, ← operand origin d, d.isLax⟩

/-! ### Agreement -/

section Agreement

variable (cs : List (Constraint Rule))

/-- The value of the constraint with a keyword. -/
def valueOf? (keyword : Keyword) : Option Value :=
  (cs.find? (·.keyword == keyword)).bind fun c => match c.operand with
    | .value v => some v
    | _ => none

/-- The value of the constraint with a keyword, if that is an integer. -/
def countOf? (keyword : Keyword) : Option Int64 :=
  (valueOf? cs keyword).bind fun v => match v with
    | .int i => some i
    | _ => none

/-- The bound of an open or a closed keyword, and whether it is open. -/
def boundOf? (openKeyword closedKeyword : Keyword) : Option (Value × Bool) :=
  ((valueOf? cs openKeyword).map (·, true)).or ((valueOf? cs closedKeyword).map (·, false))

/-- Refuses bounds with nothing between them. -/
def checkBounds : Declaring Unit :=
  match boundOf? cs .gt .ge, boundOf? cs .lt .le with
  | some (low, lowOpen), some (high, highOpen) =>
    let crossed := match low.compare? high with
      | some .gt => true
      | some .eq => lowOpen || highOpen
      | _ => false
    if crossed then .error (.invalidOperand (if highOpen then .lt else .le) high .boundsCross) else .ok ()
  | _, _ => .ok ()

/-- Refuses the count of `high` if it is below that of `low`. -/
def checkCounts (low high blamed : Keyword) (fault : OperandFault) : Declaring Unit :=
  match countOf? cs low, countOf? cs high with
  | some m, some n =>
    if n < m then .error (.invalidOperand blamed (.int (if blamed = low then m else n)) fault) else .ok ()
  | _, _ => .ok ()

/-- Refuses a count of items that satisfy a rule where there is no such rule. -/
def checkContained (keyword : Keyword) : Declaring Unit :=
  match countOf? cs keyword with
  | some n =>
    if cs.any (·.keyword == .contains) then .ok ()
    else .error (.invalidOperand keyword (.int n) .requiresContains)
  | none => .ok ()

/-- Refuses constraints that no value satisfies together, or that mean nothing alone. -/
def checkAgreement : Declaring Unit := do
  checkBounds cs
  checkCounts cs .minLength .maxLength .maxLength .belowMinLength
  checkCounts cs .minLength .length .length .outsideLengths
  checkCounts cs .length .maxLength .length .outsideLengths
  checkCounts cs .decimalPlaces .maxDigits .decimalPlaces .exceedsMaxDigits
  checkContained cs .minContains
  checkContained cs .maxContains
  checkCounts cs .minContains .maxContains .maxContains .belowMinContains

/-- A constant alone, or else a choice of values alone, or else all constraints. -/
def withoutSuppressed : List (Constraint Rule) :=
  match [Keyword.const, .enum].find? fun k => cs.any (·.keyword == k) with
  | some keep => cs.filter (·.keyword == keep)
  | none => cs

end Agreement

/-- A constraint in its place among constraints in the order of their keywords. -/
def insertConstraint (c : Constraint Rule) : List (Constraint Rule) → List (Constraint Rule)
  | [] => [c]
  | d :: rest => if c.keyword.rank < d.keyword.rank then c :: d :: rest else d :: insertConstraint c rest

/-- The constraints in the order of their keywords. -/
def sortConstraints (cs : List (Constraint Rule)) : List (Constraint Rule) :=
  cs.foldl (fun sorted c => insertConstraint c sorted) []

/-! ### Rules -/

/-- The constraints of a rule, checked and in order. -/
def declareConstraints (origin : Target) (declared : List Declared) : Declaring (List (Constraint Rule)) := do
  checkOnce [] declared
  checkExclusive (declared.map Declared.keyword)
  let cs := (← declared.mapM (constraintOf origin)).filter (!isVoid ·)
  checkAgreement cs
  pure (sortConstraints (withoutSuppressed cs))

/-- A rule with constraints. -/
def declare (origin : Target) (args : List Rule) (declared : List Declared) (before after : Option Hook)
    (onError : Option ErrorPolicy) : Declaring Rule := do
  pure (.mk ⟨some origin, args, ← declareConstraints origin declared, none, before, after, onError⟩)

/-- A rule with a combinator, equal branches counting once. -/
def combine (op : Combinator) (branches : List Rule) : Declaring Rule :=
  let distinct := branches.foldl (fun kept r => if kept.any (·.same r) then kept else kept ++ [r]) []
  if distinct.isEmpty then .error (.emptyLogic op)
  else .ok (.mk ⟨none, [], [], some ⟨op, distinct⟩, none, none, none⟩)

end Rule

end Conform

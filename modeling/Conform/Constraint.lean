import Conform.Constraint.Keyword
import Conform.Pattern
import Conform.Text.Quoted
import Conform.Value.Order
import Conform.Value.Text

/-!
Constraints on values. A strict constraint keeps a value or finds it violated; a lax one puts a nearest
compliant value in its place where there is one: it clamps, rounds, cuts off or drops repetitions. How
many items of a value satisfy a rule is for those to say who can apply rules.
-/

namespace Conform

/-! ### Constraints -/

/-- What a constraint compares with: a value, a pattern or a rule. -/
inductive Operand (ρ : Type)
  | value (v : Value)
  | pattern (p : Pattern)
  | rule (r : ρ)

/-- A constraint, whose rules are of type `ρ`. -/
structure Constraint (ρ : Type) where
  keyword : Keyword
  operand : Operand ρ
  lax : Bool

namespace Operand

variable {ρ : Type}

/-- The operand with another thing for its rule. -/
def map {σ : Type} (f : ρ → σ) : Operand ρ → Operand σ
  | .value v => .value v
  | .pattern p => .pattern p
  | .rule r => .rule (f r)

/-- The operand as a value; a rule by its text. -/
def toValue : Operand String → Value
  | .value v => v
  | .pattern p => .str p.source
  | .rule text => .str text

/-- The operand as messages show it; a pattern stands between slashes. -/
def text : Operand String → String
  | .value v => v.text
  | .pattern p => "/" ++ p.source ++ "/"
  | .rule text => text

/-- Equality, given that of rules; patterns are equal if they are spelled the same. -/
def sameAs {σ : Type} (same : ρ → σ → Bool) : Operand ρ → Operand σ → Bool
  | .value v, .value w => v.same w
  | .pattern p, .pattern q => p.source == q.source
  | .rule r, .rule s => same r s
  | _, _ => false

end Operand

namespace Constraint

variable {ρ : Type}

def map {σ : Type} (f : ρ → σ) (c : Constraint ρ) : Constraint σ := ⟨c.keyword, c.operand.map f, c.lax⟩

def text (c : Constraint String) : String :=
  c.keyword.name ++ "=" ++ (if c.lax then "~" else "") ++ c.operand.text

def sameAs {σ : Type} (same : ρ → σ → Bool) (c : Constraint ρ) (d : Constraint σ) : Bool :=
  c.keyword == d.keyword && c.lax == d.lax && c.operand.sameAs same d.operand

/-- The value that a constraint compares with. -/
def scalar (c : Constraint ρ) : Value :=
  match c.operand with
  | .value v => v
  | _ => .null

/-- The count that a constraint compares with. -/
def count (c : Constraint ρ) : Nat :=
  match c.operand with
  | .value (.int i) => i.toInt.toNat
  | _ => 0

end Constraint

/-! ### Verdicts -/

/-- What a constraint makes of a value. -/
inductive Verdict
  | kept
  | replaced (v : Value)
  | violated

namespace Verdict

/-- Keeps what complies; lets a lax constraint replace the rest, where there is something to take. -/
def decide (complies lax : Bool) (nearest : Option Value) : Verdict :=
  if complies then .kept
  else match lax, nearest with
    | true, some v => .replaced v
    | _, _ => .violated

end Verdict

namespace Constraint

/-! ### Bounds -/

/-- Whether a value that compares so with the bound is within it. -/
def within (keyword : Keyword) (o : Ordering) : Bool :=
  match keyword with
  | .gt => o == .gt
  | .ge => o != .lt
  | .lt => o == .lt
  | _ => o != .gt

/-- The next value above or below a number, in steps of its own last place. -/
def nextValue? (up : Bool) : Value → Option Value
  | .int i => (int64? (if up then i.toInt + 1 else i.toInt - 1)).map .int
  | .float x => some (.float (x.next up))
  | .decimal d => do
    let unit ← Decimal.make? false 1 d.scale
    pure (.decimal (← if up then d.add? unit else d.sub? unit))
  | _ => none

/-- The value nearest to the bound that is within it. -/
def nearest? (keyword : Keyword) (bound : Value) : Option Value :=
  match keyword with
  | .gt => nextValue? true bound
  | .lt => nextValue? false bound
  | _ => some bound

/-- A value that cannot be compared with the bound violates it, lax or not. -/
def checkBound (keyword : Keyword) (lax : Bool) (bound v : Value) : Verdict :=
  match v.compare? bound with
  | none => .violated
  | some o => .decide (within keyword o) lax (nearest? keyword bound)

/-! ### Numbers -/

/-- A decimal as a number of the kind of another value, where it fits. -/
def likeKind (v : Value) (d : Decimal) : Value :=
  match v with
  | .int _ => match int64? d.truncated with
    | some i => .int i
    | none => .decimal d
  | .float _ => .float d.toBinary64
  | _ => .decimal d

/-- How far from a whole ratio a float may be: 10⁻⁹. -/
def tolerance : Binary64 := Binary64.ofRatio false 1 1000000000

/-- A float is a multiple if the ratio is whole up to the tolerance. -/
def checkFloatMultiple (lax : Bool) (factor x : Binary64) : Verdict :=
  let ratio := x.div factor
  let whole := ratio.roundTo .halfAway
  .decide ((ratio.sub whole).abs.compare? tolerance == some .lt) lax (some (.float (whole.mul factor)))

/-- A float is judged by floats and any other number by decimals; every number is a multiple of zero there. -/
def checkMultiple (lax : Bool) (factor v : Value) : Verdict :=
  match v, factor.toBinary64? with
  | .float x, some m => checkFloatMultiple lax m x
  | _, _ =>
    match v.toDecimal?, factor.toDecimal? with
    | some d, some m =>
      let nearest := do (((← d.div? m).roundTo .halfAway 0).mul? m).map (likeKind v)
      .decide (m.isZero || d.isMultipleOf m) lax nearest
    | _, _ => .violated

/-- The number rounded to so many places, or cut off there if rounding gives it too many digits. -/
def shortened (keyword : Keyword) (limit places : Nat) (d : Decimal) : Decimal :=
  let rounded := (d.roundTo .halfAway places).normalized
  if keyword = .maxDigits ∧ limit < rounded.digitCounts.1 then (d.roundTo .down places).normalized else rounded

/-- The limit on digits counts modulo 2³². -/
def checkPrecision (keyword : Keyword) (lax : Bool) (count : Nat) (v : Value) : Verdict :=
  match v.toDecimal? with
  | none => .violated
  | some d =>
    let limit := count % twoTo 32
    let (digits, places) := d.digitCounts
    let mended (places : Nat) : Value := likeKind v (shortened keyword limit places d)
    if keyword = .decimalPlaces then .decide (places ≤ limit) lax (some (mended limit))
    else .decide (digits ≤ limit) lax
      (if limit < digits - places then none else some (mended (limit - (digits - places))))

/-! ### Fixed values and patterns -/

/-- The constant itself is what a lax constraint puts in the place of another value. -/
def checkConst (lax : Bool) (expected v : Value) : Verdict :=
  .decide (v.equivalent expected) lax (some expected)

/-- No value of the choice is nearest to another value, so nothing is replaced. -/
def checkEnum (allowed v : Value) : Verdict :=
  match allowed with
  | .list items => .decide (items.any v.equivalent) false none
  | _ => .violated

/-- A text, or bytes that encode one, must have a match somewhere. -/
def checkPattern (p : Pattern) (v : Value) : Verdict :=
  let matched := match v with
    | .str s => p.isMatch s.toList
    | .bytes bs => (Text.Utf8.decode? bs).any p.isMatch
    | _ => false
  .decide matched false none

/-! ### Sizes -/

/-- The first characters, bytes, items or entries. -/
def truncated (n : Nat) : Value → Value
  | .str s => .str (String.ofList (s.toList.take n))
  | .bytes bs => .bytes (bs.take n)
  | .list items => .list (items.take n)
  | .tuple items => .tuple (items.take n)
  | .set items => .set (items.take n)
  | .map entries => .map (entries.take n)
  | v => v

/-- What is too long can be cut; what is too short has no remedy. -/
def checkLength (keyword : Keyword) (lax : Bool) (n : Nat) (v : Value) : Verdict :=
  match v.size? with
  | none => .violated
  | some size =>
    let complies := match keyword with
      | .length => size == n
      | .minLength => decide (n ≤ size)
      | _ => decide (size ≤ n)
    .decide complies lax (if n < size then some (truncated n v) else none)

/-- Lists and tuples may lose later equal items; sets and maps have none. -/
def checkUnique (lax : Bool) (v : Value) : Verdict :=
  match v with
  | .list items => .decide (Value.allDistinct items) lax (some (.list (Value.distinct items)))
  | .tuple items => .decide (Value.allDistinct items) lax (some (.tuple (Value.distinct items)))
  | .set _ | .map _ => .kept
  | _ => .violated

/-! ### All keywords -/

/-- What a constraint makes of a value. Constraints on the items that satisfy a rule keep every value:
    those items are counted elsewhere. -/
def verdict {ρ : Type} (c : Constraint ρ) (v : Value) : Verdict :=
  match c.keyword with
  | .gt | .ge | .lt | .le => checkBound c.keyword c.lax c.scalar v
  | .multipleOf => checkMultiple c.lax c.scalar v
  | .const => checkConst c.lax c.scalar v
  | .enum => checkEnum c.scalar v
  | .regex => match c.operand with
    | .pattern p => checkPattern p v
    | _ => .kept
  | .decimalPlaces | .maxDigits => checkPrecision c.keyword c.lax c.count v
  | .length | .minLength | .maxLength => checkLength c.keyword c.lax c.count v
  | .uniqueItems => checkUnique c.lax v
  | .contains | .minContains | .maxContains => .kept

end Constraint

end Conform

import Conform.Value.Equality
import Conform.Numeric.Decimal.Binary

/-!
Order between values, for bounds, constants and enumerations. Numbers compare across their kinds, by
way of decimals where one is a decimal and of floats otherwise; texts, bytes, times and identifiers
compare within their own kind; members compare as their stored values; all else is incomparable.
-/

namespace Conform.Value

/-- The value as a float, if it is a number or a truth value. -/
def toBinary64? : Value → Option Binary64
  | .int i => some (Binary64.ofInt i.toInt)
  | .float x => some x
  | .bool b => some (Binary64.ofNat b.toNat)
  | .decimal d => some d.toBinary64
  | _ => none

/-- The value as a decimal; a float by its shortest text. -/
def toDecimal? : Value → Option Decimal
  | .decimal d => some d
  | .int i => some (Decimal.ofInt i.toInt)
  | .bool b => some (Decimal.ofInt b.toNat)
  | .float x => Decimal.ofBinary64? x
  | _ => none

/-- Order of bytes, the first difference deciding. -/
def compareBytes : List UInt8 → List UInt8 → Ordering
  | [], [] => .eq
  | [], _ :: _ => .lt
  | _ :: _, [] => .gt
  | a :: as, b :: bs => (Ord.compare a.toNat b.toNat).then (compareBytes as bs)

/-- Order between values that are no members. -/
def comparePlain? : Value → Value → Option Ordering
  | .int a, .int b => some (Ord.compare a.toInt b.toInt)
  | .decimal a, .decimal b => some (a.compare b)
  | .decimal a, b => b.toDecimal?.map a.compare
  | a, .decimal b => a.toDecimal?.map (·.compare b)
  | .str a, .str b => some (Ord.compare a b)
  | .bytes a, .bytes b => some (compareBytes a b)
  | .date a, .date b => some (Ord.compare a.number b.number)
  | .time a, .time b => some (a.compare b)
  | .datetime a, .datetime b => some (a.compare b)
  | .instant a, .instant b => some (a.compare b)
  | .duration a, .duration b => some (a.compare b)
  | .uuid a, .uuid b => some (a.compare b)
  | a, b => do (← a.toBinary64?).compare? (← b.toBinary64?)

/-- Order between values, where there is one. -/
def compare? (a b : Value) : Option Ordering := comparePlain? a.stored b.stored

/-- Equality for constants and enumerations: as data, or as numbers of any kinds. -/
def equivalent (a b : Value) : Bool :=
  a.same b || (a.kind.isNumeric && b.kind.isNumeric && a.compare? b == some .eq)

theorem equivalent_iff {a b : Value} : a.equivalent b = true ↔
    a.same b = true ∨ (a.kind.isNumeric = true ∧ b.kind.isNumeric = true) ∧ a.compare? b = some .eq := by
  rw [equivalent, Bool.or_eq_true, Bool.and_eq_true, Bool.and_eq_true, beq_iff_eq]

end Conform.Value

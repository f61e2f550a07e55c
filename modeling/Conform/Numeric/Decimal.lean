import Conform.Numeric.Digits
import Conform.Numeric.Power
import Conform.Numeric.Rounding

/-!
Decimal numbers: a sign, a mantissa of 96 bits and a scale of at most 28 places. Equality of data
keeps the scale; `compare` and `same` go by value. An operation whose exact result does not fit drops
digits, ties to even, and fails when even an integer result is too long.
-/

namespace Conform

/-- `± mantissa / 10 ^ scale`. A zero may carry a minus sign. -/
structure Decimal where
  negative : Bool
  mantissa : Nat
  scale : Nat
  mantissa_lt : mantissa < twoTo 96
  scale_le : scale ≤ 28
deriving DecidableEq

namespace Decimal

/-! ### Construction -/

/-- The number with the given parts, if they are in range. -/
def make? (negative : Bool) (mantissa scale : Nat) : Option Decimal :=
  if h : mantissa < twoTo 96 ∧ scale ≤ 28 then some ⟨negative, mantissa, scale, h.1, h.2⟩ else none

def zero : Decimal := ⟨false, 0, 0, by decide, by decide⟩

/-- An integer of 64 bits or less. -/
def ofInt (i : Int) : Decimal :=
  if h : i.natAbs < twoTo 96 then ⟨i < 0, i.natAbs, 0, h, by decide⟩ else zero

theorem ofInt_mantissa {i : Int} (h : i.natAbs < twoTo 96) : (ofInt i).mantissa = i.natAbs := by
  rw [ofInt, dif_pos h]

/-- A number in range, with a zero made positive. -/
def unsignedZero? (negative : Bool) (mantissa scale : Nat) : Option Decimal :=
  make? (negative && mantissa != 0) mantissa scale

/-! ### Value -/

def isZero (d : Decimal) : Bool := d.mantissa == 0

/-- The signed mantissa. -/
def signed (d : Decimal) : Int := if d.negative then -d.mantissa else d.mantissa

/-- The signed mantissas of two numbers at their common scale. -/
def aligned (a b : Decimal) : Int × Int :=
  (a.signed * tenTo (b.scale - a.scale), b.signed * tenTo (a.scale - b.scale))

/-- Order by value. -/
protected def compare (a b : Decimal) : Ordering :=
  let (x, y) := aligned a b
  Ord.compare x y

/-- Equality by value. -/
def same (a b : Decimal) : Bool := a.compare b == .eq

/-! ### Rounding -/

/-- Parts of any length brought into range: as many places are dropped as the scale and the mantissa
    need, each time rounding the exact mantissa. -/
def fitFrom (negative : Bool) (mantissa scale : Nat) : (fuel drop : Nat) → Option Decimal
  | 0, _ => none
  | fuel + 1, drop =>
    if scale < drop then none
    else
      match unsignedZero? negative (Rounding.halfEven.divide mantissa (tenTo drop)) (scale - drop) with
      | some d => some d
      | none => fitFrom negative mantissa scale fuel (drop + 1)

/-- The nearest number to `± mantissa / 10 ^ scale` with the most places that fit. -/
def fit? (negative : Bool) (mantissa scale : Nat) : Option Decimal :=
  fitFrom negative mantissa scale (scale + 1) (scale - 28)

/-- The number with at most `places` places. -/
def roundTo (r : Rounding) (places : Nat) (d : Decimal) : Decimal :=
  if d.scale ≤ places then d
  else (unsignedZero? d.negative (r.divide d.mantissa (tenTo (d.scale - places))) places).getD d

/-- The integer part. -/
def truncated (d : Decimal) : Int :=
  let whole : Int := (d.mantissa / tenTo d.scale : Nat)
  if d.negative then -whole else whole

/-- The greatest integer that is not above. -/
def floor (d : Decimal) : Int := d.signed.fdiv (tenTo d.scale)

/-- Whether there is no fractional part. -/
def isIntegral (d : Decimal) : Bool := d.mantissa % tenTo d.scale == 0

/-- The nearest integer, ties to even. -/
def nearest (d : Decimal) : Int :=
  let n : Int := Rounding.halfEven.divide d.mantissa (tenTo d.scale)
  if d.negative then -n else n

/-- The same value without trailing fractional zeros; zero has no sign and no places. -/
def normalized (d : Decimal) : Decimal :=
  if d.isZero then zero
  else
    let dropped := (Digits.dropZeros d.scale d.mantissa).2
    (make? d.negative (d.mantissa / tenTo dropped) (d.scale - dropped)).getD d

/-! ### Arithmetic -/

def neg (d : Decimal) : Decimal := { d with negative := !d.negative }

def abs (d : Decimal) : Decimal := { d with negative := false }

/-- The exact sum at the longer scale, brought into range; a zero term returns the other unchanged. -/
def add? (a b : Decimal) : Option Decimal :=
  if a.isZero then some b
  else if b.isZero then some a
  else
    let (x, y) := aligned a b
    fit? (x + y < 0) (x + y).natAbs (max a.scale b.scale)

def sub? (a b : Decimal) : Option Decimal :=
  if b.isZero then some (if a.isZero then b else a) else add? a b.neg

/-- The exact product brought into range; a zero factor gives the plain zero. -/
def mul? (a b : Decimal) : Option Decimal :=
  if a.isZero || b.isZero then some zero
  else fit? (a.negative != b.negative) (a.mantissa * b.mantissa) (a.scale + b.scale)

/-- The quotient rounded to `places` places, if that many fit. -/
def quotientAt? (a b : Decimal) (places : Nat) : Option Decimal :=
  unsignedZero? (a.negative != b.negative)
    (Rounding.halfEven.divide (a.mantissa * tenTo (places + b.scale)) (b.mantissa * tenTo a.scale)) places

/-- The quotient to the most of `places` places that fit. -/
def quotientWithin? (a b : Decimal) : (places : Nat) → Option Decimal
  | 0 => quotientAt? a b 0
  | places + 1 => (quotientAt? a b (places + 1)).or (quotientWithin? a b places)

/-- The quotient to the most places that fit; there is none by zero. -/
def div? (a b : Decimal) : Option Decimal :=
  if b.isZero then none else if a.isZero then some zero else quotientWithin? a b 28

/-- Whether a remainder by `b` can be taken: a divisor of more than 64 bits is shifted up to 96 of them,
    and then the dividend, at the scale of the divisor and shifted as far, must fit in 192 bits. -/
def dividesWithin (a b : Decimal) : Bool :=
  let (x, y) := aligned a b
  y.natAbs < twoTo 64 || x.natAbs * twoTo 95 < twoTo (192 + y.natAbs.log2)

/-- Whether `a` is found to be a whole multiple of `b`; none is found where no remainder can be taken. -/
def isMultipleOf (a b : Decimal) : Bool :=
  let (x, y) := aligned a b
  dividesWithin a b && x % y == 0

/-! ### Digits -/

/-- How many digits the mantissa has once trailing fractional zeros are gone, counting the places
    after the point at least, and how many of them are places. -/
def digitCounts (d : Decimal) : Nat × Nat :=
  let n := d.normalized
  (max (Digits.ofNat n.mantissa).length n.scale, n.scale)

/-- The digits with a point before the last `scale` of them; a zero stands before a leading point. -/
def text (d : Decimal) : List Char :=
  let digits := Digits.padded (d.scale + 1) d.mantissa
  let whole := digits.take (digits.length - d.scale)
  let body := if d.scale = 0 then whole else whole ++ '.' :: digits.drop (digits.length - d.scale)
  if d.negative then '-' :: body else body

end Decimal

end Conform

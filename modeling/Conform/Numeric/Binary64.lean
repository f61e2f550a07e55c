import Conform.Numeric.Power
import Conform.Numeric.Rounding

/-!
Binary floating point of 64 bits. A number is its bit pattern; `form` reads it as a sign, an integral
mantissa and a power of two, and every operation computes the exact rational result on that reading
and rounds it once, to the nearest pattern with ties to even.
-/

namespace Conform

/-- A floating-point number, as its 64 bits. -/
structure Binary64 where
  bits : UInt64
deriving DecidableEq

namespace Binary64

/-- What a bit pattern denotes: a finite number is `± mantissa · 2 ^ exponent`. -/
inductive Form
  | nan
  | infinite (negative : Bool)
  | finite (negative : Bool) (mantissa : Nat) (exponent : Int)
deriving DecidableEq

/-! ### Reading and writing patterns -/

def negative (x : Binary64) : Bool := x.bits.toNat / twoTo 63 == 1

/-- The pattern without its sign. -/
def magnitudeBits (x : Binary64) : Nat := x.bits.toNat % twoTo 63

/-- The magnitude pattern of infinity; above it lie the patterns that denote no number. -/
def infinityBits : Nat := 2047 * twoTo 52

/-- What the bits stand for. -/
def form (x : Binary64) : Form :=
  let exponent : Nat := x.magnitudeBits / twoTo 52
  let fraction : Nat := x.magnitudeBits % twoTo 52
  if exponent = 2047 then if fraction = 0 then .infinite x.negative else .nan
  else if exponent = 0 then .finite x.negative fraction (-1074)
  else .finite x.negative (twoTo 52 + fraction) ((exponent : Int) - 1075)

def ofSignBits (negative : Bool) (magnitude : Nat) : Binary64 :=
  ⟨.ofNat ((if negative then twoTo 63 else 0) + magnitude)⟩

def nan : Binary64 := ofSignBits false (2047 * twoTo 52 + twoTo 51)

def infinity (negative : Bool) : Binary64 := ofSignBits negative infinityBits

def zero (negative : Bool) : Binary64 := ofSignBits negative 0

/-- `n · 2 ^ e`, as a fraction of naturals. -/
def scaled (n : Nat) (e : Int) : Nat × Nat := (n * twoTo e.toNat, twoTo (-e).toNat)

/-- The power of two of the last mantissa bit of the number nearest to `num / den`: the mantissa
    keeps 53 bits, except below the smallest normal number. -/
def unitExponent (num den : Nat) : Int :=
  let low : Int := max ((Nat.log2 num : Int) - Nat.log2 den - 53) (-1074)
  let (n, d) := scaled num (-low)
  if n / (d * den) < twoTo 53 then low else low + 1

/-- The number nearest to `± num / den`, ties to even; past the largest number it is infinite. -/
def ofRatio (negative : Bool) (num den : Nat) : Binary64 :=
  if num = 0 then zero negative
  else
    let e := unitExponent num den
    let (n, d) := scaled num (-e)
    -- A mantissa of 54 bits after rounding carries into the exponent field by itself.
    let magnitude := (e + 1074).toNat * twoTo 52 + Rounding.halfEven.divide n (d * den)
    ofSignBits negative (min magnitude infinityBits)

/-- The number nearest to `± n · 2 ^ e`. -/
def ofScaled (negative : Bool) (n : Nat) (e : Int) : Binary64 :=
  let (num, den) := scaled n e
  ofRatio negative num den

def ofNat (n : Nat) : Binary64 := ofRatio false n 1

def ofInt (i : Int) : Binary64 := ofRatio (i < 0) i.natAbs 1

/-! ### Predicates and order -/

def isNaN (x : Binary64) : Bool := decide (infinityBits < x.magnitudeBits)

def isFinite (x : Binary64) : Bool := decide (x.magnitudeBits < infinityBits)

def isZero (x : Binary64) : Bool := x.magnitudeBits == 0

/-- `± m · 2 ^ e` in units of `2 ^ unit`, for a unit no coarser than the number's own. -/
def inUnits (negative : Bool) (m : Nat) (e unit : Int) : Int :=
  let n : Int := (m * twoTo (e - unit).toNat : Nat)
  if negative then -n else n

/-- The order of two numbers; nothing when either is not a number. -/
def compare? (x y : Binary64) : Option Ordering :=
  match x.form, y.form with
  | .nan, _ | _, .nan => none
  | .infinite a, .infinite b => some (if a == b then .eq else if a then .lt else .gt)
  | .infinite a, .finite .. => some (if a then .lt else .gt)
  | .finite .., .infinite b => some (if b then .gt else .lt)
  | .finite a m e, .finite b n f =>
    let unit := min e f
    some (compare (inUnits a m e unit) (inUnits b n f unit))

/-- Equal as data: the two zeros are one number, and so are all patterns that denote none. -/
def same (x y : Binary64) : Bool :=
  x.compare? y == some .eq || (x.isNaN && y.isNaN)

/-- Finite and without fractional part. -/
def isIntegral (x : Binary64) : Bool :=
  match x.form with
  | .finite _ m e => m % twoTo (-e).toNat == 0
  | _ => false

/-! ### Arithmetic -/

def neg (x : Binary64) : Binary64 := ofSignBits (!x.negative) x.magnitudeBits

def abs (x : Binary64) : Binary64 := ofSignBits false x.magnitudeBits

/-- A sum that cancels is the positive zero, unless both terms are negative zeros. -/
def add (x y : Binary64) : Binary64 :=
  match x.form, y.form with
  | .nan, _ | _, .nan => nan
  | .infinite a, .infinite b => if a == b then x else nan
  | .infinite _, .finite .. => x
  | .finite .., .infinite _ => y
  | .finite a m e, .finite b n f =>
    let unit := min e f
    let sum := inUnits a m e unit + inUnits b n f unit
    if sum = 0 then zero (a && b) else ofScaled (sum < 0) sum.natAbs unit

def sub (x y : Binary64) : Binary64 := x.add y.neg

/-- The product, rounded once. -/
def mul (x y : Binary64) : Binary64 :=
  match x.form, y.form with
  | .nan, _ | _, .nan => nan
  | .infinite a, .infinite b => infinity (a != b)
  | .infinite a, .finite b n _ => if n = 0 then nan else infinity (a != b)
  | .finite a m _, .infinite b => if m = 0 then nan else infinity (a != b)
  | .finite a m e, .finite b n f => ofScaled (a != b) (m * n) (e + f)

/-- The quotient, rounded once. -/
def div (x y : Binary64) : Binary64 :=
  match x.form, y.form with
  | .nan, _ | _, .nan => nan
  | .infinite _, .infinite _ => nan
  | .infinite a, .finite b _ _ => infinity (a != b)
  | .finite a _ _, .infinite b => zero (a != b)
  | .finite a m e, .finite b n f =>
    if n = 0 then if m = 0 then nan else infinity (a != b)
    else
      let (num, den) := scaled m (e - f)
      ofRatio (a != b) num (den * n)

/-- The integral number in the given direction; a number that is not finite stays as it is. -/
def roundTo (r : Rounding) (x : Binary64) : Binary64 :=
  match x.form with
  | .finite a m e =>
    let (num, den) := scaled m e
    ofRatio a (r.divide num den) 1
  | _ => x

/-- The integer part of a finite number. -/
def truncated? (x : Binary64) : Option Int :=
  match x.form with
  | .finite a m e =>
    let (num, den) := scaled m e
    some (if a then -((num / den : Nat) : Int) else ((num / den : Nat) : Int))
  | _ => none

/-- The next number above (or below); infinities and what is not a number stay as they are. -/
def next (up : Bool) (x : Binary64) : Binary64 :=
  if !x.isFinite then x
  else if x.isZero then ofSignBits (!up) 1
  else if x.negative != up then ofSignBits x.negative (x.magnitudeBits + 1)
  else ofSignBits x.negative (x.magnitudeBits - 1)

end Binary64

end Conform

import Conform.Numeric.Decimal.Numeral
import Conform.Numeric.Binary64.Shortest

/-!
Between decimals and binary floating point. A float becomes the decimal of its shortest text, so that
`0.1` stays one tenth; a decimal becomes a float by dividing in floating point and rounding the result
to the decimal's own places.
-/

namespace Conform

/-- The decimal of a float's shortest text; nothing for what is not finite or too large. -/
def Decimal.ofBinary64? (x : Binary64) : Option Decimal :=
  if x.isFinite then Decimal.ofPlain? (Binary64.plain.text x) else none

/-- The magnitude of a decimal with places: the whole part plus the fraction, brought back to the
    number of places that the decimal has. -/
def Decimal.magnitude64 (d : Decimal) : Binary64 :=
  let unit := Binary64.ofNat (tenTo d.scale)
  let whole := Binary64.ofNat (d.mantissa / tenTo d.scale)
  let fraction := (Binary64.ofNat (d.mantissa % tenTo d.scale)).div unit
  if fraction.isZero then whole
  else (((whole.add fraction).mul unit).roundTo .halfAway).div unit

/-- The float for a decimal, of the sign of the latter. -/
def Decimal.toBinary64 (d : Decimal) : Binary64 :=
  if d.scale = 0 then Binary64.ofInt d.signed
  else if d.negative then d.magnitude64.neg
  else d.magnitude64

end Conform

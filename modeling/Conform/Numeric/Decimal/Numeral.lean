import Conform.Numeric.Decimal

/-!
Reading a decimal numeral. Digits are taken as long as they fit into 28 places and 96 bits; the first
digit that does not is rounded half up, and the digits after it count for nothing. A numeral with an
exponent shifts the point of its base.
-/

namespace Conform.Decimal

/-! ### Plain numerals -/

/-- The digits read so far. -/
structure Accumulated where
  negative : Bool
  mantissa : Nat
  scale : Nat
  afterPoint : Bool
  anyDigit : Bool

/-- What may stand behind the point: digits and underscores between them. -/
def isPlace (c : Char) : Bool := c.isDigit || c == '_'

/-- Rounds half up on the first dropped digit; a carry past 96 bits gives up one more place. The digits
    behind it have no influence, but nothing else may stand among them. -/
def Accumulated.rounded? (acc : Accumulated) (c : Char) (rest : List Char) : Option Decimal :=
  if !(c :: rest).all isPlace then none
  else if c = '_' || Digits.value c < 5 then unsignedZero? acc.negative acc.mantissa acc.scale
  else if acc.mantissa + 1 < twoTo 96 then unsignedZero? acc.negative (acc.mantissa + 1) acc.scale
  else if acc.scale = 0 then none
  else unsignedZero? acc.negative ((acc.mantissa + 5) / 10) (acc.scale - 1)

/-- The decimal once the rest of the numeral is read; digits beyond its capacity are rounded off. -/
def Accumulated.read : Accumulated → List Char → Option Decimal
  | acc, [] => if acc.anyDigit then unsignedZero? acc.negative acc.mantissa acc.scale else none
  | acc, c :: rest =>
    if acc.afterPoint && acc.scale == 28 then acc.rounded? c rest
    else if c.isDigit then
      let next := 10 * acc.mantissa + Digits.value c
      if next < twoTo 96 then
        read { acc with
          mantissa := next
          scale := if acc.afterPoint then acc.scale + 1 else 0
          anyDigit := true } rest
      else if acc.afterPoint then acc.rounded? c rest
      else none
    else if c = '.' && !acc.afterPoint then read { acc with afterPoint := true } rest
    else if c = '_' && acc.anyDigit then read acc rest
    else none

/-- A sign, digits and at most one point. -/
def ofPlain? (cs : List Char) : Option Decimal :=
  match cs with
  | '-' :: rest => Accumulated.read ⟨true, 0, 0, false, false⟩ rest
  | '+' :: rest => Accumulated.read ⟨false, 0, 0, false, false⟩ rest
  | _ => Accumulated.read ⟨false, 0, 0, false, false⟩ cs

/-! ### Numerals with an exponent -/

/-- An unsigned exponent, a plus sign allowed. -/
def exponent? (cs : List Char) : Option Nat :=
  let digits := match cs with
    | '+' :: rest => rest
    | _ => cs
  if digits.isEmpty || !digits.all Char.isDigit then none
  else
    let n := Digits.toNat digits
    if n ≤ 28 then some n else none

/-- The number `10 ^ places` times smaller, with that many more places; those past 28 are rounded off,
    a half away from zero. -/
def shiftedRight? (d : Decimal) (places : Nat) : Option Decimal :=
  make? d.negative (Rounding.halfAway.divide d.mantissa (tenTo (d.scale + places - 28))) (min (d.scale + places) 28)

/-- The number `10 ^ places` times larger: it gives up as many places, and where it has too few becomes
    a whole number. -/
def shiftedLeft? (d : Decimal) (places : Nat) : Option Decimal :=
  if places ≤ d.scale then make? d.negative d.mantissa (d.scale - places)
  else unsignedZero? d.negative (d.mantissa * tenTo (places - d.scale)) 0

/-- A base, `e` or `E`, and an exponent of at most 28 in magnitude. -/
def ofScientific? (cs : List Char) : Option Decimal :=
  let isMark (c : Char) : Bool := c == 'e' || c == 'E'
  match cs.dropWhile (!isMark ·) with
  | [] => none
  | _ :: exponent => do
    let base ← ofPlain? (cs.takeWhile (!isMark ·))
    match exponent with
    | '-' :: digits => base.shiftedRight? (← exponent? digits)
    | _ => base.shiftedLeft? (← exponent? exponent)

/-- A numeral without an exponent, or else with one. -/
def ofChars? (cs : List Char) : Option Decimal := (ofPlain? cs).or (ofScientific? cs)

end Conform.Decimal

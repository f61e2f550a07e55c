import Conform.Numeric.Binary64
import Conform.Numeric.Digits

/-!
Reading a floating-point numeral: an optional sign, then `inf`, `infinity` or `nan` in any case, or
digits with at most one point and an optional exponent. The value is rounded once.
-/

namespace Conform.Binary64

/-- The number nearest to `± c · 10 ^ e`. A decimal of `digits` digits beyond the range is settled by
    its position alone. -/
def ofDecimal (negative : Bool) (c : Nat) (e : Int) : Binary64 :=
  let top : Int := (Digits.ofNat c).length + e
  if c = 0 then zero negative
  else if 310 < top then infinity negative
  else if top < -330 then zero negative
  else ofRatio negative (c * tenTo e.toNat) (tenTo (-e).toNat)

/-- An optional sign: whether it is a minus, and what follows it. -/
def signed : List Char → Bool × List Char
  | '-' :: rest => (true, rest)
  | '+' :: rest => (false, rest)
  | cs => (false, cs)

/-- The exponent of a numeral, from its mark to the end of the text; no text is exponent zero. -/
def exponent? : List Char → Option Int
  | [] => some 0
  | mark :: rest =>
    if mark = 'e' ∨ mark = 'E' then
      let (negative, digits) := signed rest
      if digits.isEmpty || !digits.all Char.isDigit then none
      else some (if negative then -(Digits.toNat digits) else Digits.toNat digits)
    else none

/-- An unsigned numeral of digits, point and exponent. -/
def ofNumeral? (negative : Bool) (cs : List Char) : Option Binary64 :=
  let (whole, rest) := Digits.span cs
  let (fraction, rest) := match rest with
    | '.' :: after => Digits.span after
    | _ => ([], rest)
  if whole.isEmpty && fraction.isEmpty then none
  else
    (exponent? rest).map fun e =>
      ofDecimal negative (Digits.toNat (whole ++ fraction)) (e - fraction.length)

/-- The float that a numeral, or a word for infinity or for no number, spells. -/
def ofChars? (cs : List Char) : Option Binary64 :=
  let (negative, body) := signed cs
  let lower := body.map Char.toLower
  if lower = ['i', 'n', 'f'] ∨ lower = ['i', 'n', 'f', 'i', 'n', 'i', 't', 'y'] then some (infinity negative)
  else if lower = ['n', 'a', 'n'] then some nan
  else ofNumeral? negative body

end Conform.Binary64

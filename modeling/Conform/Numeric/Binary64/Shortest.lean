import Conform.Numeric.Binary64
import Conform.Numeric.Digits

/-!
The text of a floating-point number: the fewest decimal digits that read back as the same number, and
of those the nearest. `shortest` finds the digits; a `Layout` says how they are written, and the
library has two, `plain` for messages and `json` for documents.
-/

namespace Conform.Binary64

/-! ### Digits -/

/-- A decimal `coefficient · 10 ^ exponent`. -/
structure Digits10 where
  coefficient : Nat
  exponent : Int
deriving DecidableEq

/-- The reals that round to `m · 2 ^ e` reach from `4m - below` to `4m + 2` quarter units, ends
    included for an even mantissa; below a power of two the neighbour is only half as far. -/
def reachBelow (m : Nat) (e : Int) : Nat := if m = twoTo 52 ∧ -1074 < e then 1 else 2

/-- Which of two equally near decimals is written. -/
inductive Tie
  | even
  | up
deriving DecidableEq

/-- The nearest point of the grid of multiples of `10 ^ place` that reads back as `m · 2 ^ e`, if the
    grid has one: it is one of the two neighbours of the number. -/
def onGrid? (tie : Tie) (m : Nat) (e place : Int) : Option Nat :=
  -- In units of `2 ^ (e - 2) / den`, the number is `4 * m * den` and a grid step is `num`.
  let num := tenTo place.toNat * twoTo (2 - e).toNat
  let den := tenTo (-place).toNat * twoTo (e - 2).toNat
  let point := 4 * m * den
  let low := point / num
  let inside (d : Nat) : Bool :=
    let x := d * num
    if m % 2 = 0 then (4 * m - reachBelow m e) * den ≤ x && x ≤ (4 * m + 2) * den
    else (4 * m - reachBelow m e) * den < x && x < (4 * m + 2) * den
  match inside low, inside (low + 1) with
  | false, false => none
  | true, false => some low
  | false, true => some (low + 1)
  | true, true =>
    let below := point - low * num
    let above := (low + 1) * num - point
    if below < above then some low
    else if above < below then some (low + 1)
    else match tie with
      | .up => some (low + 1)
      | .even => some (low + low % 2)

/-- The least `p` with `m · 2 ^ e < 10 ^ p`. -/
def decimalPoint (m : Nat) (e : Int) : Int :=
  let (num, den) := scaled m e
  let below (p : Int) : Bool := num * tenTo (-p).toNat < den * tenTo p.toNat
  let guess : Int := ((Nat.log2 m : Int) + e) * 30103 / 100000
  if below guess then guess else if below (guess + 1) then guess + 1 else guess + 2

/-- The first of the grids of `count`, `count + 1`, … digits with a point that reads back. -/
def search (tie : Tie) (m : Nat) (e point : Int) : (fuel count : Nat) → Digits10
  | 0, count => ⟨0, point - count⟩
  | fuel + 1, count =>
    match onGrid? tie m e (point - count) with
    | some d => ⟨d, point - count⟩
    | none => search tie m e point fuel (count + 1)

/-- The fewest digits that read back as `m · 2 ^ e`, for a positive mantissa: seventeen always do. -/
def shortest (tie : Tie) (m : Nat) (e : Int) : Digits10 :=
  let found := search tie m e (decimalPoint m e) 17 1
  let (c, k) := Digits.dropZeros 17 found.coefficient
  ⟨c, found.exponent + k⟩

/-! ### Layout -/

/-- How the digits of a number are written. -/
structure Layout where
  /-- Which of two equally near decimals is taken. -/
  tie : Tie
  /-- Positions of the decimal point, counted from the first digit, at which no exponent is written. -/
  positional : Int → Bool
  /-- Written after a whole number without an exponent. -/
  wholeMark : List Char
  /-- The texts for what is not finite. -/
  notANumber : List Char
  infinite : List Char

/-- Digits with a decimal point after the first `point` of them, zeros filled in on either side. -/
def positionalText (wholeMark digits : List Char) (point : Int) : List Char :=
  if point ≤ 0 then '0' :: '.' :: (List.replicate (-point).toNat '0' ++ digits)
  else if digits.length ≤ point.toNat then
    digits ++ List.replicate (point.toNat - digits.length) '0' ++ wholeMark
  else digits.take point.toNat ++ '.' :: digits.drop point.toNat

/-- One digit, the others after a point, and a signed exponent. -/
def exponentText (digits : List Char) (point : Int) : List Char :=
  let exponent := point - 1
  let mantissa := match digits with
    | [] => []
    | [d] => [d]
    | d :: rest => d :: '.' :: rest
  mantissa ++ 'e' :: (if exponent < 0 then '-' else '+') :: Digits.ofNat exponent.natAbs

/-- The float in a layout, with the fewest digits that are read back as it. -/
def Layout.text (layout : Layout) (x : Binary64) : List Char :=
  match x.form with
  | .nan => layout.notANumber
  | .infinite a => if a then '-' :: layout.infinite else layout.infinite
  | .finite a m e =>
    let body :=
      if m = 0 then '0' :: layout.wholeMark
      else
        let found := shortest layout.tie m e
        let digits := Digits.ofNat found.coefficient
        let point := found.exponent + digits.length
        if layout.positional point then positionalText layout.wholeMark digits point
        else exponentText digits point
    if a then '-' :: body else body

/-- In messages no number has an exponent, and a whole number has no decimal point. -/
def plain : Layout where
  tie := .up
  positional := fun _ => true
  wholeMark := []
  notANumber := ['N', 'a', 'N']
  infinite := ['i', 'n', 'f']

/-- In documents numbers from `1e-5` up to `1e16` are written without an exponent, and every number
    has a decimal point or an exponent; what is not finite has no number text and is `null`. -/
def json : Layout where
  tie := .even
  positional := fun point => -5 < point && point ≤ 16
  wholeMark := ['.', '0']
  notANumber := ['n', 'u', 'l', 'l']
  infinite := ['n', 'u', 'l', 'l']

end Conform.Binary64

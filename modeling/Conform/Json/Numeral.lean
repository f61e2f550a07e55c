import Conform.Json.Basic
import Conform.Numeric.Binary64.Numeral

/-!
Reading a JSON number. Digits are gathered into 64 bits as far as they fit. An integer that fits is
kept; for anything else the significand is multiplied or divided by a power of ten in floating point,
which is not always the nearest number but is quick. Too large a number is refused.
-/

namespace Conform.Json

/-- The digits that still fit into 64 bits behind `n`, and how many were taken. -/
def gather (n : Nat) : List Char → Nat × Nat
  | [] => (n, 0)
  | c :: rest =>
    let next := 10 * n + Digits.value c
    if next < twoTo 64 then
      let (m, taken) := gather next rest
      (m, taken + 1)
    else (n, 0)

def powerOfTen (k : Nat) : Binary64 := Binary64.ofNat (tenTo k)

/-- `x · 10 ^ e`. Small exponents are brought into the table's range by dividing by its last power;
    after the second such division any significand is zero. -/
def scaleFloat? (x : Binary64) (e : Int) : (fuel : Nat) → Option Binary64
  | 0 => some x
  | fuel + 1 =>
    if e.natAbs ≤ 308 then
      if 0 ≤ e then
        let y := x.mul (powerOfTen e.natAbs)
        if y.isFinite then some y else none
      else some (x.div (powerOfTen e.natAbs))
    else if x.isZero then some x
    else if 0 ≤ e then none
    else scaleFloat? (x.div (powerOfTen 308)) (e + 308) fuel

def floatOf? (negative : Bool) (significand : Nat) (e : Int) : Option Json :=
  (scaleFloat? (Binary64.ofNat significand) e 4).map fun x => .float (if negative then x.neg else x)

/-- The exponent behind its mark: the value, or past 31 bits only its sign. -/
inductive Exponent
  | exact (e : Int)
  | beyond (negative : Bool)

/-- The exponent behind its letter, and the rest. -/
def takeExponent? (cs : List Char) : Option (Exponent × List Char) :=
  let (negative, rest) := Binary64.signed cs
  let (digits, rest) := Digits.span rest
  if digits.isEmpty then none
  else
    let n := Digits.toNat digits
    if n < twoTo 31 then some (.exact (if negative then -n else n), rest) else some (.beyond negative, rest)

/-- A float from its significand and the exponent so far, with the exponent that may follow. -/
def finishFloat? (negative : Bool) (significand : Nat) (e : Int) (cs : List Char) : Option (Json × List Char) :=
  match cs with
  | mark :: rest =>
    if mark = 'e' ∨ mark = 'E' then do
      match ← takeExponent? rest with
      | (.exact more, rest) => pure (← floatOf? negative significand (e + more), rest)
      | (.beyond small, rest) =>
        if significand = 0 ∨ small then some (.float (Binary64.zero negative), rest) else none
    else do pure (← floatOf? negative significand e, cs)
  | [] => do pure (← floatOf? negative significand e, cs)

/-- A number without its sign: no zero stands before another digit, and a point is followed by one. -/
def takeUnsigned? (negative : Bool) (cs : List Char) : Option (Json × List Char) :=
  let (digits, rest) := Digits.span cs
  if digits.isEmpty || (digits.length > 1 && digits.head? == some '0') then none
  else
    let (significand, taken) := gather 0 digits
    let dropped : Int := digits.length - taken
    match rest with
    | '.' :: after =>
      let (fraction, rest) := Digits.span after
      if fraction.isEmpty then none
      else
        let (significand, taken) := gather significand fraction
        finishFloat? negative significand (dropped - taken) rest
    | _ =>
      let marked := rest.head? == some 'e' || rest.head? == some 'E'
      if marked || dropped != 0 then finishFloat? negative significand dropped rest
      else if negative then
        if significand = 0 ∨ twoTo 63 < significand then
          some (.float (Binary64.ofNat significand).neg, rest)
        else some (.integer (-significand), rest)
      else some (.integer significand, rest)

/-- The number at the beginning of a text, and the rest. -/
def takeNumber? : List Char → Option (Json × List Char)
  | '-' :: rest => takeUnsigned? true rest
  | cs => takeUnsigned? false cs

end Conform.Json

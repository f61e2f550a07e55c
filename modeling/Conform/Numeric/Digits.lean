/-!
Decimal digits: the digits of a natural number and the number that digits spell. Characters are
ASCII; digits of other scripts do not count.
-/

namespace Conform.Digits

/-- The digits of `n`, most significant first, without leading zeros. -/
def ofNat (n : Nat) : List Char := Nat.toDigits 10 n

/-- The digits of `n`, filled up with zeros on the left to `width`. -/
def padded (width n : Nat) : List Char :=
  let digits := ofNat n
  List.replicate (width - digits.length) '0' ++ digits

def value (c : Char) : Nat := c.toNat - '0'.toNat

/-- The number a list of digits spells; the empty list spells zero. -/
def toNat (digits : List Char) : Nat := digits.foldl (fun n c => 10 * n + value c) 0

/-- The value of a hexadecimal digit in either case. -/
def hexValue? (c : Char) : Option Nat :=
  if c.isDigit then some (c.toNat - 48)
  else if 'a' ≤ c ∧ c ≤ 'f' then some (c.toNat - 87)
  else if 'A' ≤ c ∧ c ≤ 'F' then some (c.toNat - 55)
  else none

/-- The longest run of digits at the front, and the rest. -/
def span (cs : List Char) : List Char × List Char := cs.span Char.isDigit

/-- A number without its trailing zeros in base ten, and how many were dropped; at most `fuel`. -/
def dropZeros : (fuel n : Nat) → Nat × Nat
  | 0, n => (n, 0)
  | fuel + 1, n =>
    if n % 10 = 0 ∧ n ≠ 0 then
      let (m, k) := dropZeros fuel (n / 10)
      (m, k + 1)
    else (n, 0)

end Conform.Digits

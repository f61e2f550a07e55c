import Conform.Numeric.Digits
import Conform.Numeric.Power

/-!
Universally unique identifiers: 128 bits, written as 32 hexadecimal digits in groups of 8, 4, 4, 4 and
12. Reading takes the groups with their hyphens, also in braces or behind `urn:uuid:`, or the bare
digits.
-/

namespace Conform

/-- An identifier of 128 bits. -/
structure Uuid where
  bits : BitVec 128
deriving DecidableEq

namespace Uuid

def ofNat (n : Nat) : Uuid := ⟨.ofNat 128 n⟩

/-- Sixteen bytes, the most significant first. -/
def ofBytes (bytes : List UInt8) : Uuid := ofNat (bytes.foldl (fun n b => 256 * n + b.toNat) 0)

protected def compare (a b : Uuid) : Ordering := Ord.compare a.bits.toNat b.bits.toNat

/-! ### Writing -/

/-- The 32 digits, the most significant first. -/
def digits (u : Uuid) : List Char :=
  (List.range 32).map fun i => Nat.digitChar (u.bits.toNat / twoTo (4 * (31 - i)) % 16)

/-- Digits in groups of the given sizes, with hyphens between them. -/
def grouped : List Nat → List Char → List Char
  | [], cs => cs
  | n :: rest, cs => cs.take n ++ '-' :: grouped rest (cs.drop n)

def text (u : Uuid) : List Char := grouped [8, 4, 4, 4] u.digits

/-! ### Reading -/

/-- The identifier of 32 digits in either case. -/
def ofDigits? (cs : List Char) : Option Uuid := do
  if cs.length ≠ 32 then none
  let values ← cs.mapM Digits.hexValue?
  pure (ofNat (values.foldl (fun n v => 16 * n + v) 0))

/-- The groups of digits with their hyphens. -/
def ofGroups? (cs : List Char) : Option Uuid :=
  let bare := cs.filter (· != '-')
  if grouped [8, 4, 4, 4] bare = cs then ofDigits? bare else none

/-- An identifier in braces, as a name, in groups or in bare digits. -/
def ofChars? (cs : List Char) : Option Uuid :=
  match cs with
  | '\x7b' :: rest => if rest.getLast? = some '\x7d' then ofGroups? rest.dropLast else none
  | _ =>
    if (cs.take 9).map Char.toLower = "urn:uuid:".toList then ofGroups? (cs.drop 9)
    else if cs.contains '-' then ofGroups? cs
    else ofDigits? cs

end Uuid

end Conform

/-!
Sets of characters as lists of ranges of code points, and the operations on them. The tables of the
library are texts of hexadecimal numbers parted by blanks: `first-last` is a range, `first-last/step`
takes every `step`-th code point of it, and a single number stands for itself.
-/

namespace Conform.Text

/-- A set of characters: the first and the last code point of each of its ranges. -/
abbrev Ranges := List (Nat × Nat)

namespace Ranges

def contains (ranges : Ranges) (c : Char) : Bool :=
  ranges.any fun (first, last) => first ≤ c.toNat && c.toNat ≤ last

theorem contains_append (r s : Ranges) (c : Char) : contains (r ++ s) c = (r.contains c || s.contains c) := by
  simp [contains]

/-! ### Tables -/

/-- The value of a hexadecimal digit in upper case. -/
def hexValue (c : Char) : Nat := if c.isDigit then c.toNat - 48 else c.toNat - 55

/-- The ranges of one entry, its numbers in reverse. -/
def ofEntry : List Nat → Ranges
  | [n] => [(n, n)]
  | [last, first] => [(first, last)]
  | [step, last, first] =>
    (List.range ((last - first) / step + 1)).map fun i => (first + i * step, first + i * step)
  | _ => []

/-- The ranges written in a text, behind the numbers of an entry begun, the latest first. -/
def readFrom (numbers : List Nat) : List Char → Ranges
  | [] => ofEntry numbers
  | c :: rest =>
    if c = ' ' ∨ c = '\n' then ofEntry numbers ++ readFrom [] rest
    else if c = '-' ∨ c = '/' then readFrom (0 :: numbers) rest
    else match numbers with
      | [] => readFrom [hexValue c] rest
      | n :: more => readFrom ((16 * n + hexValue c) :: more) rest

def read (table : String) : Ranges := readFrom [] table.toList

/-! ### Operations -/

/-- Ranges in ascending order, those that touch or overlap made one. -/
def coalesce : Ranges → Ranges
  | [] => []
  | (first, last) :: rest => extend first last rest
where
  /-- The ranges behind a range begun, which takes in what it reaches. -/
  extend (first last : Nat) : Ranges → Ranges
    | [] => [(first, last)]
    | (first', last') :: rest =>
      if first' ≤ last + 1 then extend first (max last last') rest
      else (first, last) :: extend first' last' rest

/-- The one list of ranges in ascending order with gaps between them that has the same members. -/
def canonical (ranges : Ranges) : Ranges := coalesce (ranges.mergeSort fun r s => r.1 ≤ s.1)

def union (r s : Ranges) : Ranges := canonical (r ++ s)

/-- The last code point. -/
def lastCode : Nat := 0x10ffff

/-- The code points from `next` on that are in none of the ranges, which are canonical. -/
def gapsFrom (next : Nat) : Ranges → Ranges
  | [] => if next ≤ lastCode then [(next, lastCode)] else []
  | (first, last) :: rest =>
    if next < first then (next, first - 1) :: gapsFrom (last + 1) rest else gapsFrom (last + 1) rest

/-- The characters outside; surrogates are no characters. -/
def complement (ranges : Ranges) : Ranges := gapsFrom 0 (canonical ((0xd800, 0xdfff) :: ranges))

def intersection (r s : Ranges) : Ranges := complement (r.complement ++ s.complement)

def difference (r s : Ranges) : Ranges := complement (r.complement ++ s)

/-- The members, one by one. -/
def members (ranges : Ranges) : List Nat :=
  ranges.flatMap fun (first, last) => (List.range (last + 1 - first)).map (first + ·)

end Ranges

end Conform.Text

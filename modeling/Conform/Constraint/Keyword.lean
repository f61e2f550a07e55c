import Conform.Value

/-!
The keywords of constraints: which kinds they apply to, in which order they are checked, and which have
a lax form that mends a value instead of refusing it.
-/

namespace Conform

/-- A keyword of a constraint. -/
inductive Keyword
  | gt
  | ge
  | lt
  | le
  | multipleOf
  | const
  | enum
  | regex
  | decimalPlaces
  | maxDigits
  | length
  | minLength
  | maxLength
  | contains
  | minContains
  | maxContains
  | uniqueItems
deriving DecidableEq

namespace Keyword

def all : List Keyword :=
  [.gt, .ge, .lt, .le, .multipleOf, .const, .enum, .regex, .decimalPlaces, .maxDigits, .length, .minLength,
    .maxLength, .contains, .minContains, .maxContains, .uniqueItems]

def name : Keyword → String
  | .gt => "gt"
  | .ge => "ge"
  | .lt => "lt"
  | .le => "le"
  | .multipleOf => "multiple_of"
  | .const => "const"
  | .enum => "enum"
  | .regex => "regex"
  | .decimalPlaces => "decimal_places"
  | .maxDigits => "max_digits"
  | .length => "length"
  | .minLength => "min_length"
  | .maxLength => "max_length"
  | .contains => "contains"
  | .minContains => "min_contains"
  | .maxContains => "max_contains"
  | .uniqueItems => "unique_items"

def ofName? (name : String) : Option Keyword := all.find? (·.name == name)

/-! ### Order -/

/-- Bounds come first, then fixed values, patterns, precision, length, containment and uniqueness. -/
def priority : Keyword → Nat
  | .gt | .ge | .lt | .le | .multipleOf => 0
  | .const | .enum => 1
  | .regex => 2
  | .decimalPlaces | .maxDigits => 3
  | .length | .minLength | .maxLength => 4
  | .contains | .minContains | .maxContains => 5
  | .uniqueItems => 6

/-- The place among all keywords, which agrees with the priority. -/
def rank (k : Keyword) : Nat := all.idxOf k

theorem priority_le_of_rank_le {j k : Keyword} (h : j.rank ≤ k.rank) : j.priority ≤ k.priority := by
  cases j <;> cases k <;> first | decide | exact absurd h (by decide)

theorem rank_injective {j k : Keyword} (h : j.rank = k.rank) : j = k := by
  cases j <;> cases k <;> first | rfl | exact absurd h (by decide)

/-! ### Use -/

/-- Whether a violating value can be mended. -/
def hasLaxForm : Keyword → Bool
  | .enum | .regex | .minLength | .contains | .minContains | .maxContains => false
  | _ => true

/-- Whether values of a kind may be constrained so. -/
def supports (keyword : Keyword) (k : Kind) : Bool :=
  match keyword with
  | .gt | .ge | .lt | .le => k.isOrdered
  | .multipleOf | .decimalPlaces | .maxDigits => k.isNumeric
  | .regex => k.isText
  | .length | .minLength | .maxLength => k.isSized
  | .contains | .minContains | .maxContains | .uniqueItems => k.isSequence
  | .const | .enum => true

/-- Whether a bound excludes itself, so that mending takes a next value. -/
def isOpenBound : Keyword → Bool
  | .gt | .lt => true
  | _ => false

end Keyword

end Conform

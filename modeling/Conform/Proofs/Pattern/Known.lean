import Conform.Pattern.Known
import Conform.Proofs.Text.Ranges

/-! The digits that patterns know: those of ASCII are the ten of the decimal system. -/

namespace Conform.Pattern.Known

open Text (Ranges Category)

variable {c : Char}

/-- No character of ASCII was added late. -/
theorem later_above : ∀ r ∈ Age.later, r.1 ≤ r.2 ∧ 128 ≤ r.1 := by
  rw [Age.later, Ranges.read_ofList]
  decide +kernel

/-- The only digits of ASCII are one range. -/
theorem digits_above : (48, 57) ∈ Category.decimalNumber.ranges ∧
    ∀ r ∈ Category.decimalNumber.ranges, r.1 ≤ r.2 ∧ (r = (48, 57) ∨ 128 ≤ r.1) := by
  rw [Category.ranges, Category.decimalNumberTable, Ranges.read_ofList]
  decide +kernel

/-- A character of ASCII is a digit of some script if it is one of the decimal system. -/
theorem contains_digit (hc : c.toNat < 128) : digit.contains c = c.isDigit := by
  obtain ⟨hmem, hdigits⟩ := digits_above
  have hlater : Age.later.contains c = false := by
    rw [← Bool.not_eq_true, Ranges.contains_iff]
    exact Ranges.not_covers_of_lt fun r hr => Nat.lt_of_lt_of_le hc (later_above r hr).2
  have hranges : Category.decimalNumber.ranges.contains c = c.isDigit := by
    rw [Bool.eq_iff_iff, Ranges.contains_iff, Char.isDigit_iff_toNat]
    constructor
    · rintro ⟨r, hr, hfirst, hlast⟩
      obtain rfl | habove := (hdigits r hr).2
      · exact ⟨hfirst, hlast⟩
      · omega
    · exact fun h => ⟨_, hmem, h⟩
  change (Ranges.difference _ _).contains c = _
  rw [Ranges.contains_difference (fun r hr => (hdigits r hr).1) (fun r hr => (later_above r hr).1), hlater, hranges,
    Bool.not_false, Bool.and_true]

end Conform.Pattern.Known

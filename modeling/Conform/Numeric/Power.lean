/-!
Powers of the two bases in which numbers are kept: two, for words and floats, and ten, for decimals.
-/

namespace Conform

/-- Two to the power `n`. -/
abbrev twoTo (n : Nat) : Nat := Nat.pow 2 n

/-- Ten to the power `n`. -/
abbrev tenTo (n : Nat) : Nat := Nat.pow 10 n

theorem tenTo_pos (n : Nat) : 0 < tenTo n := Nat.pow_pos (by decide)

theorem tenTo_add (m n : Nat) : tenTo (m + n) = tenTo m * tenTo n := Nat.pow_add 10 m n

end Conform

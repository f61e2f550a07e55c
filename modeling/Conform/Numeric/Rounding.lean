/-!
Rounding a quotient of natural numbers to a natural number. Every inexact step of the library's
arithmetic, binary or decimal, is one of these divisions.
-/

namespace Conform

/-- Which neighbour a quotient between two integers goes to. -/
inductive Rounding
  | down
  | halfEven
  | halfAway
deriving DecidableEq

namespace Rounding

/-- The quotient `n / d` rounded to an integer; a half goes to the even neighbour or away from zero. -/
def divide (r : Rounding) (n d : Nat) : Nat :=
  match r with
  | .down => n / d
  | .halfEven =>
    if 2 * (n % d) < d then n / d
    else if 2 * (n % d) = d then n / d + n / d % 2
    else n / d + 1
  | .halfAway => if 2 * (n % d) < d then n / d else n / d + 1

/-- A multiple of the divisor needs no rounding. -/
theorem divide_mul_self (r : Rounding) (q : Nat) {d : Nat} (hd : 0 < d) : r.divide (q * d) d = q := by
  cases r <;> simp [divide, Nat.mul_div_cancel _ hd, Nat.mul_mod_left, hd]

theorem divide_one (r : Rounding) (n : Nat) : r.divide n 1 = n := by
  simpa using r.divide_mul_self n Nat.one_pos

/-- A quotient is rounded the same, whatever fraction stands for it. -/
theorem divide_mul_right (r : Rounding) (n d : Nat) {k : Nat} (hk : 0 < k) : r.divide (n * k) (d * k) = r.divide n d := by
  have hquotient : n * k / (d * k) = n / d := Nat.mul_div_mul_right n d hk
  have htwice : 2 * (n * k % (d * k)) = 2 * (n % d) * k := by rw [Nat.mul_mod_mul_right, Nat.mul_assoc]
  cases r <;> simp only [divide, hquotient, htwice, Nat.mul_lt_mul_right hk, Nat.mul_right_cancel_iff hk]

theorem divide_congr (r : Rounding) {n d m e : Nat} (hd : 0 < d) (he : 0 < e) (h : n * e = m * d) : r.divide n d = r.divide m e := by
  rw [← r.divide_mul_right n d he, h, Nat.mul_comm d e, r.divide_mul_right m e hd]

end Rounding

end Conform

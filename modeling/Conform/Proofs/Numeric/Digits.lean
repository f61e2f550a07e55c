import Conform.Numeric.Digits
import Conform.Numeric.Power
import Mathlib.Data.List.TakeDrop
import Mathlib.Data.Nat.Basic
import Mathlib.Tactic.IntervalCases

/-! Numbers and their digits. The digits of a number spell it, whatever zeros stand before them. -/

namespace Conform.Digits

variable {c : Char} {cs ds : List Char} {n width : Nat}

/-! ### Ten characters -/

/-- The digits of ASCII. -/
def all : List Char := ['0', '1', '2', '3', '4', '5', '6', '7', '8', '9']

theorem mem_all (h : c.isDigit = true) : c ∈ all := by
  obtain ⟨hlow, hhigh⟩ := Char.isDigit_iff_toNat.mp h
  have hlow : 48 ≤ c.toNat := hlow
  have hhigh : c.toNat ≤ 57 := hhigh
  rw [← Char.ofNat_toNat c]
  interval_cases c.toNat <;> decide

/-- What holds of each of the ten digits holds of whatever is a digit. -/
theorem forall_isDigit {p : Char → Bool} (hall : all.all p = true) (h : c.isDigit = true) : p c = true :=
  List.all_eq_true.mp hall c (mem_all h)

/-! ### The number that digits spell -/

theorem value_le (h : c.isDigit = true) : value c ≤ 9 := by
  have hle : c.toNat ≤ '9'.toNat := (Char.isDigit_iff_toNat.mp h).2
  exact Nat.sub_le_sub_right hle '0'.toNat

theorem toNat_append (ds es : List Char) : toNat (ds ++ es) = tenTo es.length * toNat ds + toNat es := by
  rw [toNat, List.foldl_append]
  exact Nat.ofDigitChars_eq_ofDigitChars_zero

theorem toNat_cons (c : Char) (ds : List Char) : toNat (c :: ds) = tenTo ds.length * value c + toNat ds := by
  have hone : toNat [c] = value c := by simp [toNat]
  rw [← List.singleton_append, toNat_append, hone]

theorem toNat_lt (h : ∀ c ∈ ds, c.isDigit = true) : toNat ds < tenTo ds.length := by
  induction ds with
  | nil => exact Nat.one_pos
  | cons c ds ih =>
    obtain ⟨hc, hds⟩ := List.forall_mem_cons.mp h
    have hvalue : tenTo ds.length * value c ≤ tenTo ds.length * 9 := Nat.mul_le_mul_left _ (value_le hc)
    have hrest := ih hds
    have hpow : tenTo (c :: ds).length = tenTo ds.length * 10 := Nat.pow_succ ..
    rw [toNat_cons]
    omega

theorem toNat_zeros (k : Nat) : toNat (List.replicate k '0') = 0 := by
  induction k with
  | zero => rfl
  | succ k ih => rw [List.replicate_succ, toNat_cons, ih]; rfl

/-- Digits written behind a number make it no smaller. -/
theorem le_ofDigitChars (m : Nat) (ds : List Char) : m ≤ Nat.ofDigitChars 10 ds m := by
  rw [Nat.ofDigitChars_eq_ofDigitChars_zero]
  exact Nat.le_add_right_of_le (Nat.le_mul_of_pos_left m (tenTo_pos _))

/-! ### The digits of a number -/

theorem isDigit_of_mem_ofNat (h : c ∈ ofNat n) : c.isDigit = true :=
  Nat.isDigit_of_mem_toDigits (by decide) (by decide) h

theorem ofNat_ne_nil : ofNat n ≠ [] := Nat.toDigits_ne_nil

@[simp] theorem toNat_ofNat (n : Nat) : toNat (ofNat n) = n := Nat.ofDigitChars_toDigits (by decide) (by decide)

theorem length_ofNat_le (hwidth : 0 < width) (h : n < tenTo width) : (ofNat n).length ≤ width :=
  (Nat.length_toDigits_le_iff (by decide) hwidth).mpr h

theorem isDigit_of_mem_padded (h : c ∈ padded width n) : c.isDigit = true := by
  obtain hzero | hdigit := List.mem_append.mp h
  · obtain rfl := List.eq_of_mem_replicate hzero
    rfl
  · exact isDigit_of_mem_ofNat hdigit

@[simp] theorem toNat_padded (width n : Nat) : toNat (padded width n) = n := by
  rw [padded, toNat_append, toNat_zeros, toNat_ofNat, Nat.mul_zero, Nat.zero_add]

theorem padded_ne_nil : padded width n ≠ [] := by
  simp [padded, ofNat_ne_nil]

/-- The width is kept to unless the number is too long. -/
theorem length_padded (hwidth : 0 < width) (h : n < tenTo width) : (padded width n).length = width := by
  have hle := length_ofNat_le hwidth h
  simp only [padded, List.length_append, List.length_replicate]
  omega

theorem le_length_padded : width ≤ (padded width n).length := by
  simp only [padded, List.length_append, List.length_replicate]
  omega

/-! ### Digits at the front -/

theorem dropWhile_isDigit {rest : List Char} (hrest : ∀ c ∈ rest.head?, c.isDigit = false) :
    rest.dropWhile Char.isDigit = rest := by
  cases rest with
  | nil => rfl
  | cons c rest => rw [List.dropWhile_cons_of_neg (by simp [hrest c rfl])]

/-- Digits reach up to what is no digit. -/
theorem span_append {rest : List Char} (h : ∀ c ∈ ds, c.isDigit = true) (hrest : ∀ c ∈ rest.head?, c.isDigit = false) :
    span (ds ++ rest) = (ds, rest) := by
  rw [span, List.span_eq_takeWhile_dropWhile, List.takeWhile_append_of_pos h, List.dropWhile_append_of_pos h]
  rw [dropWhile_isDigit hrest]
  cases rest with
  | nil => simp
  | cons c rest => simp [hrest c rfl]

/-- A text is the digits at its front and what is behind them. -/
theorem span_spec (cs : List Char) : (span cs).1 ++ (span cs).2 = cs ∧ ∀ c ∈ (span cs).1, c.isDigit = true := by
  rw [span, List.span_eq_takeWhile_dropWhile]
  exact ⟨List.takeWhile_append_dropWhile, List.all_eq_true.mp List.all_takeWhile⟩

end Conform.Digits

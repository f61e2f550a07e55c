import Conform.Numeric.Decimal.Numeral
import Conform.Proofs.Numeric.Digits
import Mathlib.Algebra.Order.Field.Rat
import Mathlib.Tactic.FieldSimp
import Mathlib.Tactic.Linarith
import Mathlib.Tactic.Positivity
import Mathlib.Tactic.Ring

/-! Decimals as rational numbers. Reading a numeral is exact as long as its digits fit; the first digit that does not
    is rounded to the nearest, and only where there is no room for another place. -/

namespace Conform.Decimal

variable {negative any : Bool} {m k s : Nat} {d : Decimal} {q f : ℚ} {c : Char} {ds rest : List Char}

theorem cast_tenTo (k : Nat) : ((tenTo k : Nat) : ℚ) = 10 ^ k := by simp

/-! ### The number that a decimal denotes -/

/-- The sign of a number. -/
def unit (negative : Bool) : ℚ := if negative then -1 else 1

/-- The rational number that a decimal denotes. -/
def value (d : Decimal) : ℚ := unit d.negative * (d.mantissa / 10 ^ d.scale)

theorem abs_unit_mul (negative : Bool) (q : ℚ) : |unit negative * q| = |q| := by
  cases negative <;> simp [unit]

/-- Numbers other than zero have one sign and one size. -/
theorem eq_of_unit_mul {a b : Bool} {p q : ℚ} (hp : 0 < p) (hq : 0 < q) (h : unit a * p = unit b * q) : a = b ∧ p = q := by
  have hsize : p = q := by
    rw [← abs_of_pos hp, ← abs_of_pos hq, ← abs_unit_mul a, h, abs_unit_mul]
  subst hsize
  have hsign : unit a = unit b := mul_right_cancel₀ hp.ne' h
  cases a <;> cases b <;> first | exact ⟨rfl, rfl⟩ | norm_num [unit] at hsign

theorem mantissa_eq_zero (h : d.isZero = true) : d.mantissa = 0 := by simpa [isZero] using h

theorem mantissa_pos (h : d.isZero = false) : 0 < d.mantissa := Nat.pos_of_ne_zero (by simpa [isZero] using h)

theorem isZero_iff : d.isZero = true ↔ d.value = 0 := by
  cases hd : d.negative <;> simp [isZero, value, hd, unit]

theorem isZero_congr {a b : Decimal} (h : a.value = b.value) : a.isZero = b.isZero := by
  rw [Bool.eq_iff_iff, isZero_iff, isZero_iff, h]

theorem eq_of_parts {a b : Decimal} (hnegative : a.negative = b.negative) (hmantissa : a.mantissa = b.mantissa)
    (hscale : a.scale = b.scale) : a = b := by
  cases a
  cases b
  congr

theorem value_eq (d : Decimal) : d.value = d.signed / 10 ^ d.scale := by
  cases h : d.negative <;> simp [value, unit, signed, h, neg_div]

theorem value_of_make? (h : make? negative m s = some d) :
    d.value = unit negative * (m / 10 ^ s) ∧ d.mantissa = m ∧ d.scale = s := by
  unfold make? at h
  split at h
  · cases h
    exact ⟨rfl, rfl, rfl⟩
  · cases h

/-- The sign of a zero makes no difference. -/
theorem value_of_unsignedZero? (h : unsignedZero? negative m s = some d) :
    d.value = unit negative * (m / 10 ^ s) ∧ d.mantissa = m ∧ d.scale = s := by
  obtain ⟨hvalue, hmantissa, hscale⟩ := value_of_make? h
  refine ⟨?_, hmantissa, hscale⟩
  rcases Nat.eq_zero_or_pos m with rfl | hpos
  · simp [hvalue]
  · have hne : (m != 0) = true := by simpa using hpos.ne'
    rw [hvalue, hne, Bool.and_true]

theorem unsignedZero?_isSome (hm : m < twoTo 96) (hs : s ≤ 28) : ∃ d, unsignedZero? negative m s = some d := by
  rw [unsignedZero?, make?, dif_pos ⟨hm, hs⟩]
  exact ⟨_, rfl⟩

theorem unit_mul_natAbs (i : Int) : unit (decide (i < 0)) * (i.natAbs : ℚ) = i := by
  rcases lt_or_ge i 0 with hneg | hpos
  · simp [unit, hneg, abs_of_neg (show (i : ℚ) < 0 by exact_mod_cast hneg)]
  · simp [unit, not_lt.mpr hpos, abs_of_nonneg (show (0 : ℚ) ≤ i by exact_mod_cast hpos)]

theorem value_ofInt {i : Int} (h : i.natAbs < twoTo 96) : (ofInt i).value = i := by
  rw [ofInt, dif_pos h, value, pow_zero, div_one]
  exact unit_mul_natAbs i

/-- The integer part of a number without a fraction is the number. -/
theorem value_of_isIntegral (h : d.isIntegral = true) : d.value = d.truncated := by
  have hdvd : d.mantissa = tenTo d.scale * (d.mantissa / tenTo d.scale) :=
    (Nat.mul_div_cancel' (Nat.dvd_of_mod_eq_zero (by simpa [isIntegral] using h))).symm
  have hwhole : (d.mantissa : ℚ) / 10 ^ d.scale = (d.mantissa / tenTo d.scale : Nat) := by
    rw [div_eq_iff (by positivity), ← cast_tenTo, mul_comm]
    exact_mod_cast hdvd
  rw [value, hwhole]
  cases hsign : d.negative with
  | false => simp only [unit, truncated, hsign, Bool.false_eq_true, if_false, one_mul, Int.cast_natCast]
  | true => simp only [unit, truncated, hsign, if_true, neg_one_mul, Int.cast_neg, Int.cast_natCast]

/-- What is dropped is a power of ten. -/
theorem dropZeros_spec (fuel n : Nat) :
    n = (Digits.dropZeros fuel n).1 * tenTo (Digits.dropZeros fuel n).2 ∧ (Digits.dropZeros fuel n).2 ≤ fuel := by
  induction fuel generalizing n with
  | zero => exact ⟨by simp [Digits.dropZeros], le_rfl⟩
  | succ fuel ih =>
    unfold Digits.dropZeros
    split
    next hzero =>
      obtain ⟨hsplit, hle⟩ := ih (n / 10)
      refine ⟨?_, Nat.succ_le_succ hle⟩
      have hpow : tenTo ((Digits.dropZeros fuel (n / 10)).2 + 1) = tenTo (Digits.dropZeros fuel (n / 10)).2 * 10 := Nat.pow_succ ..
      dsimp only
      rw [hpow, ← Nat.mul_assoc, ← hsplit]
      omega
    · exact ⟨by simp, Nat.zero_le _⟩

/-- A number other than zero is normalized to what is left of its digits once the zeros are dropped. -/
theorem parts_of_normalized (h : d.isZero = false) : d.normalized.negative = d.negative ∧
    d.normalized.mantissa = (Digits.dropZeros d.scale d.mantissa).1 ∧
      d.normalized.scale = d.scale - (Digits.dropZeros d.scale d.mantissa).2 := by
  obtain ⟨hsplit, -⟩ := dropZeros_spec d.scale d.mantissa
  rw [normalized, if_neg (by rw [h]; exact Bool.false_ne_true)]
  dsimp only
  generalize Digits.dropZeros d.scale d.mantissa = dropped at hsplit
  have hpos := tenTo_pos dropped.2
  have hquotient : d.mantissa / tenTo dropped.2 = dropped.1 := by rw [hsplit, Nat.mul_div_cancel _ hpos]
  have hfit : dropped.1 < twoTo 96 := hquotient ▸ (Nat.div_le_self ..).trans_lt d.mantissa_lt
  have hmake : make? d.negative dropped.1 (d.scale - dropped.2) = some _ :=
    dif_pos ⟨hfit, (Nat.sub_le ..).trans d.scale_le⟩
  rw [hquotient, hmake]
  exact ⟨rfl, rfl, rfl⟩

/-- Trailing zeros behind the point make no difference. -/
theorem value_normalized (d : Decimal) : d.normalized.value = d.value := by
  cases hzero : d.isZero with
  | true =>
    rw [normalized, hzero, if_pos rfl]
    simp [value, zero, mantissa_eq_zero hzero]
  | false =>
    obtain ⟨hsplit, hle⟩ := dropZeros_spec d.scale d.mantissa
    obtain ⟨hnegative, hmantissa, hscale⟩ := parts_of_normalized hzero
    generalize Digits.dropZeros d.scale d.mantissa = dropped at hsplit hle hmantissa hscale
    obtain ⟨k, hk⟩ := Nat.exists_eq_add_of_le hle
    rw [hk, Nat.add_sub_cancel_left] at hscale
    rw [value, value, hnegative, hmantissa, hscale, hsplit, hk, Nat.cast_mul, cast_tenTo, pow_add]
    field_simp

/-- Zeros are dropped as long as there are any. -/
theorem dropZeros_done (fuel : Nat) {n : Nat} (hn : n ≠ 0) :
    (Digits.dropZeros fuel n).2 = fuel ∨ (Digits.dropZeros fuel n).1 % 10 ≠ 0 := by
  induction fuel generalizing n with
  | zero => exact .inl rfl
  | succ fuel ih =>
    unfold Digits.dropZeros
    split
    next hzero =>
      have hrest : n / 10 ≠ 0 := by omega
      exact (ih hrest).imp_left fun h => congrArg (· + 1) h
    next hlast => exact .inr fun h => hlast ⟨h, hn⟩

/-- Without trailing zeros there are no more places than another spelling of the number has. -/
theorem le_of_last {n t : Nat} (hlast : s = 0 ∨ m % 10 ≠ 0) (h : (m : ℚ) / 10 ^ s = n / 10 ^ t) : s ≤ t := by
  by_contra hlt
  obtain ⟨k, hk⟩ := Nat.exists_eq_add_of_lt (Nat.lt_of_not_le hlt)
  have hdigits : (m : ℚ) = (n * 10 ^ k * 10 : Nat) := by
    rw [hk, div_eq_div_iff (by positivity) (by positivity), Nat.add_assoc, pow_add, pow_succ] at h
    have hcancel : (m : ℚ) * 10 ^ t = n * 10 ^ k * 10 * 10 ^ t := by linarith
    push_cast
    exact mul_right_cancel₀ (by positivity) hcancel
  have hdigits : m = n * 10 ^ k * 10 := by exact_mod_cast hdigits
  omega

/-- Nothing is left to drop from a normalized number. -/
theorem last_of_normalized (d : Decimal) : d.normalized.scale = 0 ∨ d.normalized.mantissa % 10 ≠ 0 := by
  cases hd : d.isZero with
  | true =>
    rw [normalized, hd, if_pos rfl]
    exact .inl rfl
  | false =>
    obtain ⟨-, hmantissa, hscale⟩ := parts_of_normalized hd
    rw [hmantissa, hscale]
    exact (dropZeros_done d.scale (mantissa_pos hd).ne').imp_left fun hall => by rw [hall, Nat.sub_self]

/-- Numbers are normalized to the same parts if they denote one number. -/
theorem normalized_eq_of_value {a b : Decimal} (h : a.value = b.value) : a.normalized = b.normalized := by
  have hzero := isZero_congr h
  cases ha : a.isZero with
  | true => rw [normalized, normalized, ← hzero, ha, if_pos rfl, if_pos rfl]
  | false =>
    have hpos (d : Decimal) (hd : d.isZero = false) : 0 < (d.normalized.mantissa : ℚ) := by
      have hne := (mantissa_pos hd).ne'
      obtain ⟨hsplit, -⟩ := dropZeros_spec d.scale d.mantissa
      rw [(parts_of_normalized hd).2.1]
      exact Nat.cast_pos.mpr (Nat.pos_of_ne_zero fun hrest => hne (by rw [hsplit, hrest, Nat.zero_mul]))
    have hapos := hpos a ha
    have hbpos := hpos b (hzero ▸ ha)
    rw [← value_normalized a, ← value_normalized b, value, value] at h
    obtain ⟨hnegative, hsize⟩ := eq_of_unit_mul (by positivity) (by positivity) h
    have hscale := le_antisymm (le_of_last (last_of_normalized a) hsize) (le_of_last (last_of_normalized b) hsize.symm)
    have hmantissa : (a.normalized.mantissa : ℚ) = b.normalized.mantissa := by
      rw [hscale] at hsize
      exact (div_left_inj' (by positivity)).mp hsize
    exact eq_of_parts hnegative (by exact_mod_cast hmantissa) hscale

/-! ### Exact arithmetic -/

theorem value_neg (d : Decimal) : d.neg.value = -d.value := by
  cases h : d.negative <;> simp [neg, value, unit, h]

/-- Parts in range need no rounding. -/
theorem fit?_of_lt (hm : m < twoTo 96) (hs : s ≤ 28) : fit? negative m s = unsignedZero? negative m s := by
  obtain ⟨d, hd⟩ : ∃ d, unsignedZero? negative m s = some d := unsignedZero?_isSome hm hs
  have hnone : s - 28 = 0 := Nat.sub_eq_zero_of_le hs
  have hsame : unsignedZero? negative (Rounding.halfEven.divide m (tenTo 0)) (s - 0) = some d := by
    rw [← hd]
    exact congrArg (fun n => unsignedZero? negative n s) (Rounding.divide_one _ _)
  rw [fit?, hnone, fitFrom, if_neg (Nat.not_lt_zero s), hsame, hd]

theorem value_of_isZero (h : d.isZero = true) : d.value = 0 := isZero_iff.mp h

theorem mul_value_of_isZero {a b : Decimal} (h : (a.isZero || b.isZero) = true) : a.value * b.value = 0 := by
  obtain ha | hb := Bool.or_eq_true_iff.mp h
  · rw [value_of_isZero ha, zero_mul]
  · rw [value_of_isZero hb, mul_zero]

theorem mul_value (a b : Decimal) : a.value * b.value =
    unit (a.negative != b.negative) * ((a.mantissa * b.mantissa : Nat) / 10 ^ (a.scale + b.scale)) := by
  have hunit : unit (a.negative != b.negative) = unit a.negative * unit b.negative := by
    cases a.negative <;> cases b.negative <;> norm_num [unit]
  rw [hunit, value, value, Nat.cast_mul, pow_add]
  field_simp

/-- A product is exact if 96 bits hold its digits and 28 places are enough. -/
theorem mul?_of_lt {a b : Decimal} (hm : a.mantissa * b.mantissa < twoTo 96) (hs : a.scale + b.scale ≤ 28) :
    ∃ d, a.mul? b = some d ∧ d.value = a.value * b.value := by
  rw [mul?]
  split
  next hzero => exact ⟨zero, rfl, by rw [mul_value_of_isZero hzero]; simp [value, zero]⟩
  · obtain ⟨d, hd⟩ : ∃ d, unsignedZero? (a.negative != b.negative) (a.mantissa * b.mantissa) (a.scale + b.scale) = some d :=
      unsignedZero?_isSome hm hs
    obtain ⟨hvalue, -⟩ := value_of_unsignedZero? hd
    exact ⟨d, by rw [fit?_of_lt hm hs, hd], hvalue.trans (mul_value a b).symm⟩

/-- A number that is an integer has that many whole units, with its sign. -/
theorem parts_of_value {z : Int} (h : d.value = z) :
    d.mantissa = z.natAbs * tenTo d.scale ∧ (if d.negative then -(z.natAbs : Int) else z.natAbs) = z := by
  rw [value_eq, div_eq_iff (by positivity), ← cast_tenTo] at h
  have hsigned : d.signed = z * tenTo d.scale := by exact_mod_cast h
  have hpos := tenTo_pos d.scale
  have hmantissa : d.mantissa = z.natAbs * tenTo d.scale := by
    rw [← Int.natAbs_natCast d.mantissa, ← Int.natAbs_natCast (tenTo d.scale), ← Int.natAbs_mul, ← hsigned]
    cases hnegative : d.negative <;> simp [signed, hnegative]
  have hcancel {x : Int} (hx : x * tenTo d.scale = z * tenTo d.scale) : x = z :=
    Int.eq_of_mul_eq_mul_right (by exact_mod_cast hpos.ne') hx
  refine ⟨hmantissa, hcancel ?_⟩
  rw [← hsigned, signed, hmantissa]
  cases d.negative <;> simp

/-- The integer nearest to a number that is one. -/
theorem nearest_of_value {z : Int} (h : d.value = z) : d.nearest = z := by
  obtain ⟨hmantissa, hsign⟩ := parts_of_value h
  have hpos := tenTo_pos d.scale
  rw [nearest, hmantissa, Rounding.divide_mul_self _ _ hpos]
  exact hsign

/-- The integer part of a number that is an integer. -/
theorem truncated_of_value {z : Int} (h : d.value = z) : d.truncated = z := by
  obtain ⟨hmantissa, hsign⟩ := parts_of_value h
  have hpos := tenTo_pos d.scale
  rw [truncated, hmantissa, Nat.mul_div_cancel _ hpos]
  exact hsign

/-! ### Order -/

section Order

variable {a b : Decimal}

/-- At their common scale two numbers are integers. -/
theorem cast_aligned (a b : Decimal) : ((aligned a b).1 : ℚ) = a.value * 10 ^ max a.scale b.scale ∧
    ((aligned a b).2 : ℚ) = b.value * 10 ^ max a.scale b.scale := by
  have hscaled (d : Decimal) (k : Nat) : ((d.signed * tenTo k : Int) : ℚ) = d.value * 10 ^ (d.scale + k) := by
    rw [value_eq, Int.cast_mul, Int.cast_natCast, cast_tenTo, pow_add]
    field_simp
  have hleft : a.scale + (b.scale - a.scale) = max a.scale b.scale := by omega
  have hright : b.scale + (a.scale - b.scale) = max a.scale b.scale := by omega
  exact ⟨hleft ▸ hscaled a (b.scale - a.scale), hright ▸ hscaled b (a.scale - b.scale)⟩

theorem compare_eq_lt : a.compare b = .lt ↔ a.value < b.value := by
  obtain ⟨hx, hy⟩ := cast_aligned a b
  have hpos : (0 : ℚ) < 10 ^ max a.scale b.scale := by positivity
  rw [Decimal.compare, compare_lt_iff_lt, ← Int.cast_lt (R := ℚ), hx, hy, mul_lt_mul_iff_left₀ hpos]

theorem compare_eq_eq : a.compare b = .eq ↔ a.value = b.value := by
  obtain ⟨hx, hy⟩ := cast_aligned a b
  have hpos : (10 : ℚ) ^ max a.scale b.scale ≠ 0 := by positivity
  rw [Decimal.compare, compare_eq_iff_eq, ← Int.cast_inj (α := ℚ), hx, hy, mul_left_inj' hpos]

theorem compare_eq_gt : a.compare b = .gt ↔ b.value < a.value := by
  obtain ⟨hx, hy⟩ := cast_aligned a b
  have hpos : (0 : ℚ) < 10 ^ max a.scale b.scale := by positivity
  rw [Decimal.compare, compare_gt_iff_gt, ← Int.cast_lt (R := ℚ), hx, hy, mul_lt_mul_iff_left₀ hpos]

/-- Decimals are the same if they denote one number. -/
theorem same_iff : a.same b = true ↔ a.value = b.value := by
  rw [same, beq_iff_eq, compare_eq_eq]

end Order

/-! ### Reading digits that fit -/

theorem read_nil (acc : Accumulated) :
    acc.read [] = if acc.anyDigit then unsignedZero? acc.negative acc.mantissa acc.scale else none := rfl

theorem read_cons (acc : Accumulated) (c : Char) (rest : List Char) : acc.read (c :: rest) =
    if acc.afterPoint && acc.scale == 28 then acc.rounded? c rest
    else if c.isDigit then
      if 10 * acc.mantissa + Digits.value c < twoTo 96 then
        Accumulated.read ⟨acc.negative, 10 * acc.mantissa + Digits.value c, if acc.afterPoint then acc.scale + 1 else 0,
          acc.afterPoint, true⟩ rest
      else if acc.afterPoint then acc.rounded? c rest
      else none
    else if c = '.' && !acc.afterPoint then { acc with afterPoint := true : Accumulated }.read rest
    else if c = '_' && acc.anyDigit then acc.read rest
    else none := rfl

/-- A digit that fits is taken behind those before it. -/
theorem read_digit (point : Bool) (hc : c.isDigit = true) (hroom : point = true → s < 28)
    (hfit : 10 * m + Digits.value c < twoTo 96) :
    Accumulated.read ⟨negative, m, s, point, any⟩ (c :: rest) =
      Accumulated.read ⟨negative, 10 * m + Digits.value c, if point then s + 1 else 0, point, true⟩ rest := by
  have hcond : (point && s == 28) = false := by
    cases point with
    | false => rfl
    | true => simpa using (hroom rfl).ne
  rw [read_cons, hcond, hc, if_pos rfl]
  simp only [Bool.false_eq_true, if_false, if_pos hfit]

/-- Digits before the point are taken as they are, if they fit. -/
theorem read_whole (h : ∀ c ∈ ds, c.isDigit = true) (hfit : Nat.ofDigitChars 10 ds m < twoTo 96) :
    Accumulated.read ⟨negative, m, 0, false, any⟩ (ds ++ rest) =
      Accumulated.read ⟨negative, Nat.ofDigitChars 10 ds m, 0, false, any || !ds.isEmpty⟩ rest := by
  induction ds generalizing m any with
  | nil => simp
  | cons c ds ih =>
    obtain ⟨hc, hds⟩ := List.forall_mem_cons.mp h
    have hnext : 10 * m + Digits.value c < twoTo 96 := (Digits.le_ofDigitChars _ ds).trans_lt hfit
    rw [List.cons_append, read_digit false hc nofun hnext]
    rw [List.isEmpty_cons, Bool.not_false, Bool.or_true]
    exact ih hds hfit

/-- Digits behind the point are taken as they are, if they fit and have room. -/
theorem read_places (h : ∀ c ∈ ds, c.isDigit = true) (hfit : Nat.ofDigitChars 10 ds m < twoTo 96)
    (hroom : s + ds.length ≤ 28) :
    Accumulated.read ⟨negative, m, s, true, any⟩ ds =
      if any || !ds.isEmpty then unsignedZero? negative (Nat.ofDigitChars 10 ds m) (s + ds.length) else none := by
  induction ds generalizing m s any with
  | nil => simp [read_nil]
  | cons c ds ih =>
    obtain ⟨hc, hds⟩ := List.forall_mem_cons.mp h
    have hnext : 10 * m + Digits.value c < twoTo 96 := (Digits.le_ofDigitChars _ ds).trans_lt hfit
    have hlength : s + 1 + ds.length = s + (c :: ds).length := by
      rw [List.length_cons]
      omega
    rw [read_digit true hc (fun _ => by omega) hnext, if_pos rfl]
    refine (ih hds hfit (by omega)).trans ?_
    rw [hlength, List.isEmpty_cons, Bool.not_false, Bool.or_true]
    rfl

theorem read_point : Accumulated.read ⟨negative, m, s, false, any⟩ ('.' :: rest) =
    Accumulated.read ⟨negative, m, s, true, any⟩ rest := by
  rw [read_cons]
  rfl

/-- Too many digits before the point are none. -/
theorem read_whole_eq_none (h : ∀ c ∈ ds, c.isDigit = true) (hlong : twoTo 96 ≤ Nat.ofDigitChars 10 ds m)
    (hm : m < twoTo 96) : Accumulated.read ⟨negative, m, s, false, any⟩ (ds ++ rest) = none := by
  induction ds generalizing m s any with
  | nil => exact absurd hlong hm.not_ge
  | cons c ds ih =>
    obtain ⟨hc, hds⟩ := List.forall_mem_cons.mp h
    by_cases hnext : 10 * m + Digits.value c < twoTo 96
    · rw [List.cons_append, read_digit false hc nofun hnext]
      exact ih hds hlong hnext
    · rw [List.cons_append, read_cons]
      simp [hc, if_neg hnext]

/-- No numeral without an exponent has anything but digits, underscores and a point. -/
theorem read_eq_none {cs : List Char} (hc : c ∈ cs) (hplace : isPlace c = false) (hpoint : c ≠ '.') (acc : Accumulated) :
    acc.read cs = none := by
  simp only [isPlace, Bool.or_eq_false_iff, beq_eq_false_iff_ne] at hplace
  have hrounded (acc : Accumulated) (x : Char) {rest : List Char} (hmem : c ∈ x :: rest) : acc.rounded? x rest = none := by
    have hall : (x :: rest).all isPlace = false := by
      rw [List.all_eq_false]
      exact ⟨c, hmem, by simp [isPlace, hplace]⟩
    simp [Accumulated.rounded?, hall]
  induction cs generalizing acc with
  | nil => cases hc
  | cons x rest ih =>
    rw [read_cons]
    obtain rfl | hrest := List.mem_cons.mp hc
    · simp [hplace.1, hplace.2, hpoint, hrounded]
    · simp [hrounded _ _ hc, ih hrest]

/-! ### Rounding -/

/-- A number is read as a decimal that is nearest to it, and exactly unless there is no room for another place. -/
structure Rounds (d : Decimal) (q : ℚ) : Prop where
  near : |d.value - q| ≤ 1 / 2 / 10 ^ d.scale
  exact_or_full : d.value = q ∨ d.scale = 28 ∨ twoTo 96 ≤ 10 * d.mantissa

theorem Rounds.of_eq (h : d.value = q) : Rounds d q := ⟨by rw [h, sub_self, abs_zero]; positivity, .inl h⟩

/-- Numbers of one sign are as far apart as their mantissas are, in units of the last place. -/
theorem near_of_mantissa {x e : ℚ} (hvalue : d.value = unit negative * (k / 10 ^ s)) (hscale : d.scale = s)
    (hnear : |k - x| ≤ e) : |d.value - unit negative * (x / 10 ^ s)| ≤ e / 10 ^ d.scale := by
  have hpow : (0 : ℚ) < 10 ^ s := by positivity
  rw [hvalue, hscale, ← mul_sub, abs_unit_mul, ← sub_div, abs_div, abs_of_pos hpow]
  exact div_le_div_of_nonneg_right hnear hpow.le

/-- A mantissa that is within a half of the number rounds it, if no digit more has room. -/
theorem rounds_of_unsignedZero? {x : ℚ} (h : unsignedZero? negative k s = some d) (hnear : |k - x| ≤ 1 / 2)
    (hfull : s = 28 ∨ twoTo 96 ≤ 10 * k) : Rounds d (unit negative * (x / 10 ^ s)) := by
  obtain ⟨hvalue, hmantissa, hscale⟩ := value_of_unsignedZero? h
  exact ⟨near_of_mantissa hvalue hscale hnear, .inr (by rwa [hscale, hmantissa])⟩

/-- Where the next digit does not fit, the number is rounded to the digits that do. -/
theorem rounds_of_rounded? (hc : c.isDigit = true) (hm : m < twoTo 96)
    (hfull : s = 28 ∨ twoTo 96 ≤ 10 * m + Digits.value c) (hf : 0 ≤ f ∧ f < 1)
    (h : Accumulated.rounded? ⟨negative, m, s, true, any⟩ c rest = some d) :
    Rounds d (unit negative * ((m + (Digits.value c + f) / 10) / 10 ^ s)) := by
  have hpower : twoTo 96 = 79228162514264337593543950336 := rfl
  have hle := Digits.value_le hc
  have hdigit : (Digits.value c : ℚ) ≤ 9 := by exact_mod_cast hle
  have hmark : ¬(decide (c = '_')) := by
    rw [decide_eq_true_eq]
    rintro rfl
    cases hc
  simp only [Accumulated.rounded?] at h
  split at h
  · cases h
  split at h
  next hcond =>
    have hlow : Digits.value c ≤ 4 := by simpa [hmark, Nat.lt_succ_iff] using hcond
    have hlow' : (Digits.value c : ℚ) ≤ 4 := by exact_mod_cast hlow
    refine rounds_of_unsignedZero? h ?_ (hfull.imp_right fun hlong => by omega)
    rw [abs_le]
    constructor <;> linarith [hf.1, hf.2, (Digits.value c).cast_nonneg (α := ℚ)]
  next hcond =>
    have hhigh : 5 ≤ Digits.value c := by simpa [hmark] using hcond
    have hhigh' : (5 : ℚ) ≤ Digits.value c := by exact_mod_cast hhigh
    split at h
    · refine rounds_of_unsignedZero? h ?_ (hfull.imp_right fun hlong => by omega)
      push_cast
      rw [abs_le]
      constructor <;> linarith [hf.1, hf.2]
    next hcarry =>
      -- All the digits that fit are taken, and the carry leaves one place less.
      have hlast : m = 79228162514264337593543950335 := by omega
      split at h
      · cases h
      next hplace =>
        obtain ⟨t, rfl⟩ : ∃ t, s = t + 1 := ⟨s - 1, by omega⟩
        rw [pow_succ', ← div_div]
        subst hlast
        refine rounds_of_unsignedZero? h ?_ (.inr (by rw [hpower]; decide))
        norm_num
        rw [abs_le]
        constructor <;> linarith [hf.1, hf.2]

/-- The fraction that digits behind a point spell. -/
def fraction (ds : List Char) : ℚ := Digits.toNat ds / 10 ^ ds.length

theorem fraction_nil : fraction [] = 0 := by simp [fraction, Digits.toNat]

theorem fraction_cons (c : Char) (ds : List Char) : fraction (c :: ds) = (Digits.value c + fraction ds) / 10 := by
  rw [fraction, fraction, Digits.toNat_cons, List.length_cons, Nat.cast_add, Nat.cast_mul, cast_tenTo, pow_succ]
  field_simp

theorem fraction_mem (h : ∀ c ∈ ds, c.isDigit = true) : 0 ≤ fraction ds ∧ fraction ds < 1 := by
  have hlt : (Digits.toNat ds : ℚ) < 10 ^ ds.length := by exact_mod_cast Digits.toNat_lt h
  exact ⟨by unfold fraction; positivity, (div_lt_one (by positivity)).mpr hlt⟩

/-- What is read of the digits behind the point rounds them. -/
theorem rounds_of_read_places (h : ∀ c ∈ ds, c.isDigit = true) (hm : m < twoTo 96) (hs : s ≤ 28)
    (hread : Accumulated.read ⟨negative, m, s, true, any⟩ ds = some d) :
    Rounds d (unit negative * ((m + fraction ds) / 10 ^ s)) := by
  induction ds generalizing m s any with
  | nil =>
    rw [read_nil] at hread
    split at hread
    · rw [fraction_nil, add_zero]
      exact .of_eq (value_of_unsignedZero? hread).1
    · cases hread
  | cons c ds ih =>
    obtain ⟨hc, hds⟩ := List.forall_mem_cons.mp h
    rw [fraction_cons]
    by_cases hroom : s < 28 ∧ 10 * m + Digits.value c < twoTo 96
    · rw [read_digit true hc (fun _ => hroom.1) hroom.2, if_pos rfl] at hread
      have hq : ((m : ℚ) + (Digits.value c + fraction ds) / 10) / 10 ^ s =
          ((10 * m + Digits.value c : Nat) + fraction ds) / 10 ^ (s + 1) := by
        push_cast
        rw [pow_succ]
        field_simp
        ring
      rw [hq]
      exact ih hds hroom.2 hroom.1 hread
    · have hrounded : Accumulated.rounded? ⟨negative, m, s, true, any⟩ c ds = some d := by
        rw [read_cons] at hread
        split at hread
        · exact hread
        next hplace =>
          have hlong : ¬10 * m + Digits.value c < twoTo 96 := fun hlt => hroom ⟨by simp at hplace; omega, hlt⟩
          simpa [hc, if_neg hlong] using hread
      have hfull : s = 28 ∨ twoTo 96 ≤ 10 * m + Digits.value c := by omega
      exact rounds_of_rounded? hc hm hfull (fraction_mem hds) hrounded

/-! ### Moving the point -/

/-- A quotient is its whole part and what the remainder adds. -/
theorem cast_div_eq (n : Nat) (hk : 0 < k) : (n : ℚ) / k = (n / k : Nat) + (n % k : Nat) / k := by
  have hpos : (0 : ℚ) < k := by exact_mod_cast hk
  rw [div_eq_iff hpos.ne', add_mul, div_mul_cancel₀ _ hpos.ne', mul_comm]
  exact_mod_cast (Nat.div_add_mod n k).symm

theorem cast_mod_div_lt (n : Nat) (hk : 0 < k) : ((n % k : Nat) : ℚ) / k < 1 :=
  (div_lt_one (by exact_mod_cast hk)).mpr (by exact_mod_cast Nat.mod_lt n hk)

theorem abs_divide_sub_le (n : Nat) (hk : 0 < k) : |(Rounding.halfAway.divide n k : ℚ) - n / k| ≤ 1 / 2 := by
  have hpos : (0 : ℚ) < k := by exact_mod_cast hk
  have hnonneg : (0 : ℚ) ≤ (n % k : Nat) / k := by positivity
  rw [cast_div_eq n hk, Rounding.divide, abs_le]
  split
  next hlow =>
    have hle : ((n % k : Nat) : ℚ) / k ≤ 1 / 2 := by
      rw [div_le_div_iff₀ hpos two_pos, one_mul, mul_comm]
      exact_mod_cast hlow.le
    constructor <;> linarith
  next hhigh =>
    have hge : 1 / 2 ≤ ((n % k : Nat) : ℚ) / k := by
      rw [div_le_div_iff₀ two_pos hpos, one_mul, mul_comm]
      exact_mod_cast Nat.le_of_not_lt hhigh
    have hlt := cast_mod_div_lt n hk
    push_cast
    constructor <;> linarith

variable {b : Decimal}

/-- The point may be moved to the left as long as there are places. -/
theorem value_of_shiftedRight? (h : b.shiftedRight? k = some d) (hroom : b.scale + k ≤ 28) :
    d.value = b.value / 10 ^ k ∧ d.scale = b.scale + k := by
  obtain ⟨hvalue, -, hscale⟩ := value_of_make? h
  rw [Nat.sub_eq_zero_of_le hroom, min_eq_left hroom, show tenTo 0 = 1 from rfl, Rounding.divide_one] at hvalue
  refine ⟨?_, hscale.trans (min_eq_left hroom)⟩
  rw [hvalue, value, pow_add]
  field_simp

/-- What is moved past the last place is rounded there. -/
theorem Rounds.shiftedRight (hb : b.Rounds q) (h : b.shiftedRight? k = some d) :
    |d.value - q / 10 ^ k| < 1 / 10 ^ d.scale := by
  have hpow : (0 : ℚ) < 10 ^ d.scale := by positivity
  have hmoved : |b.value / 10 ^ k - q / 10 ^ k| ≤ 1 / 2 / 10 ^ (b.scale + k) := by
    rw [← sub_div, abs_div, abs_of_pos (show (0 : ℚ) < 10 ^ k by positivity), pow_add, ← div_div]
    exact div_le_div_of_nonneg_right hb.near (by positivity)
  by_cases hroom : b.scale + k ≤ 28
  · obtain ⟨hvalue, hscale⟩ := value_of_shiftedRight? h hroom
    rw [hvalue, hscale]
    refine hmoved.trans_lt (div_lt_div_of_pos_right ?_ (by positivity))
    norm_num
  · obtain ⟨j, hj⟩ : ∃ j, b.scale + k = 28 + (j + 1) := ⟨b.scale + k - 29, by omega⟩
    obtain ⟨hvalue, -, hscale⟩ := value_of_make? h
    rw [hj, Nat.add_sub_cancel_left, min_eq_right (Nat.le_add_right _ _)] at hvalue
    have hlast : d.scale = 28 := hscale.trans (min_eq_right (by omega))
    have hrounded := near_of_mantissa hvalue hlast (abs_divide_sub_le b.mantissa (tenTo_pos (j + 1)))
    have hshifted : unit b.negative * ((b.mantissa : ℚ) / (tenTo (j + 1) : Nat) / 10 ^ 28) = b.value / 10 ^ k := by
      rw [cast_tenTo, div_div, ← pow_add, add_comm (j + 1), ← hj, value, pow_add]
      field_simp
    rw [hshifted] at hrounded
    have hfiner : (1 : ℚ) / 2 / 10 ^ (b.scale + k) ≤ 1 / 20 / 10 ^ d.scale := by
      rw [hj, hlast, pow_add, pow_succ' 10 j, div_div, div_div]
      refine one_div_le_one_div_of_le (by positivity) ?_
      have hone : (1 : ℚ) ≤ 10 ^ j := one_le_pow₀ (by norm_num)
      nlinarith
    calc |d.value - q / 10 ^ k|
        ≤ |d.value - b.value / 10 ^ k| + |b.value / 10 ^ k - q / 10 ^ k| := abs_sub_le _ _ _
      _ ≤ 1 / 2 / 10 ^ d.scale + 1 / 20 / 10 ^ d.scale := add_le_add hrounded (hmoved.trans hfiner)
      _ < 1 / 10 ^ d.scale := by
        rw [← add_div]
        exact div_lt_div_of_pos_right (by norm_num) hpow

/-- Moving the point to the right is exact. -/
theorem value_of_shiftedLeft? (h : b.shiftedLeft? k = some d) : d.value = b.value * 10 ^ k := by
  unfold shiftedLeft? at h
  split at h
  next hle =>
    obtain ⟨hvalue, -, -⟩ := value_of_make? h
    obtain ⟨j, hj⟩ := Nat.exists_eq_add_of_le hle
    rw [hvalue, value, hj, Nat.add_sub_cancel_left, pow_add]
    field_simp
  next hlt =>
    obtain ⟨hvalue, -, -⟩ := value_of_unsignedZero? h
    obtain ⟨j, hj⟩ := Nat.exists_eq_add_of_le (Nat.le_of_not_le hlt)
    rw [hvalue, value, hj, Nat.add_sub_cancel_left, Nat.cast_mul, cast_tenTo, pow_add, pow_zero]
    field_simp

/-- A number that was rounded has no place to give up past its own. -/
theorem Rounds.shiftedLeft (hb : b.Rounds q) (hk : k ≤ 28) (h : b.shiftedLeft? k = some d) :
    |d.value - q * 10 ^ k| < 1 / 10 ^ d.scale := by
  have hvalue := value_of_shiftedLeft? h
  unfold shiftedLeft? at h
  split at h
  next hle =>
    obtain ⟨-, -, hscale⟩ := value_of_make? h
    obtain ⟨j, hj⟩ := Nat.exists_eq_add_of_le hle
    have hpow : (0 : ℚ) < 10 ^ k := by positivity
    rw [hvalue, ← sub_mul, abs_mul, abs_of_pos hpow, ← lt_div_iff₀ hpow, div_div, hscale, ← pow_add, Nat.sub_add_cancel hle]
    refine hb.near.trans_lt (div_lt_div_of_pos_right ?_ (by positivity))
    norm_num
  next hlt =>
    have hexact : b.value = q := by
      obtain heq | hlast | hfull := hb.exact_or_full
      · exact heq
      · omega
      · -- The mantissa would not fit with one more digit.
        obtain ⟨j, hj⟩ : ∃ j, k - b.scale = j + 1 := ⟨k - b.scale - 1, by omega⟩
        obtain ⟨-, hmantissa, -⟩ := value_of_unsignedZero? h
        have hfits := d.mantissa_lt
        rw [hmantissa, hj] at hfits
        have hone : 1 ≤ tenTo j := Nat.one_le_pow _ _ (by decide)
        have hten : tenTo (j + 1) = tenTo j * 10 := Nat.pow_succ ..
        rw [hten] at hfits
        nlinarith
    rw [hvalue, hexact, sub_self, abs_zero]
    positivity

end Conform.Decimal

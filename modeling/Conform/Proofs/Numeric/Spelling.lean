import Conform.Proofs.Numeric.Exact

/-! Decimals that spell one number, with more or fewer zeros at the end. What is calculated from them is one number again, if
    there is a result at all, and there is one from all spellings or from none. Only the remainder can be out of reach from
    some. -/

namespace Conform.Decimal

variable {negative : Bool} {m n s t k : Nat} {a a' b b' d : Decimal}

/-! ### Parts -/

/-- Spellings of one number differ by zeros at the end. -/
theorem mantissa_congr (h : a.value = b.value) : a.mantissa * tenTo b.scale = b.mantissa * tenTo a.scale := by
  have hsize : |a.value| = |b.value| := by rw [h]
  rw [abs_value, abs_value, div_eq_div_iff (by positivity) (by positivity), ← cast_tenTo, ← cast_tenTo] at hsize
  exact_mod_cast hsize

theorem negative_congr (h : a.value = b.value) (hzero : a.isZero = false) : a.negative = b.negative := by
  have hsize {d : Decimal} (hd : d.isZero = false) : (0 : ℚ) < d.mantissa / 10 ^ d.scale := by
    have hpos := mantissa_pos hd
    positivity
  exact (eq_of_unit_mul (hsize hzero) (hsize (isZero_congr h ▸ hzero)) h).1

theorem truncated_congr (h : a.value = b.value) : a.truncated = b.truncated := by
  have hwhole : a.mantissa / tenTo a.scale = b.mantissa / tenTo b.scale :=
    Rounding.down.divide_congr (tenTo_pos _) (tenTo_pos _) (mantissa_congr h)
  rw [truncated, truncated, hwhole]
  cases hzero : a.isZero with
  | false => rw [negative_congr h hzero]
  | true => simp [mantissa_eq_zero ((isZero_congr h).symm.trans hzero)]

/-! ### Quotients and roundings -/

section Quotients

variable (ha : a.value = a'.value) (hb : b.value = b'.value) (hzero : a.isZero = false) (hdivisor : b.isZero = false)

include ha hb hzero hdivisor

theorem quotientAt?_congr (places : Nat) : quotientAt? a b places = quotientAt? a' b' places := by
  have hpos {d e : Decimal} (hd : d.isZero = false) : 0 < d.mantissa * tenTo e.scale :=
    Nat.mul_pos (mantissa_pos hd) (tenTo_pos _)
  have hcross : a.mantissa * tenTo (places + b.scale) * (b'.mantissa * tenTo a'.scale) =
      a'.mantissa * tenTo (places + b'.scale) * (b.mantissa * tenTo a.scale) := by
    rw [tenTo_add, tenTo_add]
    calc a.mantissa * (tenTo places * tenTo b.scale) * (b'.mantissa * tenTo a'.scale)
      _ = a.mantissa * tenTo a'.scale * (b'.mantissa * tenTo b.scale) * tenTo places := by ring
      _ = a'.mantissa * tenTo a.scale * (b.mantissa * tenTo b'.scale) * tenTo places := by
        rw [mantissa_congr ha, mantissa_congr hb]
      _ = a'.mantissa * (tenTo places * tenTo b'.scale) * (b.mantissa * tenTo a.scale) := by ring
  rw [quotientAt?, quotientAt?, negative_congr ha hzero, negative_congr hb hdivisor,
    Rounding.divide_congr .halfEven (hpos hdivisor) (hpos (isZero_congr hb ▸ hdivisor)) hcross]

theorem quotientWithin?_congr (places : Nat) : quotientWithin? a b places = quotientWithin? a' b' places := by
  induction places with
  | zero => exact quotientAt?_congr ha hb hzero hdivisor 0
  | succ places ih => rw [quotientWithin?, quotientWithin?, quotientAt?_congr ha hb hzero hdivisor, ih]

end Quotients

/-- A quotient depends on the numbers alone. -/
theorem div?_congr (ha : a.value = a'.value) (hb : b.value = b'.value) : a.div? b = a'.div? b' := by
  rw [div?, div?, ← isZero_congr ha, ← isZero_congr hb]
  cases hdivisor : b.isZero with
  | true => rfl
  | false =>
    cases hzero : a.isZero with
    | true => rfl
    | false => rw [if_neg Bool.false_ne_true, if_neg Bool.false_ne_true, if_neg Bool.false_ne_true, if_neg Bool.false_ne_true,
      quotientWithin?_congr ha hb hzero hdivisor]

/-- What is rounded is the number in units of the last place that is kept. -/
theorem value_roundTo (r : Rounding) (places : Nat) (d : Decimal) : (d.roundTo r places).value =
    unit d.negative * (r.divide (d.mantissa * tenTo (places - d.scale)) (tenTo (d.scale - places)) / 10 ^ places) := by
  obtain hle | hlt := le_or_gt d.scale places
  · obtain ⟨k, rfl⟩ := Nat.exists_eq_add_of_le hle
    have hone : tenTo (d.scale - (d.scale + k)) = 1 := by rw [Nat.sub_eq_zero_of_le hle]
    rw [roundTo, if_pos hle, value, hone, Rounding.divide_one, Nat.add_sub_cancel_left, Nat.cast_mul, cast_tenTo, pow_add,
      mul_div_mul_right _ _ (by positivity)]
  · obtain ⟨e, hround, he⟩ := exists_roundTo r hlt
    rw [hround, (value_of_unsignedZero? he).1, Nat.sub_eq_zero_of_le hlt.le]
    exact congrArg (fun n : Nat => unit d.negative * (r.divide n (tenTo (d.scale - places)) / 10 ^ places : ℚ))
      (Nat.mul_one d.mantissa).symm

theorem value_roundTo_congr (r : Rounding) (places : Nat) (h : a.value = b.value) :
    (a.roundTo r places).value = (b.roundTo r places).value := by
  have hpos (d : Decimal) := tenTo_pos (d.scale - places)
  have hunits (d : Decimal) :
      ((d.mantissa * tenTo (places - d.scale) : Nat) : ℚ) / tenTo (d.scale - places) = |d.value| * 10 ^ places := by
    have hscale : (10 : ℚ) ^ (d.scale - places) * 10 ^ places = 10 ^ (places - d.scale) * 10 ^ d.scale := by
      rw [← pow_add, ← pow_add]
      congr 1
      omega
    rw [abs_value, Nat.cast_mul, cast_tenTo, cast_tenTo, div_eq_iff (by positivity), div_mul_eq_mul_div, div_mul_eq_mul_div,
      eq_div_iff (by positivity), mul_assoc, mul_assoc, ← hscale, mul_comm (10 ^ places : ℚ)]
  have hcross : a.mantissa * tenTo (places - a.scale) * tenTo (b.scale - places) =
      b.mantissa * tenTo (places - b.scale) * tenTo (a.scale - places) := by
    have hsame := (hunits a).trans ((congrArg (|·| * 10 ^ places) h).trans (hunits b).symm)
    rw [div_eq_div_iff (by exact_mod_cast (hpos a).ne') (by exact_mod_cast (hpos b).ne')] at hsame
    exact_mod_cast hsame
  rw [value_roundTo, value_roundTo, Rounding.divide_congr r (hpos a) (hpos b) hcross]
  cases hzero : a.isZero with
  | false => rw [negative_congr h hzero]
  | true =>
    have hmantissa := mantissa_eq_zero ((isZero_congr h).symm.trans hzero)
    have hnothing : r.divide (b.mantissa * tenTo (places - b.scale)) (tenTo (b.scale - places)) = 0 := by
      simpa [hmantissa] using Rounding.divide_mul_self r 0 (hpos b)
    rw [hnothing, Nat.cast_zero, zero_div, mul_zero, mul_zero]

/-! ### Products

    A number in range loses nothing, however long its parts are. What is out of range is out of range in every spelling, so the
    zeros at the end are dropped first, and what is left is dropped as from the short parts. -/

theorem fitFrom_mul (k fuel drop : Nat) :
    fitFrom negative (m * tenTo k) (s + k) fuel (drop + k) = fitFrom negative m s fuel drop := by
  induction fuel generalizing drop with
  | zero => rfl
  | succ fuel ih =>
    have hquotient : Rounding.halfEven.divide (m * tenTo k) (tenTo (drop + k)) = Rounding.halfEven.divide m (tenTo drop) := by
      rw [tenTo_add]
      exact Rounding.divide_mul_right _ _ _ (tenTo_pos k)
    rw [fitFrom, fitFrom, hquotient, Nat.add_sub_add_right, Nat.add_right_comm, ih]
    simp only [Nat.add_lt_add_iff_right]

theorem fitFrom_enough {fuel more drop : Nat} (hfuel : s < drop + fuel) (hmore : s < drop + more) :
    fitFrom negative m s fuel drop = fitFrom negative m s more drop := by
  induction fuel generalizing more drop with
  | zero =>
    cases more with
    | zero => rfl
    | succ more => rw [fitFrom, fitFrom, if_pos (show s < drop from hfuel)]
  | succ fuel ih =>
    cases more with
    | zero => rw [fitFrom, fitFrom, if_pos (show s < drop from hmore)]
    | succ more => rw [fitFrom, fitFrom, @ih more (drop + 1) (by omega) (by omega)]

theorem fitFrom_of_full {j : Nat} (hfull : twoTo 96 ≤ m) (fuel : Nat) (hj : j ≤ k) :
    fitFrom negative (m * tenTo k) (s + k) (fuel + j) (k - j) = fitFrom negative (m * tenTo k) (s + k) fuel k := by
  induction j with
  | zero => rfl
  | succ j ih =>
    have hpower : tenTo k = tenTo (j + 1) * tenTo (k - (j + 1)) := by
      rw [← tenTo_add, Nat.add_sub_cancel' hj]
    have hquotient : Rounding.halfEven.divide (m * tenTo k) (tenTo (k - (j + 1))) = m * tenTo (j + 1) := by
      rw [hpower, ← Nat.mul_assoc]
      exact Rounding.divide_mul_self _ _ (tenTo_pos _)
    have hlong : twoTo 96 ≤ m * tenTo (j + 1) := hfull.trans (Nat.le_mul_of_pos_right m (tenTo_pos _))
    have hnone : unsignedZero? negative (m * tenTo (j + 1)) (s + k - (k - (j + 1))) = none := by
      rw [unsignedZero?, make?, dif_neg fun hfit => absurd hfit.1 hlong.not_gt]
    rw [← Nat.add_assoc, fitFrom, if_neg (by omega), hquotient, hnone, show k - (j + 1) + 1 = k - j by omega]
    exact ih (Nat.le_of_succ_le hj)

theorem fit?_longer (m s k : Nat) :
    Option.Rel (fun d e => d.value = e.value) (fit? negative m s) (fit? negative (m * tenTo k) (s + k)) := by
  have hself (x : Option Decimal) : Option.Rel (fun d e => d.value = e.value) x x := by
    cases x with
    | none => exact .none
    | some d => exact .some rfl
  obtain hscale | hscale := Nat.lt_or_ge 28 s
  · have hdrop : s + k - 28 = s - 28 + k := by omega
    have hsame : fit? negative (m * tenTo k) (s + k) = fit? negative m s := by
      rw [fit?, fit?, hdrop, fitFrom_mul]
      exact fitFrom_enough (by omega) (by omega)
    exact hsame ▸ hself _
  obtain hfit | hfull := Nat.lt_or_ge m (twoTo 96)
  · obtain ⟨e, he⟩ : ∃ e, unsignedZero? negative m s = some e := unsignedZero?_isSome hfit hscale
    obtain ⟨-, hmantissa, hplaces⟩ := value_of_unsignedZero? he
    have hsize : |e.value| = m / 10 ^ s := by rw [abs_value, hmantissa, hplaces]
    have hlong : |e.value| = (m * tenTo k : Nat) / 10 ^ (s + k) := by
      rw [hsize, Nat.cast_mul, cast_tenTo, pow_add, mul_div_mul_right _ _ (by positivity)]
    obtain ⟨d, hd, hvalue⟩ := fit?_of_value hsize
    obtain ⟨d', hd', hvalue'⟩ := fit?_of_value hlong
    rw [hd, hd']
    exact .some (by rw [hvalue, hvalue', ← hsize, ← hlong])
  · have hj : min k (28 - s) ≤ k := Nat.min_le_left ..
    have hdrop : s + k - 28 = k - min k (28 - s) := by omega
    have hfuel : s + k + 1 = s + 1 + (k - min k (28 - s)) + min k (28 - s) := by omega
    have hsame : fit? negative (m * tenTo k) (s + k) = fit? negative m s := by
      rw [fit?, fit?, hdrop, hfuel, fitFrom_of_full hfull _ hj, Nat.sub_eq_zero_of_le hscale, ← fitFrom_mul k (s + 1) 0,
        Nat.zero_add]
      exact fitFrom_enough (by omega) (by omega)
    exact hsame ▸ hself _

theorem fit?_congr (h : m * tenTo t = n * tenTo s) :
    Option.Rel (fun d e => d.value = e.value) (fit? negative m s) (fit? negative n t) := by
  wlog hle : s ≤ t generalizing m n s t
  · have hrel := this h.symm (Nat.le_of_not_le hle)
    generalize fit? negative n t = x at hrel ⊢
    generalize fit? negative m s = y at hrel ⊢
    cases hrel with
    | none => exact .none
    | some hvalue => exact .some hvalue.symm
  obtain ⟨k, rfl⟩ := Nat.exists_eq_add_of_le hle
  obtain rfl := eq_mul_tenTo h.symm
  exact fit?_longer m s k

/-- A product depends on the numbers alone, but for how it is spelled. -/
theorem mul?_congr (ha : a.value = a'.value) (hb : b.value = b'.value) :
    Option.Rel (fun d e => d.value = e.value) (a.mul? b) (a'.mul? b') := by
  rw [mul?, mul?, ← isZero_congr ha, ← isZero_congr hb]
  cases hzero : a.isZero || b.isZero with
  | true => exact .some rfl
  | false =>
    obtain ⟨hleft, hright⟩ := Bool.or_eq_false_iff.mp hzero
    have hcross : a.mantissa * b.mantissa * tenTo (a'.scale + b'.scale) =
        a'.mantissa * b'.mantissa * tenTo (a.scale + b.scale) := by
      rw [tenTo_add, tenTo_add, Nat.mul_mul_mul_comm, mantissa_congr ha, mantissa_congr hb, Nat.mul_mul_mul_comm]
    rw [if_neg Bool.false_ne_true, if_neg Bool.false_ne_true, negative_congr ha hleft, negative_congr hb hright]
    exact fit?_congr hcross

/-! ### Remainders

    A remainder is of the numbers alone, too, but it can only be taken where the divisor or the dividend is short enough. That
    depends on how the divisor is spelled, unless it has 64 bits at most. -/

theorem natAbs_aligned (a b : Decimal) : (aligned a b).1.natAbs = a.mantissa * tenTo (b.scale - a.scale) ∧
    (aligned a b).2.natAbs = b.mantissa * tenTo (a.scale - b.scale) := by
  simp [aligned, Int.natAbs_mul, natAbs_signed]

theorem dividesWithin_of_dividend (h : a.mantissa * tenTo (b.scale - a.scale) < twoTo 96) : a.dividesWithin b = true := by
  obtain ⟨hx, -⟩ := natAbs_aligned a b
  have hbits : (aligned a b).1.natAbs * twoTo 95 < twoTo (192 + (aligned a b).2.natAbs.log2) :=
    calc (aligned a b).1.natAbs * twoTo 95
      _ < twoTo 96 * twoTo 95 := Nat.mul_lt_mul_of_pos_right (hx ▸ h) (Nat.pow_pos (by decide))
      _ ≤ twoTo 192 := by decide
      _ ≤ twoTo (192 + (aligned a b).2.natAbs.log2) := Nat.pow_le_pow_right (by decide) (Nat.le_add_right ..)
  rw [dividesWithin]
  simp only [decide_eq_true hbits, Bool.or_true]

theorem dividesWithin_of_divisor (h : b.mantissa < twoTo 64) : a.dividesWithin b = true := by
  obtain hle | hle := Nat.le_total b.scale a.scale
  · refine dividesWithin_of_dividend ?_
    rw [Nat.sub_eq_zero_of_le hle]
    exact (Nat.mul_one _).trans_lt a.mantissa_lt
  · obtain ⟨-, hy⟩ := natAbs_aligned a b
    have hsmall : (aligned a b).2.natAbs < twoTo 64 := by
      rw [hy, Nat.sub_eq_zero_of_le hle]
      exact (Nat.mul_one _).trans_lt h
    rw [dividesWithin]
    simp only [decide_eq_true hsmall, Bool.true_or]

theorem dividesWithin_congr (h : a.value = a'.value) (b : Decimal) : a.dividesWithin b = a'.dividesWithin b := by
  wlog hle : a.scale ≤ a'.scale generalizing a a'
  · exact (this h.symm (Nat.le_of_not_le hle)).symm
  obtain hshort | hlong := le_or_gt a'.scale b.scale
  · -- Both are brought to the scale of the divisor.
    have hcast {d : Decimal} (hd : d.scale ≤ b.scale) : ((aligned d b).1 : ℚ) = d.value * 10 ^ b.scale ∧
        (aligned d b).2 = b.signed := by
      have hx := (cast_aligned d b).1
      rw [Nat.max_eq_right hd] at hx
      refine ⟨hx, ?_⟩
      rw [aligned, Nat.sub_eq_zero_of_le hd]
      exact Int.mul_one _
    obtain ⟨hx, hy⟩ := hcast (hle.trans hshort)
    obtain ⟨hx', hy'⟩ := hcast hshort
    have hsame : (aligned a b).1 = (aligned a' b).1 := by
      rw [← h, ← hx] at hx'
      exact_mod_cast hx'.symm
    rw [dividesWithin, dividesWithin, Prod.ext hsame (hy.trans hy'.symm)]
  · have hlt : a.mantissa * tenTo (b.scale - a.scale) < twoTo 96 :=
      calc a.mantissa * tenTo (b.scale - a.scale)
        _ ≤ a.mantissa * tenTo (a'.scale - a.scale) := Nat.mul_le_mul_left _ (Nat.pow_le_pow_right (by decide) (by omega))
        _ = a'.mantissa := by
          have hcross := mantissa_congr h
          rw [← Nat.add_sub_cancel' hle] at hcross
          exact (eq_mul_tenTo hcross.symm).symm
        _ < twoTo 96 := a'.mantissa_lt
    rw [dividesWithin_of_dividend hlt, dividesWithin_of_dividend]
    rw [Nat.sub_eq_zero_of_le hlong.le]
    exact (Nat.mul_one _).trans_lt a'.mantissa_lt

/-- There is no remainder where the quotient is whole. -/
theorem aligned_emod_eq_zero_iff : (aligned a b).1 % (aligned a b).2 = 0 ↔ ∃ q : Int, a.value = b.value * q := by
  obtain ⟨hx, hy⟩ := cast_aligned a b
  have hpos : (10 : ℚ) ^ max a.scale b.scale ≠ 0 := by positivity
  rw [← Int.dvd_iff_emod_eq_zero, Dvd.dvd]
  refine exists_congr fun q => ?_
  rw [← Int.cast_inj (α := ℚ), Int.cast_mul, hx, hy, mul_right_comm, mul_left_inj' hpos]

theorem isMultipleOf_eq (hwithin : a.dividesWithin b = a'.dividesWithin b') (ha : a.value = a'.value) (hb : b.value = b'.value) :
    a.isMultipleOf b = a'.isMultipleOf b' := by
  have hremainder : ((aligned a b).1 % (aligned a b).2 == 0) = ((aligned a' b').1 % (aligned a' b').2 == 0) := by
    rw [Bool.eq_iff_iff, beq_iff_eq, beq_iff_eq, aligned_emod_eq_zero_iff, aligned_emod_eq_zero_iff, ha, hb]
  exact congrArg₂ and hwithin hremainder

end Conform.Decimal

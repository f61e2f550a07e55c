import Conform.Proofs.Constraint.Mended
import Conform.Proofs.Numeric.Decimal
import Mathlib.Data.Rat.Floor

/-! Where arithmetic on decimals loses nothing. A product that 96 bits hold is exact, whole multiples are found to be
    such, a step by one unit of the last place leads past the number, and a number that is cut off has no more digits
    than it was cut off to. -/

namespace Conform.Decimal

variable {negative : Bool} {m s k : Nat} {a b d e : Decimal}

/-! ### Exact results -/

theorem abs_value (d : Decimal) : |d.value| = d.mantissa / 10 ^ d.scale := by
  rw [value, abs_unit_mul, abs_of_nonneg (by positivity)]

theorem natAbs_signed (d : Decimal) : d.signed.natAbs = d.mantissa := by
  cases h : d.negative <;> simp [signed, h]

/-- A spelling that is longer by some places has as many more zeros. -/
theorem eq_mul_tenTo {n : Nat} (h : n * tenTo s = m * tenTo (s + k)) : n = m * tenTo k := by
  rw [tenTo_add, Nat.mul_comm (tenTo s), ← Nat.mul_assoc] at h
  exact Nat.eq_of_mul_eq_mul_right (tenTo_pos s) h

/-- Dropping zeros is exact, so they are dropped until the digits fit. -/
theorem fitFrom_of_mul {fuel drop : Nat} (hs : s = e.scale + k) (hm : m = e.mantissa * tenTo k) (hdrop : drop ≤ k)
    (hfuel : k < drop + fuel) :
    ∃ d, fitFrom negative m s fuel drop = some d ∧ d.value = unit negative * (m / 10 ^ s) := by
  induction fuel generalizing drop with
  | zero => omega
  | succ fuel ih =>
    obtain ⟨j, rfl⟩ := Nat.exists_eq_add_of_le hdrop
    have hpow : tenTo (drop + j) = tenTo j * tenTo drop := (tenTo_add drop j).trans (Nat.mul_comm ..)
    have hquotient : Rounding.halfEven.divide m (tenTo drop) = e.mantissa * tenTo j := by
      rw [hm, hpow, ← Nat.mul_assoc]
      exact Rounding.divide_mul_self _ _ (tenTo_pos _)
    rw [fitFrom, if_neg (by omega), hquotient]
    cases hfit : unsignedZero? negative (e.mantissa * tenTo j) (s - drop) with
    | some d =>
      refine ⟨d, rfl, (value_of_unsignedZero? hfit).1.trans ?_⟩
      have hscale : s = (s - drop) + drop := by omega
      have hsplit : (10 : ℚ) ^ s = 10 ^ (s - drop) * 10 ^ drop := by rw [← pow_add, ← hscale]
      rw [hm, hpow, hsplit]
      simp only [Nat.cast_mul, cast_tenTo]
      field_simp
    | none =>
      obtain rfl | hpos := Nat.eq_zero_or_pos j
      · have hone : e.mantissa * tenTo 0 = e.mantissa := Nat.mul_one _
        have hscale : s - drop ≤ 28 := by
          have := e.scale_le
          omega
        obtain ⟨d, hd⟩ : ∃ d, unsignedZero? negative (e.mantissa * tenTo 0) (s - drop) = some d :=
          unsignedZero?_isSome (hone.trans_lt e.mantissa_lt) hscale
        cases hfit.symm.trans hd
      · exact ih (by omega) (by omega)

/-- Parts that spell a decimal are brought into range without loss. -/
theorem fit?_of_value (h : |e.value| = m / 10 ^ s) :
    ∃ d, fit? negative m s = some d ∧ d.value = unit negative * (m / 10 ^ s) := by
  rw [abs_value, div_eq_div_iff (by positivity) (by positivity), ← cast_tenTo, ← cast_tenTo] at h
  have hcross : e.mantissa * tenTo s = m * tenTo e.scale := by exact_mod_cast h
  obtain hlt | hle := Nat.lt_or_ge s e.scale
  · obtain ⟨k, hk⟩ := Nat.exists_eq_add_of_le hlt.le
    rw [hk] at hcross
    have hfit : m < twoTo 96 := (Nat.le_mul_of_pos_right m (tenTo_pos k)).trans_lt (eq_mul_tenTo hcross ▸ e.mantissa_lt)
    have hscale : s ≤ 28 := hlt.le.trans e.scale_le
    obtain ⟨d, hd⟩ : ∃ d, unsignedZero? negative m s = some d := unsignedZero?_isSome hfit hscale
    exact ⟨d, by rw [fit?_of_lt hfit hscale, hd], (value_of_unsignedZero? hd).1⟩
  · obtain ⟨k, rfl⟩ := Nat.exists_eq_add_of_le hle
    have hscale := e.scale_le
    exact fitFrom_of_mul rfl (eq_mul_tenTo hcross.symm) (by omega) (by omega)

/-- A product that is a decimal is that decimal. -/
theorem mul?_of_value (h : e.value = a.value * b.value) : ∃ d, a.mul? b = some d ∧ d.value = e.value := by
  rw [mul?]
  split
  next hzero =>
    exact ⟨zero, rfl, by rw [h, mul_value_of_isZero hzero]; simp [value, zero]⟩
  · have hsize : |e.value| = (a.mantissa * b.mantissa : Nat) / 10 ^ (a.scale + b.scale) := by
      rw [h, mul_value, abs_unit_mul, abs_of_nonneg (by positivity)]
    obtain ⟨d, hd, hvalue⟩ := fit?_of_value hsize
    exact ⟨d, hd, by rw [hvalue, h, mul_value]⟩

/-- A sum that is a decimal is that decimal. -/
theorem add?_of_value (h : e.value = a.value + b.value) : ∃ d, a.add? b = some d ∧ d.value = e.value := by
  rw [add?]
  split
  next hzero => exact ⟨b, rfl, by rw [h, value_of_isZero hzero, zero_add]⟩
  · split
    next hzero => exact ⟨a, rfl, by rw [h, value_of_isZero hzero, add_zero]⟩
    · obtain ⟨hx, hy⟩ := cast_aligned a b
      rcases haligned : aligned a b with ⟨x, y⟩
      rw [haligned] at hx hy
      dsimp only at hx hy ⊢
      have hsum : ((x + y : Int) : ℚ) / 10 ^ max a.scale b.scale = e.value := by
        rw [div_eq_iff (by positivity), Int.cast_add, hx, hy, h, add_mul]
      have hsize : |e.value| = (x + y).natAbs / 10 ^ max a.scale b.scale := by
        rw [← hsum, ← unit_mul_natAbs, mul_div_assoc, abs_unit_mul, abs_of_nonneg (by positivity)]
      obtain ⟨d, hd, hvalue⟩ := fit?_of_value hsize
      exact ⟨d, hd, by rw [hvalue, ← mul_div_assoc, unit_mul_natAbs, hsum]⟩

/-- A difference that is a decimal is that decimal. -/
theorem sub?_of_value (h : e.value = a.value - b.value) : ∃ d, a.sub? b = some d ∧ d.value = e.value := by
  rw [sub?]
  split
  next hzero =>
    refine ⟨_, rfl, ?_⟩
    rw [h, value_of_isZero hzero, sub_zero]
    split
    next ha => rw [value_of_isZero hzero, value_of_isZero ha]
    · rfl
  · exact add?_of_value (by rw [h, value_neg, sub_eq_add_neg])

/-- Where `places` hold a quotient, it is found among them. -/
theorem quotientAt?_of_value {places : Nat} (hb : b.isZero = false) (h : e.value = a.value / b.value)
    (hplaces : e.scale ≤ places) : quotientAt? a b places =
      unsignedZero? (a.negative != b.negative) (e.mantissa * tenTo (places - e.scale)) places := by
  have hpos : 0 < b.mantissa := mantissa_pos hb
  have hdivisor : (0 : ℚ) < b.mantissa := by exact_mod_cast hpos
  have hexact : a.mantissa * tenTo (places + b.scale) =
      e.mantissa * tenTo (places - e.scale) * (b.mantissa * tenTo a.scale) := by
    obtain ⟨k, rfl⟩ := Nat.exists_eq_add_of_le hplaces
    have hsize : |e.value| = |a.value| / |b.value| := by rw [h, abs_div]
    rw [abs_value, abs_value, abs_value] at hsize
    have hcross : (e.mantissa : ℚ) * 10 ^ a.scale * b.mantissa = 10 ^ e.scale * a.mantissa * 10 ^ b.scale := by
      field_simp at hsize
      exact hsize
    have hscaled : (a.mantissa : ℚ) * 10 ^ (e.scale + k + b.scale) = e.mantissa * 10 ^ k * (b.mantissa * 10 ^ a.scale) := by
      calc (a.mantissa : ℚ) * 10 ^ (e.scale + k + b.scale)
        _ = 10 ^ e.scale * a.mantissa * 10 ^ b.scale * 10 ^ k := by ring
        _ = e.mantissa * 10 ^ k * (b.mantissa * 10 ^ a.scale) := by rw [← hcross]; ring
    rw [Nat.add_sub_cancel_left]
    simp only [← cast_tenTo] at hscaled
    exact_mod_cast hscaled
  have hscale : 0 < b.mantissa * tenTo a.scale := Nat.mul_pos hpos (tenTo_pos _)
  rw [quotientAt?, hexact, Rounding.divide_mul_self _ _ hscale]

theorem unit_mul_abs_value (d : Decimal) : unit d.negative * |d.value| = d.value := by rw [abs_value, value]

theorem value_of_quotientAt? {places : Nat} (hb : b.isZero = false) (h : e.value = a.value / b.value)
    (hplaces : e.scale ≤ places) (hd : quotientAt? a b places = some d) : d.value = e.value := by
  have hunit : unit (a.negative != b.negative) = unit a.negative / unit b.negative := by
    cases a.negative <;> cases b.negative <;> norm_num [unit]
  obtain ⟨k, rfl⟩ := Nat.exists_eq_add_of_le hplaces
  have hsize : ((e.mantissa * tenTo k : Nat) : ℚ) / 10 ^ (e.scale + k) = |a.value| / |b.value| := by
    rw [← abs_div, ← h, abs_value, Nat.cast_mul, cast_tenTo, pow_add, mul_div_mul_right _ _ (by positivity)]
  rw [quotientAt?_of_value hb h hplaces, Nat.add_sub_cancel_left] at hd
  rw [(value_of_unsignedZero? hd).1, hsize, hunit, div_mul_div_comm, unit_mul_abs_value, unit_mul_abs_value, h]

/-- Places that are too many for 96 bits are given up, and only zeros with them. -/
theorem quotientWithin?_of_value {places : Nat} (hb : b.isZero = false) (h : e.value = a.value / b.value)
    (hplaces : e.scale ≤ places) : ∃ d, quotientWithin? a b places = some d ∧ d.value = e.value := by
  have hleast : ∃ d, quotientAt? a b e.scale = some d := by
    rw [quotientAt?_of_value hb h le_rfl, Nat.sub_self]
    exact unsignedZero?_isSome ((Nat.mul_one _).trans_lt e.mantissa_lt) e.scale_le
  induction places with
  | zero =>
    obtain ⟨d, hd⟩ := hleast
    rw [Nat.le_zero.mp hplaces] at hd
    exact ⟨d, hd, value_of_quotientAt? hb h hplaces hd⟩
  | succ places ih =>
    rw [quotientWithin?]
    cases hd : quotientAt? a b (places + 1) with
    | some d => exact ⟨d, rfl, value_of_quotientAt? hb h hplaces hd⟩
    | none =>
      obtain hle | heq := Nat.le_or_eq_of_le_succ hplaces
      · exact ih hle
      · rw [heq, hd] at hleast
        exact nomatch hleast

/-- A quotient that is a decimal is that decimal. -/
theorem div?_of_value (hb : b.isZero = false) (h : e.value = a.value / b.value) :
    ∃ d, a.div? b = some d ∧ d.value = e.value := by
  rw [div?, hb, if_neg Bool.false_ne_true]
  split
  next hzero => exact ⟨zero, rfl, by rw [h, value_of_isZero hzero, zero_div]; simp [value, zero]⟩
  · exact quotientWithin?_of_value hb h e.scale_le

/-! ### Nearest and lower integers -/

/-- Ties go to the even neighbour. -/
theorem abs_halfEven_sub_le (n : Nat) (hk : 0 < k) : |(Rounding.halfEven.divide n k : ℚ) - n / k| ≤ 1 / 2 ∧
    (|(Rounding.halfEven.divide n k : ℚ) - n / k| = 1 / 2 → 2 ∣ Rounding.halfEven.divide n k) := by
  have hpos : (0 : ℚ) < k := by exact_mod_cast hk
  have hnonneg : (0 : ℚ) ≤ (n % k : Nat) / k := by positivity
  have hlt := cast_mod_div_lt n hk
  rw [cast_div_eq n hk, Rounding.divide]
  split
  next hlow =>
    have hhalf : ((n % k : Nat) : ℚ) / k < 1 / 2 := by
      rw [div_lt_div_iff₀ hpos two_pos, one_mul, mul_comm]
      exact_mod_cast hlow
    rw [sub_add_cancel_left, abs_neg, abs_of_nonneg hnonneg]
    exact ⟨hhalf.le, fun heq => absurd heq hhalf.ne⟩
  · split
    next htie =>
      have hhalf : ((n % k : Nat) : ℚ) / k = 1 / 2 := by
        rw [div_eq_div_iff hpos.ne' two_ne_zero, one_mul, mul_comm]
        exact_mod_cast htie
      refine ⟨?_, fun _ => by omega⟩
      rw [hhalf]
      obtain heven | hodd := Nat.mod_two_eq_zero_or_one (n / k)
      · rw [heven]
        norm_num
      · rw [hodd]
        norm_num
    next hlow htie =>
      have hhalf : 1 / 2 < ((n % k : Nat) : ℚ) / k := by
        rw [div_lt_div_iff₀ two_pos hpos, one_mul, mul_comm]
        exact_mod_cast (by omega : k < 2 * (n % k))
      have hsub : ((n / k + 1 : Nat) : ℚ) - ((n / k : Nat) + (n % k : Nat) / k) = 1 - (n % k : Nat) / k := by
        push_cast
        ring
      rw [hsub, abs_of_pos (by linarith)]
      exact ⟨by linarith, fun heq => by linarith⟩

/-- The nearest integer is at most one half away, and even if it is as much as that. -/
theorem nearest_spec (d : Decimal) :
    |(d.nearest : ℚ) - d.value| ≤ 1 / 2 ∧ (|(d.nearest : ℚ) - d.value| = 1 / 2 → 2 ∣ d.nearest) := by
  obtain ⟨hnear, htie⟩ := abs_halfEven_sub_le d.mantissa (tenTo_pos d.scale)
  have hsub : (d.nearest : ℚ) - d.value =
      unit d.negative * ((Rounding.halfEven.divide d.mantissa (tenTo d.scale) : ℚ) - d.mantissa / (tenTo d.scale : Nat)) := by
    rw [value, cast_tenTo, nearest]
    cases d.negative
    · simp [unit]
    · simp [unit]
      ring
  rw [hsub, abs_unit_mul]
  refine ⟨hnear, fun heq => ?_⟩
  have heven := Int.natCast_dvd_natCast.mpr (htie heq)
  rw [nearest]
  cases d.negative
  · exact heven
  · exact Int.dvd_neg.mpr heven

theorem floor_eq (d : Decimal) : d.floor = ⌊d.value⌋ := by
  have hpos : (0 : Int) ≤ (tenTo d.scale : Nat) := Int.natCast_nonneg _
  rw [value_eq, ← cast_tenTo, Rat.floor_intCast_div_natCast, floor, Int.fdiv_eq_ediv_of_nonneg _ hpos]

theorem natAbs_floor_le (d : Decimal) : d.floor.natAbs ≤ d.mantissa := by
  rw [floor, Int.fdiv_eq_ediv_of_nonneg _ (Int.natCast_nonneg _), ← natAbs_signed]
  exact Int.natAbs_ediv_le_natAbs _ _

/-! ### Multiples -/

/-- A whole multiple, by no more than 96 bits, is found to be one. -/
theorem isMultipleOf_of_value {q : Int} (hq : q.natAbs < twoTo 96) (h : a.value = q * b.value) :
    a.isMultipleOf b = true := by
  obtain ⟨hx, hy⟩ := cast_aligned a b
  rcases haligned : aligned a b with ⟨x, y⟩
  rw [haligned] at hx hy
  dsimp only at hx hy
  have hxy : x = q * y := by
    rw [h, mul_assoc, ← hy] at hx
    exact_mod_cast hx
  have hbits : x.natAbs * twoTo 95 < twoTo (192 + y.natAbs.log2) := by
    have hlog : y.natAbs < twoTo (y.natAbs.log2 + 1) := Nat.lt_log2_self
    have hproduct : q.natAbs * y.natAbs < twoTo 96 * twoTo (y.natAbs.log2 + 1) := Nat.mul_lt_mul'' hq hlog
    have hpower : twoTo (192 + y.natAbs.log2) = twoTo 96 * twoTo (y.natAbs.log2 + 1) * twoTo 95 := by
      simp only [twoTo, Nat.pow_eq, ← pow_add]
      congr 1
      omega
    rw [hpower, hxy, Int.natAbs_mul]
    exact Nat.mul_lt_mul_of_pos_right hproduct (Nat.pow_pos (by decide))
  have hremainder : x % y = 0 := by rw [hxy, Int.mul_emod_left]
  rw [isMultipleOf, dividesWithin, haligned]
  simp only [decide_eq_true hbits, Bool.or_true, Bool.true_and, hremainder, beq_self_eq_true]

/-! ### Steps by one unit -/

/-- The first number that 96 bits do not hold gives up a place, which rounds it away from zero; without places there is
    none to give up. -/
theorem fit?_full (negative : Bool) (hs : s ≤ 28) :
    (s = 0 ∧ fit? negative (twoTo 96) s = none) ∨
      (0 < s ∧ ∃ d, fit? negative (twoTo 96) s = some d ∧ d.value = unit negative * (79228162514264337593543950340 / 10 ^ s)) := by
  have hlong : unsignedZero? negative (Rounding.halfEven.divide (twoTo 96) (tenTo 0)) (s - 0) = none := by
    rw [unsignedZero?, make?, dif_neg]
    exact fun hfit => absurd hfit.1 (by decide)
  have hrounded : Rounding.halfEven.divide (twoTo 96) (tenTo 1) = 7922816251426433759354395034 := by decide
  rw [fit?, Nat.sub_eq_zero_of_le hs, fitFrom, if_neg (Nat.not_lt_zero s), hlong]
  cases s with
  | zero => exact .inl ⟨rfl, rfl⟩
  | succ s =>
    obtain ⟨d, hd⟩ : ∃ d, unsignedZero? negative 7922816251426433759354395034 (s + 1 - 1) = some d :=
      unsignedZero?_isSome (by decide) (by omega)
    refine .inr ⟨Nat.succ_pos s, d, ?_, ?_⟩
    · dsimp only
      rw [fitFrom, if_neg (by omega), hrounded, hd]
    · rw [(value_of_unsignedZero? hd).1, Nat.add_sub_cancel, pow_succ]
      push_cast
      ring

/-- A number is one unit, up or down, of the last place of another. -/
structure IsUnitOf (u d : Decimal) : Prop where
  scale : u.scale = d.scale
  signed : u.signed = 1 ∨ u.signed = -1

variable {u : Decimal}

theorem IsUnitOf.isZero (h : u.IsUnitOf d) : u.isZero = false := by
  have hmantissa := natAbs_signed u
  simp only [Decimal.isZero, beq_eq_false_iff_ne]
  rcases h.signed with hone | hone <;> rw [hone] at hmantissa <;> omega

theorem add?_unit (h : u.IsUnitOf d) :
    d.add? u = if d.isZero then some u
      else fit? (decide (d.signed + u.signed < 0)) (d.signed + u.signed).natAbs d.scale := by
  have hone : (tenTo 0 : Int) = 1 := rfl
  rw [add?]
  simp only [h.isZero, Bool.false_eq_true, if_false, aligned, h.scale, Nat.sub_self, hone, Int.mul_one, max_self]

/-- A unit of the last place is added exactly, or there is one bit too many and a place is given up. -/
theorem add?_unit_cases (h : u.IsUnitOf d) :
    ((d.signed + u.signed).natAbs < twoTo 96 ∧
        ∃ e, d.add? u = some e ∧ e.value = (d.signed + u.signed : Int) / 10 ^ d.scale) ∨
      (d.signed + u.signed).natAbs = twoTo 96 ∧
        ((d.scale = 0 ∧ d.add? u = none) ∨
          (0 < d.scale ∧ ∃ e, d.add? u = some e ∧
            e.value = unit (decide (d.signed + u.signed < 0)) * (79228162514264337593543950340 / 10 ^ d.scale))) := by
  have hrange : d.signed.natAbs < twoTo 96 := natAbs_signed d ▸ d.mantissa_lt
  have hbits : twoTo 96 = 79228162514264337593543950336 := rfl
  rw [add?_unit h]
  cases hzero : d.isZero with
  | true =>
    have hsigned : d.signed = 0 := Int.natAbs_eq_zero.mp ((natAbs_signed d).trans (mantissa_eq_zero hzero))
    rw [hsigned, Int.zero_add]
    refine .inl ⟨?_, u, rfl, ?_⟩
    · rcases h.signed with hone | hone <;> rw [hone] <;> decide
    · rw [value_eq, h.scale]
  | false =>
    have hle : (d.signed + u.signed).natAbs ≤ twoTo 96 := by
      rcases h.signed with hone | hone <;> omega
    rw [if_neg Bool.false_ne_true]
    obtain hlt | heq := Nat.lt_or_eq_of_le hle
    · obtain ⟨e, he⟩ : ∃ e, unsignedZero? (decide (d.signed + u.signed < 0)) (d.signed + u.signed).natAbs d.scale = some e :=
        unsignedZero?_isSome hlt d.scale_le
      refine .inl ⟨hlt, e, by rw [fit?_of_lt hlt d.scale_le, he], ?_⟩
      rw [(value_of_unsignedZero? he).1, ← mul_div_assoc, unit_mul_natAbs]
    · rw [heq]
      exact .inr ⟨rfl, fit?_full _ d.scale_le⟩

/-- A unit of the last place leads above the number, or below it. -/
theorem lt_of_add?_unit (h : u.IsUnitOf d) (he : d.add? u = some e) :
    (u.signed = 1 → d.value < e.value) ∧ (u.signed = -1 → e.value < d.value) := by
  have hpos : (0 : ℚ) < 10 ^ d.scale := by positivity
  have hrange : d.signed.natAbs < twoTo 96 := natAbs_signed d ▸ d.mantissa_lt
  have hbits : twoTo 96 = 79228162514264337593543950336 := rfl
  rw [value_eq d]
  rcases add?_unit_cases h with ⟨-, f, hf, hvalue⟩ | ⟨hfull, ⟨-, hnone⟩ | ⟨-, f, hf, hvalue⟩⟩
  · cases he.symm.trans hf
    rw [hvalue, div_lt_div_iff_of_pos_right hpos, div_lt_div_iff_of_pos_right hpos, Int.cast_lt, Int.cast_lt]
    omega
  · cases he.symm.trans hnone
  · cases he.symm.trans hf
    rw [hvalue, ← mul_div_assoc, div_lt_div_iff_of_pos_right hpos, div_lt_div_iff_of_pos_right hpos]
    constructor <;> intro hone
    · have hup : d.signed = 79228162514264337593543950335 := by omega
      norm_num [hone, hup, unit]
    · have hdown : d.signed = -79228162514264337593543950335 := by omega
      norm_num [hone, hdown, unit]

/-! ### Digits -/

theorem mantissa_normalized_le (d : Decimal) : d.normalized.mantissa ≤ d.mantissa := by
  unfold normalized
  split
  · exact Nat.zero_le _
  · dsimp only
    cases h : make? d.negative (d.mantissa / tenTo (Digits.dropZeros d.scale d.mantissa).2)
        (d.scale - (Digits.dropZeros d.scale d.mantissa).2) with
    | none => exact le_rfl
    | some e =>
      rw [Option.getD_some, (value_of_make? h).2.1]
      exact Nat.div_le_self _ _

/-- A number of so many places and so many digits in all has no more of them. -/
theorem digitCounts_le {n : Nat} (hpos : 0 < n) (hscale : d.scale ≤ n) (hmantissa : d.mantissa < tenTo n) :
    d.digitCounts.1 ≤ n :=
  Nat.max_le.mpr ⟨Digits.length_ofNat_le hpos ((mantissa_normalized_le d).trans_lt hmantissa),
    (scale_normalized_le d).trans hscale⟩

/-- A number is less than its digits before the point allow. -/
theorem abs_value_lt (d : Decimal) : |d.value| < 10 ^ (d.digitCounts.1 - d.digitCounts.2) := by
  have hdigits : d.normalized.mantissa < tenTo (Digits.ofNat d.normalized.mantissa).length := by
    have hdigits : ∀ c ∈ Digits.ofNat d.normalized.mantissa, c.isDigit = true := fun _ => Digits.isDigit_of_mem_ofNat
    have hlt := Digits.toNat_lt hdigits
    rwa [Digits.toNat_ofNat] at hlt
  have hcount : (Digits.ofNat d.normalized.mantissa).length ≤ d.digitCounts.1 - d.digitCounts.2 + d.normalized.scale := by
    have hle : (Digits.ofNat d.normalized.mantissa).length ≤ d.digitCounts.1 := Nat.le_max_left _ _
    have hplaces : d.digitCounts.2 = d.normalized.scale := rfl
    omega
  have hlt : d.normalized.mantissa < tenTo (d.digitCounts.1 - d.digitCounts.2 + d.normalized.scale) :=
    hdigits.trans_le (Nat.pow_le_pow_right (by decide) hcount)
  rw [← value_normalized, abs_value, div_lt_iff₀ (by positivity), ← pow_add, ← cast_tenTo]
  exact_mod_cast hlt

/-- What is cut off after some places keeps its digits before the point and has those places. -/
theorem digits_roundTo_down {places before : Nat} (hpos : 0 < before + places) (hplaces : places < d.scale)
    (hlt : |d.value| < 10 ^ before) : (d.roundTo .down places).normalized.digitCounts.1 ≤ before + places := by
  obtain ⟨k, hk⟩ := Nat.exists_eq_add_of_lt hplaces
  have hdrop : d.scale - places = k + 1 := by omega
  have hmantissa : d.mantissa / tenTo (k + 1) < tenTo (before + places) := by
    refine (Nat.div_lt_iff_lt_mul (tenTo_pos (k + 1))).mpr ?_
    rw [abs_value, div_lt_iff₀ (by positivity), ← pow_add, ← cast_tenTo] at hlt
    have hpow : tenTo (before + places) * tenTo (k + 1) = tenTo (before + d.scale) := by
      rw [hk]
      exact (tenTo_add _ _).symm.trans (congrArg tenTo (by omega))
    rw [hpow]
    exact_mod_cast hlt
  obtain ⟨e, he⟩ : ∃ e, unsignedZero? d.negative (d.mantissa / tenTo (k + 1)) places = some e :=
    unsignedZero?_isSome ((Nat.div_le_self _ _).trans_lt d.mantissa_lt) (hplaces.le.trans d.scale_le)
  have hround : d.roundTo .down places = e := by
    rw [roundTo, if_neg (by omega), hdrop, Rounding.divide, he, Option.getD_some]
  obtain ⟨-, hm, hs⟩ := value_of_unsignedZero? he
  rw [hround]
  refine digitCounts_le hpos ((scale_normalized_le e).trans (by omega)) ?_
  exact (mantissa_normalized_le e).trans_lt (hm ▸ hmantissa)

end Conform.Decimal

import Conform.Numeric.Binary64
import Conform.Proofs.Numeric.Decimal
import Mathlib.Algebra.Order.Field.Power
import Mathlib.Tactic.NormNum

/-! Floats as rational numbers. A finite float is a whole number of units that are powers of two, and its mantissa and
    its unit are determined by its value: only the least unit leaves room for a mantissa without its highest bit. -/

namespace Conform.Binary64

variable {x y : Binary64} {a b : Bool} {m n : Nat} {e f : Int}

/-! ### The number that a float denotes -/

/-- What a form denotes: nothing, one of the infinities, or a number. -/
def Form.denoted : Form → Option (Bool ⊕ ℚ)
  | .nan => none
  | .infinite negative => some (.inl negative)
  | .finite negative m e => some (.inr (Decimal.unit negative * m * (2 : ℚ) ^ e))

theorem isNaN_iff : x.isNaN = true ↔ x.form = .nan := by
  have hmagnitude : x.magnitudeBits < 9223372036854775808 := Nat.mod_lt _ (by decide)
  have hinfinity : infinityBits = 9218868437227405312 := rfl
  have hpower : twoTo 52 = 4503599627370496 := rfl
  rw [isNaN, decide_eq_true_eq, form, hinfinity, hpower]
  split_ifs with hexponent hfraction
  · exact iff_of_false (by omega) nofun
  · exact iff_of_true (by omega) rfl
  · exact iff_of_false (by omega) nofun
  · exact iff_of_false (by omega) nofun

theorem zpow_eq_div {b : ℚ} (hb : b ≠ 0) (e : Int) : b ^ e = b ^ e.toNat / b ^ (-e).toNat := by
  rw [← zpow_natCast, ← zpow_natCast, ← zpow_sub₀ hb]
  congr 1
  omega

theorem cast_twoTo (k : Nat) : ((twoTo k : Nat) : ℚ) = 2 ^ k := by simp

theorem inUnits_eq (negative : Bool) (m : Nat) {e unit : Int} (h : unit ≤ e) :
    ((inUnits negative m e unit : Int) : ℚ) * (2 : ℚ) ^ unit = Decimal.unit negative * m * (2 : ℚ) ^ e := by
  obtain ⟨k, hk⟩ := Int.eq_ofNat_of_zero_le (Int.sub_nonneg.mpr h)
  have hpower : (2 : ℚ) ^ e = 2 ^ k * (2 : ℚ) ^ unit := by
    rw [← zpow_natCast, ← zpow_add₀ two_ne_zero, ← hk, Int.sub_add_cancel]
  have hcast : ((m * twoTo k : Nat) : ℚ) = m * 2 ^ k := by
    rw [Nat.cast_mul]
    simp
  rw [inUnits, hk, Int.toNat_natCast, hpower]
  cases negative <;> simp only [Bool.false_eq_true, if_false, if_true, Int.cast_neg, Int.cast_natCast, hcast,
    Decimal.unit] <;> ring

theorem compare_congr {α β : Type} [LinearOrder α] [LinearOrder β] {p q : α} {r s : β} (hlt : p < q ↔ r < s) (hgt : q < p ↔ s < r) :
    compare p q = compare r s := by
  obtain h | h | h := lt_trichotomy p q
  · rw [compare_lt_iff_lt.mpr h, compare_lt_iff_lt.mpr (hlt.mp h)]
  · have heq : r = s := le_antisymm (not_lt.mp fun hlt' => (hgt.mpr hlt').ne' h) (not_lt.mp fun hlt' => (hlt.mpr hlt').ne h)
    rw [compare_eq_iff_eq.mpr h, compare_eq_iff_eq.mpr heq]
  · rw [compare_gt_iff_gt.mpr h, compare_gt_iff_gt.mpr (hgt.mp h)]

/-- Numbers are in the order of what they denote. -/
theorem compare?_of_finite (hx : x.form = .finite a m e) (hy : y.form = .finite b n f) :
    x.compare? y = some (compare (Decimal.unit a * m * (2 : ℚ) ^ e) (Decimal.unit b * n * (2 : ℚ) ^ f)) := by
  have hm := inUnits_eq a m (min_le_left e f)
  have hn := inUnits_eq b n (min_le_right e f)
  have hpos : (0 : ℚ) < 2 ^ min e f := by positivity
  have hlt {i j : Int} : i < j ↔ (i : ℚ) * 2 ^ min e f < j * 2 ^ min e f := by
    rw [mul_lt_mul_iff_left₀ hpos, Int.cast_lt]
  rw [compare?, hx, hy]
  dsimp only
  rw [← hm, ← hn]
  exact congrArg some (compare_congr hlt hlt)

/-- Floats are the same if they denote the same. -/
theorem same_iff : x.same y = true ↔ x.form.denoted = y.form.denoted := by
  rw [same, Bool.or_eq_true, Bool.and_eq_true, isNaN_iff, isNaN_iff, beq_iff_eq, compare?]
  cases hx : x.form with
  | nan => cases hy : y.form <;> simp [Form.denoted]
  | infinite a =>
    cases hy : y.form with
    | nan => simp [Form.denoted]
    | infinite b => cases a <;> cases b <;> simp [Form.denoted]
    | finite b n f => cases a <;> simp [Form.denoted]
  | finite a m e =>
    cases hy : y.form with
    | nan => simp [Form.denoted]
    | infinite b => cases b <;> simp [Form.denoted]
    | finite b n f =>
      have hm := inUnits_eq a m (min_le_left e f)
      have hn := inUnits_eq b n (min_le_right e f)
      have hpos : (2 : ℚ) ^ min e f ≠ 0 := zpow_ne_zero _ two_ne_zero
      simp only [Option.some.injEq, reduceCtorEq, false_and, or_false, Form.denoted, Sum.inr.injEq, ← hm, ← hn,
        mul_left_inj' hpos, Int.cast_inj]
      exact compare_eq_iff_eq

/-! ### Canonical parts -/

/-- Mantissa and exponent as patterns have them: of 53 bits, the highest of which is set unless the unit is the least. -/
structure Canonical (m : Nat) (e : Int) : Prop where
  mantissa_lt : m < twoTo 53
  least_le : -1074 ≤ e
  le_most : e ≤ 971
  full : -1074 < e → twoTo 52 ≤ m

theorem canonical_iff :
    Canonical m e ↔ m < 9007199254740992 ∧ -1074 ≤ e ∧ e ≤ 971 ∧ (-1074 < e → 4503599627370496 ≤ m) :=
  ⟨fun h => ⟨h.mantissa_lt, h.least_le, h.le_most, h.full⟩, fun h => ⟨h.1, h.2.1, h.2.2.1, h.2.2.2⟩⟩

/-- The parts of a finite number are canonical, and put together they are the pattern again. -/
theorem parts_of_form (h : x.form = .finite a m e) :
    Canonical m e ∧ x.negative = a ∧ (x.magnitudeBits : Int) = (e + 1074) * 4503599627370496 + m := by
  have hpower : twoTo 52 = 4503599627370496 := rfl
  have hmagnitude : x.magnitudeBits < 9223372036854775808 := Nat.mod_lt _ (by decide)
  rw [form, hpower] at h
  rw [canonical_iff]
  split_ifs at h with hlast hzero hleast
  · obtain ⟨rfl, rfl, rfl⟩ := Form.finite.inj h
    refine ⟨⟨?_, le_rfl, by decide, fun hlt => absurd hlt (lt_irrefl _)⟩, rfl, ?_⟩ <;> omega
  · obtain ⟨rfl, rfl, rfl⟩ := Form.finite.inj h
    refine ⟨⟨?_, ?_, ?_, fun _ => ?_⟩, rfl, ?_⟩ <;> omega

theorem parts_of_infinite (h : x.form = .infinite a) : x.negative = a ∧ x.magnitudeBits = infinityBits := by
  have hinfinity : infinityBits = 9218868437227405312 := rfl
  have hpower : twoTo 52 = 4503599627370496 := rfl
  rw [form, hpower] at h
  split_ifs at h with hlast hzero
  exact ⟨Form.infinite.inj h, by omega⟩

/-- A pattern is its sign and its magnitude. -/
theorem eq_of_parts (hsign : x.negative = y.negative) (hmagnitude : x.magnitudeBits = y.magnitudeBits) : x = y := by
  have hx := x.bits.toNat_lt
  have hy := y.bits.toNat_lt
  have hpower : twoTo 63 = 9223372036854775808 := rfl
  rw [negative, negative, hpower, Bool.eq_iff_iff, beq_iff_eq, beq_iff_eq] at hsign
  rw [magnitudeBits, magnitudeBits, hpower] at hmagnitude
  have hbits : x.bits.toNat = y.bits.toNat := by omega
  cases x
  cases y
  congr 1
  exact UInt64.toNat_inj.mp hbits

/-- Of two numbers the one with the coarser unit is greater. -/
theorem Canonical.lt_of_exponent_lt (hm : Canonical m e) (hn : Canonical n f) (h : e < f) :
    (m : ℚ) * 2 ^ e < n * 2 ^ f := by
  have hmantissa : (m : ℚ) < 2 ^ 53 := by exact_mod_cast hm.mantissa_lt
  have hfull : (2 : ℚ) ^ 52 ≤ n := by exact_mod_cast hn.full (hm.least_le.trans_lt h)
  calc (m : ℚ) * 2 ^ e < 2 ^ 53 * 2 ^ e := mul_lt_mul_of_pos_right hmantissa (by positivity)
    _ = 2 ^ 52 * 2 ^ (e + 1) := by
      rw [zpow_add_one₀ two_ne_zero]
      ring
    _ ≤ 2 ^ 52 * 2 ^ f := mul_le_mul_of_nonneg_left (zpow_le_zpow_right₀ one_le_two h) (by positivity)
    _ ≤ n * 2 ^ f := mul_le_mul_of_nonneg_right hfull (by positivity)

/-- The value determines both parts. -/
theorem Canonical.eq_of_value (hm : Canonical m e) (hn : Canonical n f) (h : (m : ℚ) * 2 ^ e = n * 2 ^ f) :
    m = n ∧ e = f := by
  obtain hlt | rfl | hgt := lt_trichotomy e f
  · exact absurd h (hm.lt_of_exponent_lt hn hlt).ne
  · exact ⟨by exact_mod_cast mul_right_cancel₀ (zpow_ne_zero e two_ne_zero) h, rfl⟩
  · exact absurd h (hn.lt_of_exponent_lt hm hgt).ne'

/-! ### Integers -/

/-- The pattern of canonical parts has them again. -/
theorem form_ofSignBits (a : Bool) (h : Canonical m e) :
    (ofSignBits a ((e + 1074).toNat * twoTo 52 + m)).form = .finite a m e := by
  obtain ⟨hlt, hleast, hmost, hfull⟩ := canonical_iff.mp h
  have hpower : twoTo 52 = 4503599627370496 := rfl
  have hsign : twoTo 63 = 9223372036854775808 := rfl
  have hbits : (ofSignBits a ((e + 1074).toNat * twoTo 52 + m)).bits.toNat =
      (if a then twoTo 63 else 0) + ((e + 1074).toNat * twoTo 52 + m) := by
    rw [ofSignBits, UInt64.toNat_ofNat']
    refine Nat.mod_eq_of_lt ?_
    rw [hpower, hsign]
    split <;> omega
  rw [hpower, hsign] at hbits
  have hnegative : (ofSignBits a ((e + 1074).toNat * twoTo 52 + m)).negative = a := by
    rw [negative, hpower, hbits, hsign]
    cases a <;> simp <;> omega
  have hmagnitude : (ofSignBits a ((e + 1074).toNat * twoTo 52 + m)).magnitudeBits = (e + 1074).toNat * 4503599627370496 + m := by
    rw [magnitudeBits, hpower, hbits, hsign]
    split <;> omega
  rw [form, hnegative, hmagnitude, hpower]
  generalize hpattern : (e + 1074).toNat * 4503599627370496 + m = pattern
  split_ifs with hlast hzero hfirst
  · omega
  · omega
  · have hexponent : e = -1074 := by omega
    have hmantissa : pattern % 4503599627370496 = m := by omega
    rw [hexponent, hmantissa]
  · have hexponent : ((pattern / 4503599627370496 : Nat) : Int) - 1075 = e := by omega
    have hmantissa : 4503599627370496 + pattern % 4503599627370496 = m := by omega
    rw [hexponent, hmantissa]

/-- How far the bits of an integer reach, in units that leave it `k` of them. -/
theorem shifted_bounds (hpos : 0 < n) (k : Nat) :
    twoTo k * twoTo ((n.log2 : Int) - k).toNat ≤ n * twoTo (k - (n.log2 : Int)).toNat ∧
      n * twoTo (k - (n.log2 : Int)).toNat < twoTo (k + 1) * twoTo ((n.log2 : Int) - k).toNat := by
  have hlow : twoTo n.log2 ≤ n := Nat.log2_self_le hpos.ne'
  have hhigh : n < twoTo (n.log2 + 1) := Nat.lt_log2_self
  have hsplit (j : Nat) : twoTo (k + j) * twoTo ((n.log2 : Int) - k).toNat =
      twoTo (n.log2 + j) * twoTo (k - (n.log2 : Int)).toNat := by
    simp only [twoTo, Nat.pow_eq, ← pow_add]
    congr 1
    omega
  have hzero := hsplit 0
  rw [Nat.add_zero, Nat.add_zero] at hzero
  rw [hzero, hsplit 1]
  exact ⟨Nat.mul_le_mul_right _ hlow, Nat.mul_lt_mul_of_pos_right hhigh (Nat.pow_pos (by decide))⟩

theorem unitExponent_one (hpos : 0 < n) (hlt : n < twoTo 64) : unitExponent n 1 = (n.log2 : Int) - 52 := by
  have hbits : n.log2 < 64 := (Nat.log2_lt hpos.ne').mpr hlt
  have hone : Nat.log2 1 = 0 := by decide
  have hleast : max ((n.log2 : Int) - (0 : Nat) - 53) (-1074) = n.log2 - (53 : Nat) := by omega
  have hflip : -((n.log2 : Int) - (53 : Nat)) = (53 : Nat) - (n.log2 : Int) := by omega
  have hback : -(((53 : Nat) : Int) - n.log2) = n.log2 - (53 : Nat) := by omega
  unfold unitExponent
  simp only [hone, hleast, hflip, scaled, hback, Nat.mul_one]
  rw [if_neg]
  · omega
  · rw [not_lt]
    exact (Nat.le_div_iff_mul_le (Nat.pow_pos (by decide : 0 < 2))).mpr (shifted_bounds hpos 53).1

theorem halfEven_bounds (n d : Nat) : n / d ≤ Rounding.halfEven.divide n d ∧ Rounding.halfEven.divide n d ≤ n / d + 1 := by
  rw [Rounding.divide]
  split_ifs <;> omega

/-- A mantissa that rounding made one bit too long is carried into the exponent. -/
theorem form_of_carry (a : Bool) (hlow : twoTo 52 ≤ m) (hhigh : m ≤ twoTo 53) (hleast : -1074 ≤ e) (hmost : e < 971) :
    ∃ n f, (ofSignBits a (min ((e + 1074).toNat * twoTo 52 + m) infinityBits)).form = .finite a n f ∧
      (n : ℚ) * 2 ^ f = m * 2 ^ e := by
  have hfinite : (e + 1074).toNat * twoTo 52 + m ≤ infinityBits := by
    have hinfinity : infinityBits = 9218868437227405312 := rfl
    have hpower : twoTo 52 = 4503599627370496 := rfl
    have hnext : twoTo 53 = 9007199254740992 := rfl
    rw [hinfinity, hpower]
    rw [hnext] at hhigh
    omega
  rw [Nat.min_eq_left hfinite]
  obtain hlt | rfl := Nat.lt_or_eq_of_le hhigh
  · exact ⟨m, e, form_ofSignBits a ⟨hlt, hleast, hmost.le, fun _ => hlow⟩, rfl⟩
  · have hcarry : (e + 1074).toNat * twoTo 52 + twoTo 53 = (e + 1 + 1074).toNat * twoTo 52 + twoTo 52 := by
      have hexponent : (e + 1 + 1074).toNat = (e + 1074).toNat + 1 := by omega
      have hdouble : twoTo 53 = twoTo 52 + twoTo 52 := rfl
      rw [hexponent, Nat.add_mul, Nat.one_mul, hdouble, Nat.add_assoc]
    have hcanonical : Canonical (twoTo 52) (e + 1) := ⟨by decide, by omega, by omega, fun _ => le_rfl⟩
    refine ⟨twoTo 52, e + 1, by rw [hcarry]; exact form_ofSignBits a hcanonical, ?_⟩
    rw [zpow_add_one₀ two_ne_zero, cast_twoTo, cast_twoTo]
    ring

/-- The 53 bits that an integer is rounded to. -/
def significand (n : Nat) : Nat :=
  Rounding.halfEven.divide (n * twoTo ((52 : Nat) - (n.log2 : Int)).toNat) (twoTo ((n.log2 : Int) - (52 : Nat)).toNat)

theorem ofRatio_one (a : Bool) (hpos : 0 < n) (hlt : n < twoTo 64) : ofRatio a n 1 =
    ofSignBits a (min (((n.log2 : Int) - (52 : Nat) + 1074).toNat * twoTo 52 + significand n) infinityBits) := by
  have hflip : -((n.log2 : Int) - (52 : Nat)) = (52 : Nat) - (n.log2 : Int) := by omega
  have hback : -(((52 : Nat) : Int) - n.log2) = n.log2 - (52 : Nat) := by omega
  have hcast : (n.log2 : Int) - 52 = n.log2 - (52 : Nat) := rfl
  rw [ofRatio, if_neg hpos.ne', unitExponent_one hpos hlt, hcast, significand]
  simp only [hflip, scaled, hback, Nat.mul_one]

theorem significand_bounds (hpos : 0 < n) : twoTo 52 ≤ significand n ∧ significand n ≤ twoTo 53 := by
  have hunit : 0 < twoTo ((n.log2 : Int) - (52 : Nat)).toNat := Nat.pow_pos (by decide)
  obtain ⟨hlow, hhigh⟩ := shifted_bounds hpos 52
  obtain ⟨hdown, hup⟩ := halfEven_bounds (n * twoTo ((52 : Nat) - (n.log2 : Int)).toNat) (twoTo ((n.log2 : Int) - (52 : Nat)).toNat)
  exact ⟨((Nat.le_div_iff_mul_le hunit).mpr hlow).trans hdown, hup.trans ((Nat.div_lt_iff_lt_mul hunit).mpr hhigh)⟩

/-- Nothing is rounded if the unit divides the integer, as it does one of at most 53 bits and the first one of 54. -/
theorem significand_mul (hpos : 0 < n) (hle : n ≤ 9007199254740992) :
    (significand n : ℚ) * 2 ^ ((n.log2 : Int) - (52 : Nat)) = n := by
  have hflip : -((n.log2 : Int) - (52 : Nat)) = (52 : Nat) - (n.log2 : Int) := by omega
  have hunit : 0 < twoTo ((n.log2 : Int) - (52 : Nat)).toNat := Nat.pow_pos (by decide)
  have hdvd : twoTo ((n.log2 : Int) - (52 : Nat)).toNat ∣ n * twoTo ((52 : Nat) - (n.log2 : Int)).toNat := by
    obtain hless | rfl := Nat.lt_or_eq_of_le hle
    · have hbits : n.log2 < 53 := (Nat.log2_lt hpos.ne').mpr hless
      rw [Int.toNat_of_nonpos (by omega)]
      exact one_dvd _
    · decide
  obtain ⟨q, hq⟩ := hdvd
  rw [significand, hq, Nat.mul_comm, Rounding.divide_mul_self _ _ hunit, zpow_eq_div two_ne_zero, hflip, mul_div_assoc',
    div_eq_iff (by positivity), ← cast_twoTo, ← cast_twoTo, mul_comm]
  exact_mod_cast hq.symm

/-- The float of an integer is that integer up to 53 bits, and no less than the first of 54 bits beyond. -/
theorem form_ofRatio_one (a : Bool) (hpos : 0 < n) (hlt : n < twoTo 64) : ∃ m e, (ofRatio a n 1).form = .finite a m e ∧
    (n ≤ 9007199254740992 → (m : ℚ) * 2 ^ e = n) ∧ (9007199254740992 ≤ n → (9007199254740992 : ℚ) ≤ m * 2 ^ e) := by
  have hbits : n.log2 < 64 := (Nat.log2_lt hpos.ne').mpr hlt
  obtain ⟨hlow, hhigh⟩ := significand_bounds hpos
  obtain ⟨m, e, hform, hvalue⟩ := form_of_carry a hlow hhigh (e := n.log2 - (52 : Nat)) (by omega) (by omega)
  refine ⟨m, e, ofRatio_one a hpos hlt ▸ hform, fun hle => hvalue.trans (significand_mul hpos hle), fun hlarge => ?_⟩
  have hexponent : 1 ≤ (n.log2 : Int) - (52 : Nat) := by
    have hbits : 53 ≤ n.log2 := (Nat.le_log2 hpos.ne').mpr hlarge
    omega
  have hunit : (2 : ℚ) ≤ 2 ^ ((n.log2 : Int) - (52 : Nat)) :=
    (zpow_one (2 : ℚ)).ge.trans (zpow_le_zpow_right₀ one_le_two hexponent)
  have hmantissa : (4503599627370496 : ℚ) ≤ significand n := by exact_mod_cast hlow
  rw [hvalue]
  calc (9007199254740992 : ℚ) = 4503599627370496 * 2 := by norm_num
    _ ≤ _ := mul_le_mul hmantissa hunit two_pos.le (Nat.cast_nonneg _)

end Conform.Binary64

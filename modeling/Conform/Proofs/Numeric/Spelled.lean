import Conform.Numeric.Decimal.Binary
import Conform.Proofs.Numeric.Numeral
import Conform.Proofs.Numeric.Shortest

/-! Floats as decimals. A float is read from its text as the number that the text spells, if 28 places hold it; what is
    too large is not read. -/

namespace Conform

open Binary64 (Digits10 Canonical shortest positionalText)

/-! ### Numbers and infinities -/

/-- The rational numbers between two infinities. -/
abbrev Extended := WithBot (WithTop ℚ)

namespace Extended

def ofRat (q : ℚ) : Extended := ((q : WithTop ℚ) : WithBot (WithTop ℚ))

variable {p q : ℚ}

theorem ofRat_lt : ofRat p < ofRat q ↔ p < q := by simp [ofRat]

theorem ofRat_inj : ofRat p = ofRat q ↔ p = q := by simp [ofRat]

theorem bot_lt_ofRat (q : ℚ) : ⊥ < ofRat q := WithBot.bot_lt_coe _

theorem ofRat_lt_top (q : ℚ) : ofRat q < ⊤ := WithBot.coe_lt_coe.mpr (WithTop.coe_lt_top _)

theorem compare_ofRat (p q : ℚ) : compare (ofRat p) (ofRat q) = compare p q := Binary64.compare_congr ofRat_lt ofRat_lt

end Extended

/-! ### The digits of a float -/

/-- The digits that a finite number is written with; zero has one of its own. -/
def Binary64.spelled (m : Nat) (e : Int) : Digits10 := if m = 0 then ⟨0, 0⟩ else shortest .up m e

/-- The digits of a number with their point and without an exponent. -/
def Binary64.Digits10.text (s : Digits10) : List Char :=
  positionalText [] (Digits.ofNat s.coefficient) (s.exponent + (Digits.ofNat s.coefficient).length)

variable {x y : Binary64} {a b : Bool} {m n : Nat} {e f : Int}

theorem Binary64.text_of_finite (h : x.form = .finite a m e) :
    Binary64.plain.text x = (if a then ['-'] else []) ++ (spelled m e).text := by
  rw [Layout.text, h, spelled]
  by_cases hm : m = 0
  · cases a <;> simp [hm, Digits10.text, plain, positionalText, Digits.ofNat]
  · cases a <;> simp [hm, Digits10.text, plain]

namespace Numeral

/-- There is a numeral with a given sign and given digits: zeros stand before a leading point or behind the digits. -/
theorem exists_of_digits (a : Bool) (s : Digits10) : ∃ n : Numeral, n.sign.negative = a ∧ n.digits ≠ [] ∧
    n.sign.chars ++ n.body = (if a then ['-'] else []) ++ s.text ∧
      n.fraction.length = (-s.exponent).toNat ∧ Digits.toNat n.digits = s.coefficient * tenTo s.exponent.toNat := by
  have hne : Digits.ofNat s.coefficient ≠ [] := Digits.ofNat_ne_nil
  have hdigits : ∀ c ∈ Digits.ofNat s.coefficient, c.isDigit = true := fun _ => Digits.isDigit_of_mem_ofNat
  have hnumber : Digits.toNat (Digits.ofNat s.coefficient) = s.coefficient := Digits.toNat_ofNat _
  have hzeros (k : Nat) : ∀ c ∈ List.replicate k '0', c.isDigit = true := fun c hc => (List.eq_of_mem_replicate hc) ▸ rfl
  obtain ⟨sign, hsign, hmark⟩ : ∃ sign : Sign, sign.negative = a ∧ sign.chars = if a then ['-'] else [] :=
    ⟨if a then .minus else .none, by cases a <;> exact ⟨rfl, rfl⟩⟩
  have hlength : 0 < (Digits.ofNat s.coefficient).length := List.length_pos_of_ne_nil hne
  rw [← hmark, Digits10.text, positionalText]
  -- The point stands before all digits, behind all of them, or among them.
  generalize Digits.ofNat s.coefficient = ds at *
  split
  next hpoint =>
    let n : Numeral := ⟨sign, ⟨['0'], by simp⟩,
      some ⟨List.replicate (-(s.exponent + ds.length)).toNat '0' ++ ds, List.forall_mem_append.mpr ⟨hzeros _, hdigits⟩⟩, none⟩
    have hone : tenTo s.exponent.toNat = 1 := by rw [Int.toNat_of_nonpos (by omega)]
    refine ⟨n, hsign, List.cons_ne_nil _ _, rfl, ?_, ?_⟩
    · simp only [n, fraction, Option.map_some, Option.getD_some, List.length_append, List.length_replicate]
      omega
    · simp only [n, digits, fraction, Option.map_some, Option.getD_some, Digits.toNat_append, Digits.toNat_zeros, hnumber, hone]
      simp [Digits.toNat, Digits.value]
  next hpoint =>
    split
    next hwhole =>
      let n : Numeral := ⟨sign,
        ⟨ds ++ List.replicate ((s.exponent + ds.length).toNat - ds.length) '0', List.forall_mem_append.mpr ⟨hdigits, hzeros _⟩⟩,
        none, none⟩
      have hplaces : (s.exponent + ds.length).toNat - ds.length = s.exponent.toNat := by omega
      refine ⟨n, hsign, ?_, rfl, ?_, ?_⟩
      · simp [n, digits, hne]
      · simp only [n, fraction, Option.map_none, Option.getD_none, List.length_nil]
        omega
      · simp only [n, digits, fraction, Option.map_none, Option.getD_none, List.append_nil, Digits.toNat_append,
          Digits.toNat_zeros, hnumber, List.length_replicate, hplaces, Nat.add_zero]
        exact Nat.mul_comm ..
    next hinside =>
      let n : Numeral := ⟨sign,
        ⟨ds.take (s.exponent + ds.length).toNat, fun c hc => hdigits c (List.mem_of_mem_take hc)⟩,
        some ⟨ds.drop (s.exponent + ds.length).toNat, fun c hc => hdigits c (List.mem_of_mem_drop hc)⟩, none⟩
      have hall : n.digits = ds := List.take_append_drop _ _
      have hone : tenTo s.exponent.toNat = 1 := by rw [Int.toNat_of_nonpos (by omega)]
      refine ⟨n, hsign, hall ▸ hne, rfl, ?_, by rw [hall, hnumber, hone, Nat.mul_one]⟩
      simp only [n, fraction, Option.map_some, Option.getD_some, List.length_drop]
      omega

end Numeral

/-! ### The decimal of a float -/

namespace Binary64

theorem coefficient_spelled_lt (hm : Canonical m e) : (spelled m e).coefficient < twoTo 96 := by
  have hlimit : 10 ^ 17 < twoTo 96 := by decide
  rw [spelled]
  split
  · exact Nat.pow_pos (by decide)
  next hne => exact ((shortest_spec .up hm (Nat.pos_of_ne_zero hne)).2.2).trans_lt hlimit

theorem value_digits (s : Digits10) : s.value = (s.coefficient * tenTo s.exponent.toNat : Nat) / 10 ^ (-s.exponent).toNat := by
  rw [Digits10.value, zpow_eq_div (by norm_num), Nat.cast_mul, Decimal.cast_tenTo, mul_div_assoc]

/-- A float is the decimal that its digits spell if 28 places hold them, unless the digits before the point are too many. -/
theorem ofBinary64?_of_finite (h : x.form = .finite a m e) (hplaces : -28 ≤ (spelled m e).exponent) :
    Decimal.ofBinary64? x = if (spelled m e).coefficient * tenTo (spelled m e).exponent.toNat < twoTo 96 then
      Decimal.unsignedZero? a ((spelled m e).coefficient * tenTo (spelled m e).exponent.toNat) (-(spelled m e).exponent).toNat
    else none := by
  obtain ⟨hm, -, hmagnitude⟩ := parts_of_form h
  have hfinite : x.isFinite = true := by
    have hinfinity : infinityBits = 9218868437227405312 := rfl
    obtain ⟨hlt, -, hmost, -⟩ := canonical_iff.mp hm
    rw [isFinite, decide_eq_true_eq, hinfinity]
    omega
  obtain ⟨n, hsign, hne, hchars, hfraction, hnumber⟩ := Numeral.exists_of_digits a (spelled m e)
  rw [Decimal.ofBinary64?, if_pos hfinite, text_of_finite h, ← hchars, ← hnumber]
  split
  next hfit =>
    rw [Numeral.ofPlain?_of_fit hfit (by omega), if_neg (by simpa using hne), hsign, hfraction]
  next hlong =>
    -- Only zeros behind the digits make a number too long, and then there are no places.
    have hexponent : 0 < (spelled m e).exponent := by
      by_contra hexponent
      have hone : tenTo (spelled m e).exponent.toNat = 1 := by rw [Int.toNat_of_nonpos (by omega)]
      rw [hnumber, hone, Nat.mul_one] at hlong
      exact hlong (coefficient_spelled_lt hm)
    have hnone : n.fraction = [] := List.eq_nil_of_length_eq_zero (by omega)
    rw [Numeral.digits, hnone, List.append_nil, not_lt] at hlong
    rw [Decimal.ofPlain?_eq, Numeral.signed_base, Numeral.body]
    exact Decimal.read_whole_eq_none n.whole.isDigit hlong (by decide)

/-- What is no number is no decimal. -/
theorem ofBinary64?_eq_none (h : ∀ a m e, x.form ≠ .finite a m e) : Decimal.ofBinary64? x = none := by
  have hfinite : ¬x.isFinite = true := by
    rw [isFinite, decide_eq_true_eq, not_lt]
    cases hform : x.form with
    | nan => exact (of_decide_eq_true (isNaN_iff.mpr hform)).le
    | infinite a => exact (parts_of_infinite hform).2.ge
    | finite a m e => exact absurd hform (h a m e)
  rw [Decimal.ofBinary64?, if_neg hfinite]

/-- What a float is read as is the number that its digits spell. -/
theorem value_of_ofBinary64? (h : x.form = .finite a m e) (hplaces : -28 ≤ (spelled m e).exponent) :
    (∀ d, Decimal.ofBinary64? x = some d → d.value = Decimal.unit a * (spelled m e).value) ∧
      ((spelled m e).value < 2 ^ 96 → ∃ d, Decimal.ofBinary64? x = some d) := by
  rw [ofBinary64?_of_finite h hplaces]
  constructor
  · intro d hd
    rw [Option.ite_none_right_eq_some] at hd
    rw [value_digits, (Decimal.value_of_unsignedZero? hd.2).1]
  · intro hlt
    have hfit : (spelled m e).coefficient * tenTo (spelled m e).exponent.toNat < twoTo 96 := by
      obtain hexponent | hexponent := le_total 0 (spelled m e).exponent
      · have hnone : (-(spelled m e).exponent).toNat = 0 := Int.toNat_of_nonpos (by omega)
        rw [value_digits, hnone, pow_zero, div_one] at hlt
        exact_mod_cast hlt
      · rw [Int.toNat_of_nonpos hexponent]
        exact (Nat.mul_one _).trans_lt (coefficient_spelled_lt (parts_of_form h).1)
    rw [if_pos hfit]
    exact Decimal.unsignedZero?_isSome hfit (by omega)

/-- How many places a float is written with. -/
def places (x : Binary64) : Nat :=
  match x.form with
  | .finite _ m e => (-(spelled m e).exponent).toNat
  | _ => 0

/-! ### Order -/

theorem value_spelled_zero (e : Int) : (spelled 0 e).value = 0 := by simp [spelled, Digits10.value]

theorem value_spelled_pos (hm : Canonical m e) (hpos : 0 < m) : 0 < (spelled m e).value := by
  rw [spelled, if_neg hpos.ne']
  exact (shortest_spec .up hm hpos).2.1

theorem value_spelled_nonneg (hm : Canonical m e) : 0 ≤ (spelled m e).value := by
  obtain rfl | hpos := Nat.eq_zero_or_pos m
  · exact (value_spelled_zero e).ge
  · exact (value_spelled_pos hm hpos).le

theorem value_spelled_lt (hm : Canonical m e) (hn : Canonical n f) (h : (m : ℚ) * 2 ^ e < n * 2 ^ f) :
    (spelled m e).value < (spelled n f).value := by
  have hnpos : 0 < n := by
    refine Nat.pos_of_ne_zero fun hzero => ?_
    rw [hzero, Nat.cast_zero, zero_mul] at h
    exact h.not_ge (by positivity)
  obtain rfl | hmpos := Nat.eq_zero_or_pos m
  · rw [value_spelled_zero]
    exact value_spelled_pos hn hnpos
  · rw [spelled, spelled, if_neg hmpos.ne', if_neg hnpos.ne']
    exact Within.lt hm hn h (shortest_spec .up hm hmpos).1 (shortest_spec .up hn hnpos).1

/-- The number that a float is written as is positive, negative or zero as the float is, and in the order of floats. -/
theorem signed_spelled_lt (hm : Canonical m e) (hn : Canonical n f) (h : Decimal.unit a * m * (2 : ℚ) ^ e < Decimal.unit b * n * 2 ^ f) :
    Decimal.unit a * (spelled m e).value < Decimal.unit b * (spelled n f).value := by
  have hmnonneg := value_spelled_nonneg hm
  have hnnonneg := value_spelled_nonneg hn
  have hmsize : (0 : ℚ) ≤ m * 2 ^ e := by positivity
  have hnsize : (0 : ℚ) ≤ n * 2 ^ f := by positivity
  rw [mul_assoc, mul_assoc] at h
  cases a <;> cases b <;> simp only [Decimal.unit, Bool.false_eq_true, if_false, if_true, one_mul, neg_one_mul] at h ⊢
  · exact value_spelled_lt hm hn h
  · linarith
  · obtain hmzero | hmpos := Nat.eq_zero_or_pos m
    · obtain hnzero | hnpos := Nat.eq_zero_or_pos n
      · simp [hmzero, hnzero] at h
      · linarith [value_spelled_pos hn hnpos]
    · linarith [value_spelled_pos hm hmpos]
  · exact neg_lt_neg (value_spelled_lt hn hm (neg_lt_neg_iff.mp h))

theorem signed_spelled_eq (hm : Canonical m e) (hn : Canonical n f) (h : Decimal.unit a * m * (2 : ℚ) ^ e = Decimal.unit b * n * 2 ^ f) :
    Decimal.unit a * (spelled m e).value = Decimal.unit b * (spelled n f).value := by
  have hsize : (m : ℚ) * 2 ^ e = n * 2 ^ f := by
    have hleft : (0 : ℚ) ≤ m * 2 ^ e := by positivity
    have hright : (0 : ℚ) ≤ n * 2 ^ f := by positivity
    rw [mul_assoc, mul_assoc] at h
    rw [← abs_of_nonneg hleft, ← abs_of_nonneg hright, ← Decimal.abs_unit_mul a, h, Decimal.abs_unit_mul]
  obtain ⟨rfl, rfl⟩ := hm.eq_of_value hn hsize
  obtain rfl | hpos := Nat.eq_zero_or_pos m
  · rw [value_spelled_zero, mul_zero, mul_zero]
  · rw [mul_assoc, mul_assoc] at h
    rw [(Decimal.eq_of_unit_mul (by positivity) (by positivity) h).1]

theorem compare_spelled (hm : Canonical m e) (hn : Canonical n f) :
    compare (Decimal.unit a * m * (2 : ℚ) ^ e) (Decimal.unit b * n * 2 ^ f) =
      compare (Decimal.unit a * (spelled m e).value) (Decimal.unit b * (spelled n f).value) := by
  obtain h | h | h := lt_trichotomy (Decimal.unit a * m * (2 : ℚ) ^ e) (Decimal.unit b * n * 2 ^ f)
  · rw [compare_lt_iff_lt.mpr h, compare_lt_iff_lt.mpr (signed_spelled_lt hm hn h)]
  · rw [compare_eq_iff_eq.mpr h, compare_eq_iff_eq.mpr (signed_spelled_eq hm hn h)]
  · rw [compare_gt_iff_gt.mpr h, compare_gt_iff_gt.mpr (signed_spelled_lt hn hm h)]

/-- What a float is written as: a number, or one of the infinities, which lie beyond all numbers. -/
def written? (x : Binary64) : Option Extended :=
  match x.form with
  | .nan => none
  | .infinite negative => some (if negative then ⊥ else ⊤)
  | .finite negative m e => some (.ofRat (Decimal.unit negative * (spelled m e).value))

/-- Floats are compared as what they are written as. -/
theorem compare?_eq_written (x y : Binary64) : x.compare? y = x.written?.bind fun p => y.written?.map (compare p) := by
  unfold written?
  cases hx : x.form with
  | nan => simp [compare?, hx]
  | infinite a =>
    cases hy : y.form with
    | nan => simp [compare?, hx, hy]
    | infinite b =>
      rw [compare?, hx, hy]
      cases a <;> cases b
      · exact congrArg some (compare_eq_iff_eq.mpr rfl).symm
      · exact congrArg some (compare_gt_iff_gt.mpr bot_lt_top).symm
      · exact congrArg some (compare_lt_iff_lt.mpr bot_lt_top).symm
      · exact congrArg some (compare_eq_iff_eq.mpr rfl).symm
    | finite b n f =>
      rw [compare?, hx, hy]
      cases a
      · exact congrArg some (compare_gt_iff_gt.mpr (Extended.ofRat_lt_top _)).symm
      · exact congrArg some (compare_lt_iff_lt.mpr (Extended.bot_lt_ofRat _)).symm
  | finite a m e =>
    cases hy : y.form with
    | nan => simp [compare?, hx, hy]
    | infinite b =>
      rw [compare?, hx, hy]
      cases b
      · exact congrArg some (compare_lt_iff_lt.mpr (Extended.ofRat_lt_top _)).symm
      · exact congrArg some (compare_gt_iff_gt.mpr (Extended.bot_lt_ofRat _)).symm
    | finite b n f =>
      rw [compare?_of_finite hx hy, compare_spelled (parts_of_form hx).1 (parts_of_form hy).1, ← Extended.compare_ofRat]
      rfl

/-! ### Integers -/

theorem value_spelled_of_natCast (hm : Canonical m e) (hvalue : (m : ℚ) * 2 ^ e = n) (hpos : 0 < n)
    (hle : n ≤ 9007199254740992) : (spelled m e).value = n := by
  rw [spelled, if_neg (mantissa_pos_of_natCast hvalue hpos).ne']
  exact value_shortest_of_natCast .up hm hvalue hpos hle

/-- An integer of at most 53 bits is written as itself when taken for a float; one beyond is written as a number beyond. -/
theorem written?_ofInt {i : Int} (hlt : i.natAbs < twoTo 64) : ∃ q : ℚ,
    (ofInt i).written? = some (.ofRat (Decimal.unit (decide (i < 0)) * q)) ∧
      (i.natAbs ≤ 9007199254740992 → q = i.natAbs) ∧ (9007199254740992 ≤ i.natAbs → 9007199254740992 ≤ q) := by
  obtain rfl | hne := eq_or_ne i 0
  · refine ⟨0, ?_, fun _ => rfl, fun hle => absurd hle (by decide)⟩
    have hform : (ofInt 0).form = .finite false 0 (-1074) := by decide
    rw [written?, hform]
    simp [value_spelled_zero]
  · have hpos : 0 < i.natAbs := Int.natAbs_pos.mpr hne
    obtain ⟨m, e, hform, hnear, hfar⟩ := form_ofRatio_one (decide (i < 0)) hpos hlt
    have hm := (parts_of_form hform).1
    refine ⟨(spelled m e).value, ?_, fun hle => value_spelled_of_natCast hm (hnear hle) hpos hle, fun hle => ?_⟩
    · rw [ofInt, written?, hform]
    · have hlimit : ((4503599627370496 : Nat) : ℚ) * 2 ^ (1 : Int) = (9007199254740992 : Nat) := by norm_num
      have hfirst := value_spelled_of_natCast canonical_natCast hlimit (by decide) le_rfl
      have hfar := hfar hle
      push_cast at hlimit hfirst
      rw [← hfirst]
      obtain hlt | heq := lt_or_eq_of_le hfar
      · exact (value_spelled_lt canonical_natCast hm (by push_cast; rwa [hlimit])).le
      · obtain ⟨rfl, rfl⟩ := canonical_natCast.eq_of_value hm (by push_cast; rw [hlimit, heq])
        exact le_rfl

end Binary64

end Conform

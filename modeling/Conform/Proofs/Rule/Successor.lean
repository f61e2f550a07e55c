import Conform.Proofs.Rule.Bounds
import Conform.Proofs.Rule.Precision

/-! Lax open bounds. What lies outside an open bound becomes the number that is next to the bound in steps of the
    bound's own last place. Beyond an integer that is the next integer. Beyond a decimal it is the next decimal if one more
    place behind the last one would not fit, and else there are others between. -/

namespace Conform

open Parse

/-! ### Decimals between neighbours -/

namespace Decimal

variable {d e u : Decimal} {s : Nat} {lo : Int} {x : ℚ}

/-- In units of a place that it does not go beyond, a number is whole. -/
theorem exists_units (h : e.scale ≤ s) : ∃ z : ℤ, e.value * 10 ^ s = z := by
  obtain ⟨k, rfl⟩ := Nat.exists_eq_add_of_le h
  refine ⟨e.signed * 10 ^ k, ?_⟩
  rw [value_eq, pow_add]
  push_cast
  field_simp

theorem abs_value_mul (e : Decimal) : |e.value| * 10 ^ e.scale = e.mantissa := by
  rw [abs_value, div_mul_cancel₀ _ (by positivity)]

theorem abs_value_le (e : Decimal) : |e.value| ≤ e.mantissa := by
  rw [abs_value]
  exact div_le_self (by positivity) (one_le_pow₀ (by norm_num))

/-- What lies between neighbours is larger than the smaller of them. -/
theorem min_natAbs_lt (hlow : (lo : ℚ) < x) (hhigh : x < lo + 1) : ((min lo.natAbs (lo + 1).natAbs : Nat) : ℚ) < |x| := by
  obtain ⟨n, hn⟩ : ∃ n, n = min lo.natAbs (lo + 1).natAbs := ⟨_, rfl⟩
  rw [← hn, ← Int.cast_natCast n]
  obtain hneg | hnonneg := lt_or_ge lo 0
  · have hmin : (n : ℤ) = -(lo + 1) := by omega
    calc ((n : ℤ) : ℚ)
      _ = -(lo + 1) := by rw [hmin, Int.cast_neg, Int.cast_add, Int.cast_one]
      _ < -x := neg_lt_neg hhigh
      _ ≤ |x| := neg_le_abs x
  · have hmin : (n : ℤ) = lo := by omega
    calc ((n : ℤ) : ℚ)
      _ = lo := by rw [hmin]
      _ < x := hlow
      _ ≤ |x| := le_abs_self x

/-- Between neighbours lies a decimal if one more place fits behind the smaller of them. -/
theorem exists_between_iff (hs : s ≤ 28) :
    (∃ e : Decimal, (lo : ℚ) < e.value * 10 ^ s ∧ e.value * 10 ^ s < lo + 1) ↔
      s ≠ 28 ∧ 10 * min lo.natAbs (lo + 1).natAbs < twoTo 96 := by
  constructor
  · rintro ⟨e, hlow, hhigh⟩
    -- With no more places it is a whole number of units, and none lies between neighbours.
    have hplaces : s < e.scale := by
      by_contra hle
      obtain ⟨z, hz⟩ := exists_units (Nat.le_of_not_lt hle)
      rw [hz] at hlow hhigh
      have hlow : lo < z := by exact_mod_cast hlow
      have hhigh : z < lo + 1 := by exact_mod_cast hhigh
      omega
    refine ⟨(hplaces.trans_le e.scale_le).ne, ?_⟩
    have hsize := min_natAbs_lt hlow hhigh
    rw [abs_mul, abs_of_pos (a := (10 : ℚ) ^ s) (by positivity)] at hsize
    have hmantissa : 10 * ((min lo.natAbs (lo + 1).natAbs : Nat) : ℚ) < e.mantissa :=
      calc 10 * ((min lo.natAbs (lo + 1).natAbs : Nat) : ℚ)
        _ < 10 * (|e.value| * 10 ^ s) := mul_lt_mul_of_pos_left hsize (by norm_num)
        _ = |e.value| * 10 ^ (s + 1) := by rw [pow_succ]; ring
        _ ≤ |e.value| * 10 ^ e.scale :=
          mul_le_mul_of_nonneg_left (pow_le_pow_right₀ (by norm_num) hplaces) (abs_nonneg _)
        _ = e.mantissa := e.abs_value_mul
    have hmantissa : 10 * min lo.natAbs (lo + 1).natAbs < e.mantissa := by exact_mod_cast hmantissa
    exact hmantissa.trans e.mantissa_lt
  -- One more digit behind the neighbour that is nearer to zero.
  · rintro ⟨hne, hfit⟩
    have hbits : twoTo 96 = 79228162514264337593543950336 := rfl
    have hunit (x : ℚ) : x / 10 ^ (s + 1) * 10 ^ s = x / 10 := by
      rw [pow_succ]
      field_simp
    obtain hneg | hnonneg := lt_or_ge lo 0
    · refine ⟨⟨true, 10 * (lo + 1).natAbs + 1, s + 1, by omega, by omega⟩, ?_⟩
      have hcast : ((lo + 1).natAbs : ℚ) = -(lo + 1) := by
        rw [Nat.cast_natAbs, abs_of_nonpos (by omega)]
        push_cast
        ring
      simp only [value, unit, if_true, mul_assoc, hunit]
      push_cast [hcast]
      constructor <;> linarith
    · refine ⟨⟨false, 10 * lo.natAbs + 1, s + 1, by omega, by omega⟩, ?_⟩
      have hcast : (lo.natAbs : ℚ) = lo := by rw [Nat.cast_natAbs, abs_of_nonneg hnonneg]
      simp only [value, unit, Bool.false_eq_true, if_false, mul_assoc, hunit]
      push_cast [hcast]
      constructor <;> linarith

/-- No decimal lies between the last one of a scale and the first one after it. -/
theorem not_between_full (hs : 0 < s) (hlow : 79228162514264337593543950335 < |e.value| * 10 ^ s) :
    79228162514264337593543950340 ≤ |e.value| * 10 ^ s := by
  have hrange := e.mantissa_lt
  have hbits : twoTo 96 = 79228162514264337593543950336 := rfl
  obtain hle | hlt := le_or_gt s e.scale
  · have hmantissa : (79228162514264337593543950335 : ℚ) < e.mantissa :=
      calc (79228162514264337593543950335 : ℚ)
        _ < |e.value| * 10 ^ s := hlow
        _ ≤ |e.value| * 10 ^ e.scale := mul_le_mul_of_nonneg_left (pow_le_pow_right₀ (by norm_num) hle) (abs_nonneg _)
        _ = e.mantissa := e.abs_value_mul
    have hmantissa : 79228162514264337593543950335 < e.mantissa := by exact_mod_cast hmantissa
    omega
  · obtain ⟨k, rfl⟩ := Nat.exists_eq_add_of_lt hlt
    have hunits : |e.value| * 10 ^ (e.scale + k + 1) = (e.mantissa * 10 ^ k * 10 : Nat) := by
      rw [Nat.add_assoc, pow_add, ← mul_assoc, abs_value_mul, pow_succ]
      push_cast
      ring
    rw [hunits] at hlow ⊢
    have hlow : 79228162514264337593543950335 < e.mantissa * 10 ^ k * 10 := by exact_mod_cast hlow
    have hhigh : 79228162514264337593543950340 ≤ e.mantissa * 10 ^ k * 10 := by omega
    exact_mod_cast hhigh

end Decimal

/-! ### What is next to a bound -/

/-- The way that leads beyond an open bound. -/
def Keyword.direction (k : Keyword) : Int := if k = .gt then 1 else -1

namespace Value

/-- The places behind the point of a number as it is stored. -/
def places : Value → Nat
  | .decimal d => d.scale
  | _ => 0

/-- Whether one more place fits neither behind a bound nor behind the number next to it. -/
def IsFine (k : Keyword) : Value → Prop
  | .decimal d => d.scale = 28 ∨ twoTo 96 ≤ 10 * min d.signed.natAbs (d.signed + k.direction).natAbs
  | _ => True

/-- A number is next to a bound in steps of the bound's last place, and next of all if the bound is fine. -/
structure Next (k : Keyword) (b : Value) (p q : ℚ) : Prop where
  beyond : k.Bounds p q
  coarse : ∀ y, b.kind.Holds y → k.Bounds p y → k.Bounds y q → ¬Keyword.decimalPlaces.Precise b.places y
  nearest_iff : (∀ y, b.kind.Holds y → k.Bounds p y → ¬k.Bounds y q) ↔ b.IsFine k

end Value

theorem Kind.holds_decimal {y : ℚ} : Kind.decimal.Holds y ↔ ∃ e : Decimal, e.value = y := by
  constructor
  · rintro ⟨u, hu, hnumber⟩
    cases u with
    | decimal e => exact ⟨e, Option.some.inj hnumber⟩
    | _ => cases hu
  · rintro ⟨e, rfl⟩
    exact ⟨.decimal e, rfl, rfl⟩

theorem Kind.holds_int {y : ℚ} : Kind.int.Holds y ↔ ∃ i : Int64, (i.toInt : ℚ) = y := by
  constructor
  · rintro ⟨u, hu, hnumber⟩
    cases u with
    | int i => exact ⟨i, Option.some.inj hnumber⟩
    | _ => cases hu
  · rintro ⟨i, rfl⟩
    exact ⟨.int i, rfl, rfl⟩

namespace Keyword

variable {k : Keyword} {a : Int} {x y c : ℚ}

/-- A bound that its own number is not within. -/
abbrev IsOpen (k : Keyword) : Prop := k = .gt ∨ k = .lt

theorem IsOpen.direction (hk : k.IsOpen) : k.direction = 1 ∨ k.direction = -1 := by
  rcases hk with rfl | rfl
  · exact .inl rfl
  · exact .inr rfl

theorem IsOpen.bounds_iff (hk : k.IsOpen) : k.Bounds x y ↔ (k.direction : ℚ) * x < k.direction * y := by
  rcases hk with rfl | rfl <;> simp [Bounds, Keyword.direction]

theorem IsOpen.abs_of_pos (hk : k.IsOpen) (h : 0 < (k.direction : ℚ) * x) : |x| = k.direction * x := by
  rw [← abs_of_nonneg h.le, abs_mul]
  rcases hk.direction with hone | hone <;> simp [hone]

theorem IsOpen.bounds_mul_iff (hk : k.IsOpen) (hc : 0 < c) : k.Bounds (x * c) (y * c) ↔ k.Bounds x y := by
  rcases hk with rfl | rfl <;> exact mul_lt_mul_iff_left₀ hc

theorem IsOpen.bounds_step (hk : k.IsOpen) : k.Bounds a (a + k.direction : Int) := by
  rcases hk with rfl | rfl <;> simp [Bounds, Keyword.direction]

/-- Between an integer and the next one is between neighbours. -/
theorem IsOpen.between_iff (hk : k.IsOpen) : k.Bounds a x ∧ k.Bounds x (a + k.direction : Int) ↔
    ((min a (a + k.direction) : Int) : ℚ) < x ∧ x < (min a (a + k.direction) : Int) + 1 := by
  rcases hk with rfl | rfl
  · have hmin : min a (a + gt.direction) = a := by
      show min a (a + 1) = a
      omega
    rw [hmin]
    simp [Bounds, Keyword.direction]
  · have hmin : min a (a + lt.direction) = a - 1 := by
      show min a (a + -1) = a - 1
      omega
    rw [hmin, and_comm]
    simp [Bounds, Keyword.direction, sub_eq_add_neg]

theorem IsOpen.min_natAbs (hk : k.IsOpen) :
    min (min a (a + k.direction)).natAbs (min a (a + k.direction) + 1).natAbs = min a.natAbs (a + k.direction).natAbs := by
  rcases hk.direction with h | h <;> rw [h] <;> omega

end Keyword

namespace Value

variable {k : Keyword} {d u : Decimal} {p q y : ℚ}

theorem not_precise_of_between {a : Int} {s : Nat} (hk : k.IsOpen) (hlow : k.Bounds a (y * 10 ^ s))
    (hhigh : k.Bounds (y * 10 ^ s) (a + k.direction : Int)) : ¬Keyword.decimalPlaces.Precise s y := by
  rintro ⟨z, hz⟩
  rw [hz] at hlow hhigh
  obtain ⟨hlow, hhigh⟩ := hk.between_iff.mp ⟨hlow, hhigh⟩
  have hlow : min a (a + k.direction) < z := by exact_mod_cast hlow
  have hhigh : z < min a (a + k.direction) + 1 := by exact_mod_cast hhigh
  omega

/-- One unit of the last place away from a decimal is next to it. -/
theorem next_of_unit (hk : k.IsOpen) (hq : q = (d.signed + k.direction : Int) / 10 ^ d.scale) :
    Next k (.decimal d) d.value q := by
  have hpos : (0 : ℚ) < 10 ^ d.scale := by positivity
  have hbound : d.value * 10 ^ d.scale = d.signed := by rw [Decimal.value_eq, div_mul_cancel₀ _ hpos.ne']
  have hnext : q * 10 ^ d.scale = (d.signed + k.direction : Int) := by rw [hq, div_mul_cancel₀ _ hpos.ne']
  have hunits (y : ℚ) : k.Bounds d.value y ∧ k.Bounds y q ↔
      k.Bounds d.signed (y * 10 ^ d.scale) ∧ k.Bounds (y * 10 ^ d.scale) (d.signed + k.direction : Int) := by
    rw [← hk.bounds_mul_iff hpos, ← hk.bounds_mul_iff (x := y) hpos, hbound, hnext]
  constructor
  · rw [← hk.bounds_mul_iff hpos, hbound, hnext]
    exact hk.bounds_step
  · intro y _ hlow hhigh
    obtain ⟨hlow, hhigh⟩ := (hunits y).mp ⟨hlow, hhigh⟩
    exact not_precise_of_between hk hlow hhigh
  · calc (∀ y, Kind.decimal.Holds y → k.Bounds d.value y → ¬k.Bounds y q)
      _ ↔ ¬∃ e : Decimal, k.Bounds d.value e.value ∧ k.Bounds e.value q := by
        simp only [Kind.holds_decimal, forall_exists_index, forall_apply_eq_imp_iff, not_exists, not_and]
      _ ↔ ¬(d.scale ≠ 28 ∧ 10 * min d.signed.natAbs (d.signed + k.direction).natAbs < twoTo 96) := by
        simp only [hunits, hk.between_iff]
        rw [Decimal.exists_between_iff d.scale_le, hk.min_natAbs]
      _ ↔ IsFine k (.decimal d) := by
        rw [not_and_or, not_ne_iff, not_lt]
        rfl

/-- Where a unit of the last place is one bit too many, all bits are set. -/
theorem bound_of_full (hk : k.IsOpen) (hfull : (d.signed + k.direction).natAbs = twoTo 96) :
    (k.direction : ℚ) * d.value * 10 ^ d.scale = 79228162514264337593543950335 := by
  have hrange : d.signed.natAbs < twoTo 96 := d.natAbs_signed ▸ d.mantissa_lt
  have hbits : twoTo 96 = 79228162514264337593543950336 := rfl
  have hsigned : k.direction * d.signed = 79228162514264337593543950335 := by
    rcases hk.direction with h | h <;> rw [h] at hfull ⊢ <;> omega
  rw [mul_assoc, Decimal.value_eq, div_mul_cancel₀ _ (by positivity)]
  exact_mod_cast hsigned

/-- Where one bit too many gives up a place, nothing is passed over. -/
theorem next_of_full (hk : k.IsOpen) (hfull : (d.signed + k.direction).natAbs = twoTo 96) (hplace : 0 < d.scale)
    (hq : q = Decimal.unit (decide (d.signed + k.direction < 0)) * (79228162514264337593543950340 / 10 ^ d.scale)) :
    Next k (.decimal d) d.value q := by
  have hpos : (0 : ℚ) < 10 ^ d.scale := by positivity
  have hrange : d.signed.natAbs < twoTo 96 := d.natAbs_signed ▸ d.mantissa_lt
  have hbits : twoTo 96 = 79228162514264337593543950336 := rfl
  have hbound := bound_of_full hk hfull
  have hnext : (k.direction : ℚ) * q * 10 ^ d.scale = 79228162514264337593543950340 := by
    have hsign : (k.direction : ℚ) * Decimal.unit (decide (d.signed + k.direction < 0)) = 1 := by
      rcases hk.direction with h | h <;> rw [h] at hfull ⊢
      · rw [decide_eq_false (by omega)]
        norm_num [Decimal.unit]
      · rw [decide_eq_true (by omega)]
        norm_num [Decimal.unit]
    rw [hq, ← mul_assoc, hsign, one_mul, div_mul_cancel₀ _ hpos.ne']
  have hnone : ∀ y, Kind.decimal.Holds y → k.Bounds d.value y → ¬k.Bounds y q := by
    rintro _ hy hlow hhigh
    obtain ⟨e, rfl⟩ := Kind.holds_decimal.mp hy
    rw [hk.bounds_iff, ← mul_lt_mul_iff_left₀ hpos] at hlow hhigh
    have hlarge : 0 < (k.direction : ℚ) * e.value := pos_of_mul_pos_left (by linarith) hpos.le
    rw [← hk.abs_of_pos hlarge] at hlow hhigh
    have hgap := Decimal.not_between_full hplace (hbound ▸ hlow)
    linarith
  refine ⟨?_, fun y hy hlow hhigh => absurd hhigh (hnone y hy hlow), iff_of_true hnone (.inr ?_)⟩
  · rw [hk.bounds_iff, ← mul_lt_mul_iff_left₀ hpos, hbound, hnext]
    norm_num
  · rcases hk.direction with h | h <;> rw [h] at hfull ⊢ <;> omega

/-- Beyond the largest decimals there is none. -/
theorem not_bounds_of_full {e : Decimal} (hk : k.IsOpen) (hfull : (d.signed + k.direction).natAbs = twoTo 96)
    (hwhole : d.scale = 0) : ¬k.Bounds d.value e.value := by
  intro hbeyond
  have hbound := bound_of_full hk hfull
  rw [hwhole, pow_zero, mul_one] at hbound
  rw [hk.bounds_iff, hbound] at hbeyond
  have hsize := hk.abs_of_pos (x := e.value) (by linarith)
  have hmantissa : (79228162514264337593543950335 : ℚ) < e.mantissa := by linarith [e.abs_value_le]
  have hmantissa : 79228162514264337593543950335 < e.mantissa := by exact_mod_cast hmantissa
  have hfit := e.mantissa_lt
  have hbits : twoTo 96 = 79228162514264337593543950336 := rfl
  omega

theorem next_of_succ {i j : Int64} (hk : k.IsOpen) (hj : j.toInt = i.toInt + k.direction) :
    Next k (.int i) i.toInt j.toInt := by
  have hcoarse (y : ℚ) (hlow : k.Bounds i.toInt y) (hhigh : k.Bounds y j.toInt) :
      ¬Keyword.decimalPlaces.Precise 0 y := by
    rw [← mul_one y, ← pow_zero (10 : ℚ)] at hlow hhigh
    exact not_precise_of_between hk hlow (hj ▸ hhigh)
  refine ⟨hj ▸ hk.bounds_step, fun y _ => hcoarse y, iff_of_true (fun y hy hlow hhigh => ?_) trivial⟩
  obtain ⟨n, rfl⟩ := Kind.holds_int.mp hy
  exact hcoarse _ hlow hhigh ⟨n.toInt, by rw [pow_zero, mul_one]⟩

/-- Beyond the last integers there is none. -/
theorem not_bounds_of_int64? {i n : Int64} (hk : k.IsOpen) (h : int64? (i.toInt + k.direction) = none) :
    ¬k.Bounds i.toInt n.toInt := by
  have hrange : ¬(Int64.minValue.toInt ≤ i.toInt + k.direction ∧ i.toInt + k.direction ≤ Int64.maxValue.toInt) :=
    fun hfit => by rw [int64?, if_pos hfit] at h; cases h
  have hi := And.intro i.le_toInt i.toInt_lt
  have hn := And.intro n.le_toInt n.toInt_lt
  have hmin : Int64.minValue.toInt = -2 ^ 63 := by decide
  have hmax : Int64.maxValue.toInt = 2 ^ 63 - 1 := by decide
  intro hbeyond
  rw [hk.bounds_iff] at hbeyond
  have hbeyond : k.direction * i.toInt < k.direction * n.toInt := by exact_mod_cast hbeyond
  rcases hk.direction with h | h <;> rw [h] at hbeyond hrange <;> omega

/-- The value that a lax open bound takes is next to the bound, and there is one if anything lies beyond the bound. -/
theorem nearest?_spec (hk : k.IsOpen) {b : Value} (hb : b.IsNumber) (hp : b.number? = some p) :
    (Constraint.nearest? k b = none ∧ ∀ y, b.kind.Holds y → ¬k.Bounds p y) ∨
      ∃ w q, Constraint.nearest? k b = some w ∧ w.kind = b.kind ∧ w.number? = some q ∧ b.Next k p q := by
  cases b with
  | int i =>
    obtain rfl := Option.some.inj hp
    have hnearest : Constraint.nearest? k (.int i) = (int64? (i.toInt + k.direction)).map .int := by
      rcases hk with rfl | rfl <;> rfl
    rw [hnearest]
    cases hj : int64? (i.toInt + k.direction) with
    | none =>
      refine .inl ⟨rfl, fun y hy => ?_⟩
      obtain ⟨n, rfl⟩ := Kind.holds_int.mp hy
      exact not_bounds_of_int64? hk hj
    | some j => exact .inr ⟨.int j, j.toInt, rfl, rfl, rfl, next_of_succ hk (toInt_of_int64? hj)⟩
  | decimal d =>
    obtain rfl := Option.some.inj hp
    obtain ⟨u, hu, hsigned, hnearest⟩ : ∃ u : Decimal, u.IsUnitOf d ∧ u.signed = k.direction ∧
        Constraint.nearest? k (.decimal d) = (d.add? u).map .decimal := by
      rcases hk with rfl | rfl
      · exact Constraint.nextValue?_decimal true d
      · exact Constraint.nextValue?_decimal false d
    -- The last place moves by one, unless the digits are full: then it is given up, if there is one.
    have hcases := Decimal.add?_unit_cases hu
    rw [hsigned] at hcases
    rw [hnearest]
    rcases hcases with ⟨-, e, he, hvalue⟩ | ⟨hfull, ⟨hwhole, hnone⟩ | ⟨hplace, e, he, hvalue⟩⟩
    · exact .inr ⟨.decimal e, e.value, by rw [he]; rfl, rfl, rfl, next_of_unit hk hvalue⟩
    · refine .inl ⟨by rw [hnone]; rfl, fun y hy => ?_⟩
      obtain ⟨e, rfl⟩ := Kind.holds_decimal.mp hy
      exact not_bounds_of_full hk hfull hwhole
    · exact .inr ⟨.decimal e, e.value, by rw [he]; rfl, rfl, rfl, next_of_full hk hfull hplace hvalue⟩
  | _ => rcases hb with h | h <;> cases h

end Value

namespace Constraint

variable {k : Keyword} {b v : Value} {p x : ℚ}

/-- A number compares with a bound of its kind as their numbers do. -/
theorem exists_compare? (hk : k.IsOpen) (hb : b.IsNumber) (hkind : v.kind = b.kind) (hp : b.number? = some p)
    (hx : v.number? = some x) : ∃ o, v.compare? b = some o ∧ (within k o = true ↔ k.Bounds p x) := by
  cases b with
  | int i =>
    cases v with
    | int n =>
      cases hp
      cases hx
      exact ⟨compare n.toInt i.toInt, rfl, within_compare_iff i.toInt n.toInt⟩
    | _ => cases hkind
  | decimal d =>
    cases v with
    | decimal e =>
      cases hp
      cases hx
      refine ⟨e.compare d, rfl, ?_⟩
      rcases hk with rfl | rfl
      · simp only [within, Keyword.Bounds, beq_iff_eq, Decimal.compare_eq_gt]
      · simp only [within, Keyword.Bounds, beq_iff_eq, Decimal.compare_eq_lt]
    | _ => cases hkind
  | _ => rcases hb with h | h <;> cases h

/-- Outside a lax open bound, what is next to the bound is taken. -/
theorem result_checkBound (hk : k.IsOpen) (hb : b.IsNumber) (hkind : v.kind = b.kind) (hp : b.number? = some p)
    (hx : v.number? = some x) (hout : ¬k.Bounds p x) : (checkBound k true b v).result v = nearest? k b := by
  obtain ⟨o, ho, hwithin⟩ := exists_compare? hk hb hkind hp hx
  have hviolated : within k o = false := Bool.eq_false_iff.mpr fun h => hout (hwithin.mp h)
  rw [checkBound, ho]
  show (Verdict.decide (within k o) true (nearest? k b)).result v = _
  rw [Verdict.result_decide, hviolated]
  rfl

end Constraint

theorem Rule.constraintOf_bound {origin : Target} {k : Keyword} {b : Value} (horigin : origin = .int ∨ origin = .decimal)
    (hk : k.IsOpen) (hexact : origin.isExact b = true) :
    constraintOf origin (.value k b true) = .ok ⟨k, .value b, true⟩ := by
  have hoperand : operand origin (.value k b true) = .ok (.value b) := by
    have hvalue : operandValue origin k b = .ok b := by
      have hkept : Registry.standard.convert ⟨false, false⟩ b origin = .ok b := Registry.convert_of_isExact _ hexact
      rcases hk with rfl | rfl <;> simp only [operandValue, originValue, hkept]
    rw [operand, hvalue]
    rfl
  refine constraintOf_of_operand ?_ ?_ hoperand
  · rcases horigin with rfl | rfl <;> rcases hk with rfl | rfl <;> rfl
  · rcases horigin with rfl | rfl <;> rcases hk with rfl | rfl <;> rfl

namespace Catalog

variable {c : Catalog} {origin : Target} {args : List Rule} {onError : Option ErrorPolicy} {o : Options} {calls : Calls}
  {k : Keyword} {b v w : Value} {p x : ℚ}

/-- A rule with a lax open bound puts what is next to the bound in the place of what is outside. -/
theorem apply_outside (horigin : origin = .int ∨ origin = .decimal) (hk : k.IsOpen) (hbound : origin.isExact b = true)
    (hvalue : origin.isExact v = true) (hp : b.number? = some p) (hx : v.number? = some x) (hout : ¬k.Bounds p x)
    (ho : o.Throws) (hchecks : o.ignoresConstraints = false) :
    (c.apply (.mk ⟨some origin, args, [⟨k, .value b, true⟩], none, none, none, onError⟩) v o calls).1 = .ok w ↔
      Constraint.nearest? k b = some w := by
  have hother : k ≠ .contains ∧ k ∈ [.gt, .ge, .lt, .le] := by
    rcases hk with rfl | rfl <;> decide
  obtain ⟨hbkind, hb⟩ := Value.kind_of_isExact horigin hbound
  obtain ⟨hvkind, -⟩ := Value.kind_of_isExact horigin hvalue
  have hkind : v.kind = b.kind := Option.some.inj (hvkind.symm.trans hbkind)
  rw [apply_single_iff hother.1 horigin hvalue ho hchecks, Constraint.verdict_bound hother.2]
  exact (Constraint.result_checkBound hk hb hkind hp hx hout).congr_left

/-- A number outside a lax open bound of its kind is refused only where no number of the kind lies beyond the bound. Else it
    becomes the number next to the bound in steps of the bound's last place, which is next of all just where one more place
    does not fit. -/
theorem apply_open_bound (horigin : origin = .int ∨ origin = .decimal) (hk : k.IsOpen)
    (hbound : origin.isExact b = true) (hvalue : origin.isExact v = true) (hp : b.number? = some p)
    (hx : v.number? = some x) (hout : ¬k.Bounds p x) (ho : o.Throws) (hchecks : o.ignoresConstraints = false) :
    ∃ r, Rule.declare origin args [.value k b true] none none onError = .ok r ∧
      (((∀ w, (c.apply r v o calls).1 ≠ .ok w) ∧ ∀ y, b.kind.Holds y → ¬k.Bounds p y) ∨
        ∃ w q, (c.apply r v o calls).1 = .ok w ∧ w.kind = b.kind ∧ w.number? = some q ∧ b.Next k p q) := by
  have hother : k ∉ [.uniqueItems, .minContains, .maxContains] := by
    rcases hk with rfl | rfl <;> decide
  have happly (w : Value) :
      (c.apply (.mk ⟨some origin, args, [⟨k, .value b, true⟩], none, none, none, onError⟩) v o calls).1 = .ok w ↔
        Constraint.nearest? k b = some w := apply_outside horigin hk hbound hvalue hp hx hout ho hchecks
  refine ⟨_, Rule.declare_single hother (Rule.constraintOf_bound horigin hk hbound), ?_⟩
  rcases Value.nearest?_spec hk (Value.kind_of_isExact horigin hbound).2 hp with ⟨hnone, hlast⟩ | ⟨w, q, hsome, hnext⟩
  · refine .inl ⟨fun w hw => ?_, hlast⟩
    cases hnone.symm.trans ((happly w).mp hw)
  · exact .inr ⟨w, q, (happly w).mpr hsome, hnext⟩

/-- A half below the bound 1.0 comes to lie next to it. -/
theorem apply_below_one :
    let one : Value := .decimal ⟨false, 10, 1, by decide, by decide⟩
    let half : Value := .decimal ⟨false, 5, 1, by decide, by decide⟩
    ∃ r, Rule.declare .decimal [] [.value .gt one true] none none none = .ok r ∧
      ∃ w q, (apply {} r half {} Calls.none).1 = .ok w ∧ w.number? = some q ∧ one.Next .gt 1 q := by
  intro one half
  have hp : one.number? = some 1 := by norm_num [one, Value.number?, Decimal.value, Decimal.unit]
  have hx : half.number? = some (1 / 2) := by norm_num [half, Value.number?, Decimal.value, Decimal.unit]
  have hout : ¬Keyword.gt.Bounds 1 (1 / 2) := by norm_num [Keyword.Bounds]
  obtain ⟨r, hr, ⟨-, hlast⟩ | ⟨w, q, hw, -, hq, hnext⟩⟩ := @apply_open_bound {} .decimal [] none {} Calls.none .gt one half _ _
    (.inr rfl) (.inl rfl) rfl rfl hp hx hout ⟨rfl, rfl, rfl⟩ rfl
  · refine absurd ?_ (hlast 2 ⟨.decimal ⟨false, 2, 0, by decide, by decide⟩, rfl, ?_⟩)
    · norm_num [Keyword.Bounds]
    · norm_num [Value.number?, Decimal.value, Decimal.unit]
  · exact ⟨r, hr, w, q, hw, hq, hnext⟩

/-- Above 1.0 comes 1.1, though 1.01 lies between them. -/
theorem next_passed_over :
    let one : Decimal := ⟨false, 10, 1, by decide, by decide⟩
    let next : Decimal := ⟨false, 11, 1, by decide, by decide⟩
    ∃ r, Rule.declare .decimal [] [.value .gt (.decimal one) true] none none none = .ok r ∧
      (apply {} r (.decimal .zero) {} Calls.none).1 = .ok (.decimal next) ∧
      ∃ between : Decimal, one.value < between.value ∧ between.value < next.value := by
  have hnearest : Constraint.nearest? .gt (.decimal ⟨false, 10, 1, by decide, by decide⟩) =
      some (.decimal ⟨false, 11, 1, by decide, by decide⟩) := by rfl
  intro one next
  have hout : ¬Keyword.gt.Bounds one.value Decimal.zero.value := by
    norm_num [Keyword.Bounds, one, Decimal.zero, Decimal.value, Decimal.unit]
  refine ⟨_, Rule.declare_single (by decide) (Rule.constraintOf_bound (.inr rfl) (.inl rfl) rfl),
    (apply_outside (.inr rfl) (.inl rfl) rfl rfl rfl rfl hout ⟨rfl, rfl, rfl⟩ rfl).mpr hnearest,
    ⟨false, 101, 2, by decide, by decide⟩, ?_, ?_⟩
  · norm_num [one, Decimal.value, Decimal.unit]
  · norm_num [next, Decimal.value, Decimal.unit]

end Catalog

end Conform

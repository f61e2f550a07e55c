import Conform.Proofs.Constraint.Compliant
import Conform.Proofs.Rule.Single

/-! Limits on decimal places and on digits. What a limit counts belongs to the number and not to its spelling: the places
    up to the last digit other than zero, and the digits down to there. A limit is cut to 32 bits, so a longer one admits
    what is left of it admits, and that makes a difference only if fewer than 29 are left. -/

namespace Conform

/-! ### Reduced digits -/

/-- The size of a number is `m` with a point before its last `s` digits, and they do not end with a zero. -/
structure Reduced (q : ℚ) (m s : Nat) : Prop where
  size : |q| = m / 10 ^ s
  last : s = 0 ∨ m % 10 ≠ 0

theorem Reduced.unique {q : ℚ} {m n s t : Nat} (h : Reduced q m s) (h' : Reduced q n t) : m = n ∧ s = t := by
  have hsize : (m : ℚ) / 10 ^ s = n / 10 ^ t := h.size.symm.trans h'.size
  obtain rfl : s = t := le_antisymm (Decimal.le_of_last h.last hsize) (Decimal.le_of_last h'.last hsize.symm)
  have hdigits : (m : ℚ) = n := (div_left_inj' (by positivity)).mp hsize
  exact ⟨by exact_mod_cast hdigits, rfl⟩

/-- Whether a number has at most so many decimal places, or digits. -/
def Keyword.Precise (k : Keyword) (limit : Nat) (q : ℚ) : Prop :=
  match k with
  | .decimalPlaces => ∃ z : ℤ, q * 10 ^ limit = z
  | _ => ∃ m s, Reduced q m s ∧ max (Nat.toDigits 10 m).length s ≤ limit

namespace Decimal

variable {d : Decimal} {k : Keyword} {n : Nat}

theorem reduced_value (d : Decimal) : Reduced d.value d.normalized.mantissa d.normalized.scale where
  size := by rw [← value_normalized, abs_value]
  last := last_of_normalized d

/-- What a limit on places, or on digits, is compared with. -/
def precision (k : Keyword) (d : Decimal) : Nat := if k = .decimalPlaces then d.digitCounts.2 else d.digitCounts.1

theorem places_le_iff : d.digitCounts.2 ≤ n ↔ ∃ z : ℤ, d.value * 10 ^ n = z := by
  constructor
  · intro hle
    obtain ⟨k, rfl⟩ := Nat.exists_eq_add_of_le hle
    refine ⟨d.normalized.signed * 10 ^ k, ?_⟩
    rw [← value_normalized, value_eq]
    show (_ : ℚ) / 10 ^ d.normalized.scale * 10 ^ (d.normalized.scale + k) = _
    rw [pow_add]
    push_cast
    field_simp
  · rintro ⟨z, hz⟩
    show d.normalized.scale ≤ n
    refine le_of_last d.reduced_value.last ?_ (n := z.natAbs)
    rw [← d.reduced_value.size, eq_div_iff (by positivity)]
    calc |d.value| * 10 ^ n
      _ = |d.value * 10 ^ n| := by rw [abs_mul, abs_of_pos (a := (10 : ℚ) ^ n) (by positivity)]
      _ = z.natAbs := by rw [hz, Nat.cast_natAbs, Int.cast_abs]

/-- What is counted is the precision of the number. -/
theorem precise_iff (k : Keyword) (d : Decimal) (n : Nat) : k.Precise n d.value ↔ d.precision k ≤ n := by
  have hdigits : (∃ m s, Reduced d.value m s ∧ max (Nat.toDigits 10 m).length s ≤ n) ↔ d.digitCounts.1 ≤ n := by
    constructor
    · rintro ⟨m, s, h, hle⟩
      obtain ⟨rfl, rfl⟩ := h.unique d.reduced_value
      exact hle
    · exact fun hle => ⟨_, _, d.reduced_value, hle⟩
  unfold precision
  cases k with
  | decimalPlaces => exact places_le_iff.symm
  | _ => exact hdigits

/-- No decimal has more than 29 digits. -/
theorem precision_le (k : Keyword) (d : Decimal) : d.precision k ≤ 29 := by
  have hdigits : d.digitCounts.1 ≤ 29 :=
    digitCounts_le (by decide) (d.scale_le.trans (by decide)) (d.mantissa_lt.trans (by decide))
  unfold precision
  split
  · exact (Nat.le_max_right _ _).trans hdigits
  · exact hdigits

end Decimal

/-! ### Limits -/

namespace Constraint

variable {k : Keyword} {v : Value} {q : ℚ} {lax : Bool} {n : Nat}

theorem checkPrecision_eq_kept (hk : k ∈ [.decimalPlaces, .maxDigits]) :
    checkPrecision k lax n v = .kept ↔ ∃ d, v.toDecimal? = some d ∧ d.precision k ≤ n % twoTo 32 := by
  rcases List.mem_pair.mp hk with rfl | rfl
  · exact checkPrecision_places
  · exact checkPrecision_digits

/-- A number is kept if it is as precise as what is left of the limit in 32 bits. -/
theorem checkPrecision_eq_kept_iff_precise (hk : k ∈ [.decimalPlaces, .maxDigits]) (hnumber : v.IsNumber)
    (hq : v.number? = some q) : checkPrecision k lax n v = .kept ↔ k.Precise (n % twoTo 32) q := by
  obtain ⟨d, hd, rfl⟩ := exists_toDecimal? hnumber hq
  rw [checkPrecision_eq_kept hk, Decimal.precise_iff]
  constructor
  · rintro ⟨e, he, hle⟩
    cases hd.symm.trans he
    exact hle
  · exact fun hle => ⟨d, hd, hle⟩

/-- What is left of a limit admits the same numbers, if it is the limit or admits all. -/
theorem precise_cut_iff (hnumber : v.IsNumber) (hq : v.number? = some q) (h : n < 2 ^ 32 ∨ 29 ≤ n % 2 ^ 32) :
    k.Precise (n % 2 ^ 32) q ↔ k.Precise n q := by
  obtain ⟨d, -, rfl⟩ := exists_toDecimal? hnumber hq
  rw [Decimal.precise_iff, Decimal.precise_iff]
  rcases h with hshort | hmany
  · rw [Nat.mod_eq_of_lt hshort]
  · have hfew := d.precision_le k
    exact iff_of_true (hfew.trans hmany) (hfew.trans (hmany.trans (Nat.mod_le ..)))

end Constraint

theorem Rule.constraintOf_limit {origin : Target} {k : Keyword} {n : Int64} (horigin : origin = .int ∨ origin = .decimal)
    (hk : k ∈ [.decimalPlaces, .maxDigits]) (hn : 0 ≤ n.toInt) :
    constraintOf origin (.value k (.int n) false) = .ok ⟨k, .value (.int n), false⟩ := by
  have hcount : operand origin (.value k (.int n) false) = .ok (.value (.int n)) := by
    have hvalue : operandValue origin k (.int n) = .ok (.int n) := by
      rcases List.mem_pair.mp hk with rfl | rfl <;> exact if_pos hn
    rw [operand, hvalue]
    rfl
  refine constraintOf_of_operand ?_ rfl hcount
  rcases horigin with rfl | rfl <;> rcases List.mem_pair.mp hk with rfl | rfl <;> rfl

namespace Catalog

variable {c : Catalog} {origin : Target} {args : List Rule} {onError : Option ErrorPolicy} {o : Options} {calls : Calls}

variable {k : Keyword} {n : Int64} {v w : Value} {q : ℚ}

/-- A strict limit keeps a number that is precise enough for what is left of it, and refuses any other. -/
theorem apply_limit (horigin : origin = .int ∨ origin = .decimal) (hk : k ∈ [.decimalPlaces, .maxDigits])
    (hexact : origin.isExact v = true) (hq : v.number? = some q) (ho : o.Throws)
    (hchecks : o.ignoresConstraints = false) :
    (c.apply (.mk ⟨some origin, args, [⟨k, .value (.int n), false⟩], none, none, none, onError⟩) v o calls).1 = .ok w ↔
      w = v ∧ k.Precise (n.toInt.toNat % 2 ^ 32) q := by
  have hother : k ≠ .contains := by
    rcases List.mem_pair.mp hk with rfl | rfl <;> decide
  have hnumber := (Value.kind_of_isExact horigin hexact).2
  have hprecise : (⟨k, .value (.int n), false⟩ : Constraint Rule).verdict v = .kept ↔
      k.Precise (n.toInt.toNat % 2 ^ 32) q := by
    rw [Constraint.verdict_precision hk]
    exact Constraint.checkPrecision_eq_kept_iff_precise hk hnumber hq
  rw [apply_single_iff hother horigin hexact ho hchecks, ← hprecise]
  generalize hverdict : (⟨k, .value (.int n), false⟩ : Constraint Rule).verdict v = verdict
  cases verdict with
  | kept => simp [Verdict.result, eq_comm]
  | violated => simp [Verdict.result]
  | replaced u => cases Constraint.lax_of_replaced hverdict

/-- Each limit can be declared. The rule keeps a number that has at most so many places or digits as the limit leaves modulo
    2³², and refuses any other. So a limit is exact if it is less than 2³² itself, or leaves at least 29. -/
theorem apply_limit_iff (horigin : origin = .int ∨ origin = .decimal) (hk : k ∈ [.decimalPlaces, .maxDigits])
    (hn : 0 ≤ n.toInt) (hexact : origin.isExact v = true) (hq : v.number? = some q) (ho : o.Throws)
    (hchecks : o.ignoresConstraints = false) :
    ∃ r, Rule.declare origin args [.value k (.int n) false] none none onError = .ok r ∧
      (∀ w, (c.apply r v o calls).1 = .ok w ↔ w = v ∧ k.Precise (n.toInt.toNat % 2 ^ 32) q) ∧
      (n.toInt.toNat < 2 ^ 32 ∨ 29 ≤ n.toInt.toNat % 2 ^ 32 →
        (k.Precise (n.toInt.toNat % 2 ^ 32) q ↔ k.Precise n.toInt.toNat q)) := by
  have hother : k ∉ [.uniqueItems, .minContains, .maxContains] := by
    rcases List.mem_pair.mp hk with rfl | rfl <;> decide
  exact ⟨_, Rule.declare_single hother (Rule.constraintOf_limit horigin hk hn),
    fun w => apply_limit horigin hk hexact hq ho hchecks,
    Constraint.precise_cut_iff (Value.kind_of_isExact horigin hexact).2 hq⟩

/-- A half that is spelled with two places is kept where one is allowed. -/
theorem apply_half :
    let half : Value := .decimal ⟨false, 50, 2, by decide, by decide⟩
    ∃ r, Rule.declare .decimal [] [.value .decimalPlaces (.int 1) false] none none none = .ok r ∧
      (apply {} r half {} Calls.none).1 = .ok half ∧ Keyword.decimalPlaces.Precise 1 (1 / 2) := by
  intro half
  have hq : half.number? = some (1 / 2) := by norm_num [half, Value.number?, Decimal.value, Decimal.unit]
  obtain ⟨r, hr, hiff, -⟩ := @apply_limit_iff {} .decimal [] none {} Calls.none .decimalPlaces 1 half _ (.inr rfl)
    (List.mem_pair.mpr (.inl rfl)) (by decide) rfl hq ⟨rfl, rfl, rfl⟩ rfl
  have hprecise : Keyword.decimalPlaces.Precise 1 (1 / 2) := ⟨5, by norm_num⟩
  exact ⟨r, hr, (hiff half).mpr ⟨rfl, hprecise⟩, hprecise⟩

/-- A limit of 2³² admits no places at all, and no digits. -/
theorem limit_wrapped :
    let d : Decimal := ⟨false, 5, 1, by decide, by decide⟩
    d.value = 1 / 2 ∧
      (∃ r, Rule.declare .decimal [] [.value .decimalPlaces (.int 4294967296) false] none none none = .ok r ∧
        (∀ w, (apply {} r (.decimal d) {} Calls.none).1 ≠ .ok w) ∧ Keyword.decimalPlaces.Precise 4294967296 (1 / 2)) ∧
      ∃ r, Rule.declare .int [] [.value .maxDigits (.int 4294967296) false] none none none = .ok r ∧
        (∀ w, (apply {} r (.int 5) {} Calls.none).1 ≠ .ok w) ∧ Keyword.maxDigits.Precise 4294967296 5 := by
  intro d
  have hvalue : d.value = 1 / 2 := by norm_num [d, Decimal.value, Decimal.unit]
  have hplaces : ¬Keyword.decimalPlaces.Precise 0 d.value :=
    fun h => absurd ((Decimal.precise_iff _ d _).mp h) (by decide +kernel)
  have hdigits : ¬Keyword.maxDigits.Precise 0 (Decimal.ofInt 5).value :=
    fun h => absurd ((Decimal.precise_iff _ _ _).mp h) (by decide +kernel)
  have hnumber : (Value.int 5).number? = some (Decimal.ofInt 5).value := Constraint.number?_of_toDecimal? (.inl rfl) rfl
  have hfive : (Decimal.ofInt 5).value = 5 := Decimal.value_ofInt (by decide)
  refine ⟨hvalue, ⟨_, rfl, fun w hw => ?_, ?_⟩, _, rfl, fun w hw => ?_, ?_⟩
  · exact hplaces ((apply_limit (.inr rfl) (by decide) rfl rfl ⟨rfl, rfl, rfl⟩ rfl).mp hw).2
  · exact hvalue ▸ (Decimal.precise_iff .decimalPlaces d _).mpr ((d.precision_le _).trans (by decide))
  · exact hdigits ((apply_limit (.inl rfl) (by decide) rfl hnumber ⟨rfl, rfl, rfl⟩ rfl).mp hw).2
  · exact hfive ▸ (Decimal.precise_iff .maxDigits _ _).mpr ((Decimal.precision_le _ _).trans (by decide))

end Catalog

end Conform

import Conform.Proofs.Conversion.Number
import Conform.Proofs.Rule.Single

/-! Bounds of integers. A bound that is declared for integers is brought to an integer first, and a decimal loses
    there what stands behind the point. So an integer is within the bounds of a rule if it is within them as they are
    declared, but the integer part of a bound counts as the bound itself, on whichever side of the bound it lies. -/

namespace Conform

open Parse

/-! ### Whole parts -/

/-- The integer next to a number toward zero. -/
def wholePart (q : ℚ) : ℤ := if 0 ≤ q then ⌊q⌋ else ⌈q⌉

theorem wholePart_intCast (z : ℤ) : wholePart z = z := by
  unfold wholePart
  split
  · exact Int.floor_intCast z
  · exact Int.ceil_intCast z

theorem wholePart_of_nonneg {q : ℚ} (h : 0 ≤ q) : wholePart q = ⌊q⌋ := if_pos h

theorem wholePart_neg {q : ℚ} (h : 0 ≤ q) : wholePart (-q) = -⌊q⌋ := by
  unfold wholePart
  split
  next hneg =>
    obtain rfl : q = 0 := le_antisymm (neg_nonneg.mp hneg) h
    rfl
  · exact Int.ceil_neg

/-- No integer lies between a number and its whole part. -/
theorem lt_or_gt_of_ne_wholePart {q : ℚ} {z : ℤ} (h : z ≠ wholePart q) :
    ((z : ℚ) < q ∧ (z : ℚ) < wholePart q) ∨ (q < z ∧ (wholePart q : ℚ) < z) := by
  unfold wholePart at h ⊢
  split at h
  next hq =>
    rw [if_pos hq]
    obtain hlt | hgt := lt_or_gt_of_ne h
    · exact .inl ⟨(Int.cast_lt.mpr hlt).trans_le (Int.floor_le q), Int.cast_lt.mpr hlt⟩
    · exact .inr ⟨Int.floor_lt.mp hgt, Int.cast_lt.mpr hgt⟩
  next hq =>
    rw [if_neg hq]
    obtain hlt | hgt := lt_or_gt_of_ne h
    · exact .inl ⟨Int.lt_ceil.mp hlt, Int.cast_lt.mpr hlt⟩
    · exact .inr ⟨(Int.le_ceil q).trans_lt (Int.cast_lt.mpr hgt), Int.cast_lt.mpr hgt⟩

/-- A decimal cut off at the point is the whole part of its number. -/
theorem Decimal.truncated_eq_wholePart (d : Decimal) : d.truncated = wholePart d.value := by
  have hnonneg : (0 : ℚ) ≤ d.mantissa / 10 ^ d.scale := by positivity
  have hfloor : ⌊(d.mantissa : ℚ) / 10 ^ d.scale⌋ = (d.mantissa / tenTo d.scale : Nat) := by
    rw [← cast_tenTo, ← Int.cast_natCast d.mantissa, Rat.floor_intCast_div_natCast]
    rfl
  rw [truncated, value]
  cases d.negative with
  | false =>
    simp only [unit, Bool.false_eq_true, if_false, one_mul]
    rw [wholePart_of_nonneg hnonneg, hfloor]
  | true =>
    simp only [unit, if_true, neg_one_mul]
    rw [wholePart_neg hnonneg, hfloor]

/-! ### Bounds -/

/-- A keyword of a bound. -/
abbrev Keyword.IsBound (k : Keyword) : Prop := k ∈ [gt, ge, lt, le]

/-- Whether a number is within a bound. -/
def Keyword.Bounds (k : Keyword) (bound x : ℚ) : Prop :=
  match k with
  | .gt => bound < x
  | .ge => bound ≤ x
  | .lt => x < bound
  | _ => x ≤ bound

/-- Whether an integer is within a bound whose whole part stands for it. -/
def Keyword.Admits (k : Keyword) (bound : ℚ) (z : ℤ) : Prop :=
  (z ≠ wholePart bound → k.Bounds bound z) ∧ (z = wholePart bound → k.isOpenBound = false)

namespace Keyword

variable {k : Keyword} {q : ℚ} {z : ℤ}

theorem bounds_self_iff : k.Bounds q q ↔ k.isOpenBound = false := by
  cases k <;> simp [Bounds, isOpenBound]

theorem bounds_congr (h : (z : ℚ) < q ∧ (z : ℚ) < wholePart q ∨ q < z ∧ (wholePart q : ℚ) < z) :
    k.Bounds (wholePart q) z ↔ k.Bounds q z := by
  cases k <;> simp only [Bounds] <;> constructor <;> intro hz <;> obtain h | h := h <;> linarith

/-- Of the integers, a bound admits those that its whole part bounds. -/
theorem bounds_wholePart_iff : k.Bounds (wholePart q) z ↔ k.Admits q z := by
  by_cases hz : z = wholePart q
  · subst hz
    rw [bounds_self_iff]
    exact ⟨fun h => ⟨fun hne => absurd rfl hne, fun _ => h⟩, fun h => h.2 rfl⟩
  · rw [bounds_congr (lt_or_gt_of_ne_wholePart hz)]
    exact ⟨fun h => ⟨fun _ => h, fun heq => absurd heq hz⟩, fun h => h.1 hz⟩

end Keyword

/-! ### Bounds of integers -/

/-- What is declared is a strict bound, and an integer or a decimal. -/
def Declared.IsBound (d : Declared) : Prop :=
  ∃ k v, d = .value k v false ∧ k.IsBound ∧ (v.kind = .int ∨ v.kind = .decimal)

/-- An integer is within what is declared. -/
def Declared.Admits (d : Declared) (z : ℤ) : Prop :=
  ∀ k v lax q, d = .value k v lax → v.number? = some q → k.Admits q z

theorem exists_number? {v : Value} (h : v.kind = .int ∨ v.kind = .decimal) : ∃ q, v.number? = some q := by
  cases v with
  | int | decimal => exact ⟨_, rfl⟩
  | _ => rcases h with h | h <;> cases h

/-- A constraint on integers with the whole part of a number as its bound. -/
structure Constraint.IsWhole (c : Constraint Rule) (k : Keyword) (q : ℚ) : Prop where
  keyword : c.keyword = k
  operand : ∃ i : Int64, c.operand = .value (.int i) ∧ i.toInt = wholePart q
  strict : c.lax = false

/-- What follows a step that is taken unless something holds. -/
theorem ok_of_checked {ε α : Type} {p : Prop} [Decidable p] {x : Except ε Unit} {k : Unit → Except ε α} {a : α}
    (h : (if p then k () else x >>= k) = .ok a) : k () = .ok a := by
  split at h
  · exact h
  · cases x with
    | error e => cases h
    | ok _ => exact h

/-- A decimal becomes its integer part, if it becomes an integer. -/
theorem Converter.exists_of_integerOf {scope : Scope} {v w : Value} {t : Target} {d : Decimal}
    (h : integerOf scope v t d = .ok w) : ∃ i, int64? d.truncated = some i ∧ w = .int i := by
  unfold integerOf at h
  have hcut := ok_of_checked h
  dsimp only at hcut
  split at hcut
  next i hi =>
    cases hcut
    exact ⟨i, hi, rfl⟩
  · cases hcut

namespace Rule

/-- A number becomes the integer next to it toward zero, where 64 bits hold that. -/
theorem exists_of_originValue {k : Keyword} {v w : Value} {q : ℚ} (hkind : v.kind = .int ∨ v.kind = .decimal)
    (hq : v.number? = some q) (h : originValue .int k v = .ok w) : ∃ i : Int64, w = .int i ∧ i.toInt = wholePart q := by
  cases v with
  | int i =>
    cases hq
    cases h
    exact ⟨i, rfl, (wholePart_intCast i.toInt).symm⟩
  | decimal d =>
    cases hq
    unfold originValue at h
    split at h
    next u hu =>
      cases h
      obtain ⟨scope, -, hinteger⟩ := Registry.converted_of_convert (t := .int) rfl rfl rfl hu
      obtain ⟨i, hi, rfl⟩ := Converter.exists_of_integerOf hinteger
      exact ⟨i, rfl, (toInt_of_int64? hi).trans d.truncated_eq_wholePart⟩
    · cases h
  | _ => rcases hkind with hkind | hkind <;> cases hkind

theorem operandValue_bound {k : Keyword} (hk : k.IsBound) (v : Value) :
    operandValue .int k v = originValue .int k v := by
  cases k <;> first | rfl | exact absurd hk (by decide)

/-- A constraint that is declared as a bound of integers compares with the whole part of the bound. -/
theorem isWhole_of_constraintOf {k : Keyword} {v : Value} {q : ℚ} {c : Constraint Rule}
    (hk : k.IsBound) (hkind : v.kind = .int ∨ v.kind = .decimal) (hq : v.number? = some q)
    (h : constraintOf .int (.value k v false) = .ok c) : c.IsWhole k q := by
  obtain ⟨hkeyword, hoperand, hlax⟩ := constraintOf_eq_ok h
  obtain ⟨w, hw, hvalue⟩ := operand_value_eq_ok hoperand
  rw [operandValue_bound hk] at hw
  obtain ⟨i, rfl, hi⟩ := exists_of_originValue hkind hq hw
  exact ⟨hkeyword, ⟨i, hvalue, hi⟩, hlax⟩

/-- The constraints of a rule with bounds of integers are the whole parts of the bounds. -/
theorem whole_constraints {declared : List Declared} {cs : List (Constraint Rule)}
    (h : declareConstraints .int declared = .ok cs) (hbounds : ∀ d ∈ declared, d.IsBound) :
    (∀ c ∈ cs, ∃ k v q, Declared.value k v false ∈ declared ∧ v.number? = some q ∧ k.IsBound ∧ c.IsWhole k q) ∧
      ∀ k v lax q, Declared.value k v lax ∈ declared → v.number? = some q → ∃ c ∈ cs, c.IsWhole k q := by
  have hbound (d : Declared) (hd : d ∈ declared) : d.keyword.IsBound := by
    obtain ⟨k, v, rfl, hk, -⟩ := hbounds d hd
    exact hk
  have hother {d : Declared} (hd : d ∈ declared) {k : Keyword} (hk : ¬k.IsBound) : d.keyword ≠ k :=
    fun heq => hk (heq ▸ hbound d hd)
  constructor
  · intro c hc
    obtain ⟨d, hd, hof⟩ := exists_of_declareConstraints h c hc
    obtain ⟨k, v, rfl, hk, hkind⟩ := hbounds d hd
    obtain ⟨q, hq⟩ := exists_number? hkind
    exact ⟨k, v, q, hd, hq, hk, isWhole_of_constraintOf hk hkind hq hof⟩
  · intro k v lax q hd hq
    have hfixed (d : Declared) (hd : d ∈ declared) : d.keyword ≠ .const ∧ d.keyword ≠ .enum :=
      ⟨hother hd (by decide), hother hd (by decide)⟩
    obtain ⟨c, hc, hof⟩ := exists_of_mem_declared h hfixed hd (hother hd (by decide))
    obtain ⟨k', v', heq, hk, hkind⟩ := hbounds _ hd
    cases heq
    exact ⟨c, hc, isWhole_of_constraintOf hk hkind hq hof⟩

end Rule

/-! ### Rules with bounds of integers -/

namespace Constraint

variable {c : Constraint Rule} {k : Keyword} {q : ℚ}

theorem within_compare_iff (i n : Int) : within k (compare n i) = true ↔ k.Bounds i n := by
  cases k <;> simp only [within, Keyword.Bounds, beq_iff_eq, bne_iff_ne, ne_eq, compare_lt_iff_lt, compare_gt_iff_gt,
    not_lt, Int.cast_lt, Int.cast_le]

theorem isKept_checkBound (i n : Int64) :
    (checkBound k false (.int i) (.int n)).isKept = true ↔ k.Bounds i.toInt n.toInt := by
  rw [← within_compare_iff, checkBound]
  show (Verdict.decide (within k (compare n.toInt i.toInt)) false _).isKept = true ↔ _
  cases within k (compare n.toInt i.toInt) <;> simp [Verdict.decide, Verdict.isKept]

/-- A bound keeps the integers that it admits. -/
theorem IsWhole.keeps_iff (h : c.IsWhole k q) (hk : k.IsBound) (o : Options) (depth : Nat)
    (siblings : List (Constraint Meaning)) (n : Int64) :
    Meaning.keeps o depth siblings (.int n) (c.map Rule.meaning) = true ↔ k.Admits q n.toInt := by
  obtain ⟨keyword, operand, lax⟩ := c
  obtain ⟨rfl, ⟨i, rfl, hi⟩, rfl⟩ := h
  dsimp only at hk hi
  have hkeeps :
      Meaning.keeps o depth siblings (.int n) (Constraint.map Rule.meaning ⟨keyword, .value (.int i), false⟩) =
        (checkBound keyword false (.int i) (.int n)).isKept := by
    cases keyword <;> first | rfl | exact absurd hk (by decide)
  rw [hkeeps, isKept_checkBound, hi, Keyword.bounds_wholePart_iff]

end Constraint

namespace Rule

/-- The constraints of a rule with bounds of integers keep the integers that are within what is declared. -/
theorem all_keeps_iff {declared : List Declared} {cs : List (Constraint Rule)}
    (h : declareConstraints .int declared = .ok cs) (hbounds : ∀ d ∈ declared, d.IsBound) (o : Options) (depth : Nat)
    (n : Int64) :
    (cs.map (·.map meaning)).all (Meaning.keeps o depth (cs.map (·.map meaning)) (.int n)) = true ↔
      ∀ d ∈ declared, d.Admits n.toInt := by
  obtain ⟨hfrom, hleft⟩ := whole_constraints h hbounds
  rw [List.all_eq_true, List.forall_mem_map]
  constructor
  · rintro hkeeps _ hd k v lax q rfl hq
    obtain ⟨c, hc, hwhole⟩ := hleft k v lax q hd hq
    obtain ⟨_, _, heq, hk, -⟩ := hbounds _ hd
    cases heq
    exact (hwhole.keeps_iff hk o depth _ n).mp (hkeeps c hc)
  · intro hadmits c hc
    obtain ⟨k, v, q, hd, hq, hk, hwhole⟩ := hfrom c hc
    exact (hwhole.keeps_iff hk o depth _ n).mpr (hadmits _ hd k v false q rfl hq)

end Rule

namespace Reading

/-- An integer is one of the origin already, and has no elements for the arguments of a rule. -/
theorem readLayer_int {E : Entities} (hE : E .int = .plain) {l : Layer Reading} (origin : l.origin = some .int)
    (logic : l.logic = none) (before : l.before = none) (after : l.after = none) (n : Int64) :
    readLayer E l (.int n) = (do
      let _ ← Parse.options
      let _ ← Parse.options
      limited l.constraints (.int n)) :=
  readLayer_number hE origin logic before after (.inl rfl) rfl

end Reading

namespace Catalog

/-- A rule whose constraints are strict bounds of integers keeps an integer that they all admit, and refuses any other: one
    that is within each bound as it is declared, the whole part of a bound standing for the bound itself. -/
theorem apply_int_iff {c : Catalog} {args : List Rule} {declared : List Declared} {onError : Option ErrorPolicy} {r : Rule}
    {calls : Calls} {w : Value} (hr : Rule.declare .int args declared none none onError = .ok r)
    (hbounds : ∀ d ∈ declared, d.IsBound) (n : Int64) :
    (c.apply r (.int n) {} calls).1 = .ok w ↔ w = .int n ∧ ∀ d ∈ declared, d.Admits n.toInt := by
  obtain ⟨cs, hcs, heq⟩ := Rule.bind_eq_ok.mp hr
  cases heq
  obtain ⟨hfrom, -⟩ := Rule.whole_constraints hcs hbounds
  have hstrict (d : Constraint Rule) (hd : d ∈ cs) : d.lax = false := by
    obtain ⟨_, _, _, _, _, _, hwhole⟩ := hfrom d hd
    exact hwhole.strict
  have hvalues (d : Constraint Rule) (hd : d ∈ cs) (q : Rule) (hq : d.operand = .rule q) :
      Meaning.Reads q.meaning (q.reading (c.entities {})) := by
    obtain ⟨_, _, _, _, _, _, hwhole⟩ := hfrom d hd
    obtain ⟨i, hi, -⟩ := hwhole.operand
    cases hi.symm.trans hq
  have hcomputes := Computes.bind_options fun _ => .bind_options fun _ => Meaning.computes_limited hstrict hvalues (.int n)
  rw [apply_eq_ok_iff, Coupling.read_reading, Reading.readLayer_int (c.entities_eq_plain {} .int rfl) rfl rfl rfl rfl]
  refine (hcomputes.accepts ⟨.root {}, calls⟩ rfl ⟨rfl, rfl, rfl⟩ w).trans ?_
  rw [← Rule.all_keeps_iff hcs hbounds {} 0 n]
  show (if _ then some (Value.int n) else none) = some w ↔ _
  rw [Option.ite_none_right_eq_some]
  constructor
  · rintro ⟨h, ⟨⟩⟩
    exact ⟨rfl, h⟩
  · rintro ⟨rfl, h⟩
    exact ⟨h, rfl⟩

theorem apply_between :
    let declared : List Declared :=
      [.value .ge (.decimal ⟨true, 25, 1, by decide, by decide⟩) false, .value .lt (.int 7) false]
    ∃ r, Rule.declare .int [] declared none none none = .ok r ∧ (∀ d ∈ declared, d.IsBound) ∧
      (apply {} r (.int 6) {} Calls.none).1 = .ok (.int 6) ∧ ∀ d ∈ declared, d.Admits 6 := by
  intro declared
  let r : Rule :=
    .mk ⟨some .int, [], [⟨.ge, .value (.int (-2)), false⟩, ⟨.lt, .value (.int 7), false⟩], none, none, none, none⟩
  have hr : Rule.declare .int [] declared none none none = .ok r := rfl
  have happly : (apply {} r (.int 6) {} Calls.none).1 = .ok (.int 6) := rfl
  have hbounds : ∀ d ∈ declared, d.IsBound := by
    intro d hd
    rcases List.mem_pair.mp hd with rfl | rfl
    · exact ⟨.ge, _, rfl, by decide, .inr rfl⟩
    · exact ⟨.lt, _, rfl, by decide, .inl rfl⟩
  exact ⟨r, hr, hbounds, happly, ((apply_int_iff hr hbounds 6).mp happly).2⟩

/-- Two is kept though it is less than two and a half, and refused though it is less than two and a half. -/
theorem bound_cut :
    let bound : Value := .decimal ⟨false, 25, 1, by decide, by decide⟩
    bound.number? = some (5 / 2) ∧
      (∃ r, Rule.declare .int [] [.value .ge bound false] none none none = .ok r ∧
        (apply {} r (.int 2) {} Calls.none).1 = .ok (.int 2) ∧ ¬Keyword.ge.Bounds (5 / 2) 2) ∧
      ∃ r, Rule.declare .int [] [.value .lt bound false] none none none = .ok r ∧
        (∀ w, (apply {} r (.int 2) {} Calls.none).1 ≠ .ok w) ∧ Keyword.lt.Bounds (5 / 2) 2 := by
  intro bound
  refine ⟨?_, ⟨_, rfl, rfl, ?_⟩, _, rfl, fun w hw => ?_, ?_⟩
  · norm_num [bound, Value.number?, Decimal.value, Decimal.unit]
  · norm_num [Keyword.Bounds]
  · cases hw
  · norm_num [Keyword.Bounds]

end Catalog

end Conform

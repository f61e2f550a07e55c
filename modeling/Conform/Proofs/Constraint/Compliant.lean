import Conform.Proofs.Constraint.Disturbance
import Conform.Proofs.Conversion.Number
import Conform.Proofs.Conversion.Proper
import Conform.Proofs.Numeric.Exact
import Conform.Proofs.Rule.Declaration
import Conform.Proofs.Value.Equality

/-! Whether what a lax constraint puts in the place of a value satisfies the constraint and is of the kind of the value.
    It does, unless there is nothing to put there: the nearest multiple need not be a number of that kind, and no number
    has no digits at all. -/

namespace Conform

/-! ### What is compared with itself -/

namespace Value

variable {v : Value}

theorem compareBytes_self (bs : List UInt8) : compareBytes bs bs = .eq := by
  induction bs with
  | nil => rfl
  | cons b rest ih =>
    have hfirst : Ord.compare b.toNat b.toNat = .eq := compare_eq_iff_eq.mpr rfl
    rw [compareBytes, ih, hfirst]
    rfl

theorem compare?_self (h : v.kind ∈ [.int, .decimal, .str, .bytes]) : v.compare? v = some .eq := by
  cases v with
  | int i => exact congrArg some (compare_eq_iff_eq.mpr rfl)
  | decimal d => exact congrArg some (Decimal.compare_eq_eq.mpr rfl)
  | str s => exact congrArg some (compare_eq_iff_eq.mpr rfl)
  | bytes bs => exact congrArg some (compareBytes_self bs)
  | _ => simp [kind] at h

theorem equivalent_self (h : v.Proper) : v.equivalent v = true := by
  rw [equivalent, h.regular.refl, Bool.true_or]

/-- Where no value is equal to one before it, none is equal to one behind it. -/
theorem allDistinct_of_apart {items : List Value} (h : ∀ v ∈ items, v.Proper) (hapart : Apart items) :
    allDistinct items = true := by
  induction items with
  | nil => rfl
  | cons v rest ih =>
    obtain ⟨hv, hrest⟩ := List.forall_mem_cons.mp h
    obtain ⟨hnone, hapart⟩ := List.pairwise_cons.mp hapart
    have hnew : v.isAmong rest = false := by
      refine isAmong_eq_false.mpr fun u hu => ?_
      rw [hv.same_comm (hrest u hu)]
      exact hnone u hu
    rw [allDistinct, hnew, ih hrest hapart]
    rfl

end Value

/-! ### What there is nothing to put for -/

/-- Whether a value of a kind can be a number. -/
def Kind.Holds (k : Kind) (x : ℚ) : Prop := ∃ u : Value, u.kind = k ∧ u.number? = some x

namespace Constraint

/-- The multiple of a factor that is nearest to a number, going by the quotient as decimals have it. -/
def nearestMultiple? (factor v : Value) : Option ℚ := do
  let d ← v.toDecimal?
  let m ← factor.toDecimal?
  let ratio ← d.div? m
  pure ((ratio.roundTo .halfAway 0).value * m.value)

variable {ρ : Type} {c : Constraint ρ} {keyword : Keyword} {lax : Bool} {n count : Nat} {v w b : Value}

/-- No value of the kind satisfies the constraint, or not the one that is nearest. -/
inductive Unattainable (c : Constraint ρ) (v : Value) : Prop
  | multiple {x : ℚ} : c.keyword = .multipleOf → nearestMultiple? c.scalar v = some x → ¬ v.kind.Holds x → Unattainable c v
  -- Zero has a digit.
  | digits : c.keyword = .maxDigits → c.count % twoTo 32 = 0 → v.kind = .decimal → Unattainable c v

/-- The same constraint, which refuses what it could mend. -/
def strict (c : Constraint ρ) : Constraint ρ := { c with lax := false }

/-! ### Bounds -/

/-- The next decimal is one unit of the last place away. -/
theorem nextValue?_decimal (up : Bool) (d : Decimal) : ∃ u : Decimal, u.IsUnitOf d ∧
    u.signed = (if up then 1 else -1) ∧ nextValue? up (.decimal d) = (d.add? u).map .decimal := by
  let unit : Decimal := ⟨false, 1, d.scale, by decide, d.scale_le⟩
  have hunit : Decimal.make? false 1 d.scale = some unit := dif_pos ⟨by decide, d.scale_le⟩
  cases up with
  | true =>
    refine ⟨unit, ⟨rfl, .inl rfl⟩, rfl, ?_⟩
    simp only [nextValue?, hunit, Option.bind_eq_bind, Option.bind_some, if_true]
    cases d.add? unit <;> rfl
  | false =>
    have hsub : d.sub? unit = d.add? unit.neg := rfl
    refine ⟨unit.neg, ⟨rfl, .inr rfl⟩, rfl, ?_⟩
    simp only [nextValue?, hunit, Option.bind_eq_bind, Option.bind_some, Bool.false_eq_true, if_false, hsub]
    cases d.add? unit.neg <;> rfl

/-- The next value lies beyond the bound. -/
theorem compare?_nextValue {up : Bool} (h : nextValue? up b = some w) (hkind : b.kind = .int ∨ b.kind = .decimal) :
    w.kind = b.kind ∧ w.compare? b = some (if up then .gt else .lt) := by
  cases b with
  | int i =>
    obtain ⟨j, hj, rfl⟩ := Option.map_eq_some_iff.mp h
    have hstep := toInt_of_int64? hj
    refine ⟨rfl, congrArg some ?_⟩
    cases up with
    | true => exact compare_gt_iff_gt.mpr (hstep ▸ Int.lt_succ i.toInt)
    | false => exact compare_lt_iff_lt.mpr (hstep ▸ Int.sub_one_lt_of_le (Int.le_refl i.toInt))
  | decimal d =>
    obtain ⟨u, hu, hsigned, hnext⟩ := nextValue?_decimal up d
    obtain ⟨e, he, rfl⟩ := Option.map_eq_some_iff.mp (hnext.symm.trans h)
    obtain ⟨habove, hbelow⟩ := Decimal.lt_of_add?_unit hu he
    refine ⟨rfl, congrArg some ?_⟩
    cases up with
    | true => exact Decimal.compare_eq_gt.mpr (habove hsigned)
    | false => exact Decimal.compare_eq_lt.mpr (hbelow hsigned)
  | _ => rcases hkind with hkind | hkind <;> cases hkind

/-- A bound of the kind of the values, and what lies next to it, is within the bound. -/
theorem complies_bound (hk : keyword ∈ [.gt, .ge, .lt, .le]) (hb : b.kind ∈ [.int, .decimal, .str, .bytes])
    (h : checkBound keyword lax b v = .replaced w) : w.kind = b.kind ∧ checkBound keyword false b w = .kept := by
  have hnearest : nearest? keyword b = some w := by
    unfold checkBound at h
    split at h
    · cases h
    · exact (Verdict.decide_eq_replaced.mp h).2.2
  have hnumber {up : Bool} (hnext : nextValue? up b = some w) : b.kind = .int ∨ b.kind = .decimal := by
    cases b <;> simp_all [nextValue?, Value.kind]
  rw [checkBound_eq_kept]
  simp only [List.mem_cons, List.not_mem_nil, or_false] at hk
  rcases hk with rfl | rfl | rfl | rfl
  · obtain ⟨hkind, hcompare⟩ := compare?_nextValue hnearest (hnumber hnearest)
    exact ⟨hkind, .gt, hcompare, rfl⟩
  · cases hnearest
    exact ⟨rfl, .eq, Value.compare?_self hb, rfl⟩
  · obtain ⟨hkind, hcompare⟩ := compare?_nextValue hnearest (hnumber hnearest)
    exact ⟨hkind, .lt, hcompare, rfl⟩
  · cases hnearest
    exact ⟨rfl, .eq, Value.compare?_self hb, rfl⟩

/-! ### Multiples -/

/-- A quotient rounded to no places is an integer of no more than 96 bits. -/
theorem value_roundTo_zero (r : Rounding) (d : Decimal) :
    ∃ q : Int, q.natAbs < twoTo 96 ∧ (d.roundTo r 0).value = q := by
  refine ⟨(d.roundTo r 0).signed, ?_, ?_⟩
  · rw [Decimal.natAbs_signed]
    exact (d.roundTo r 0).mantissa_lt
  · have hscale : (d.roundTo r 0).scale = 0 := Nat.le_zero.mp (Decimal.scale_roundTo_le r 0 d)
    rw [Decimal.value_eq, hscale, pow_zero, div_one]

theorem number?_of_toDecimal? {d : Decimal} (hkind : v.kind = .int ∨ v.kind = .decimal) (h : v.toDecimal? = some d) :
    v.number? = some d.value := by
  cases v with
  | int i =>
    cases h
    exact congrArg some (Decimal.value_ofInt (natAbs_toInt_lt i)).symm
  | decimal e =>
    cases h
    rfl
  | _ => rcases hkind with hkind | hkind <;> cases hkind

theorem exists_toDecimal? {x : ℚ} (hkind : v.kind = .int ∨ v.kind = .decimal) (h : v.number? = some x) :
    ∃ d, v.toDecimal? = some d ∧ d.value = x := by
  have hdecimal : ∃ d, v.toDecimal? = some d := by
    cases v with
    | int i => exact ⟨_, rfl⟩
    | decimal e => exact ⟨_, rfl⟩
    | _ => rcases hkind with hkind | hkind <;> cases hkind
  obtain ⟨d, hd⟩ := hdecimal
  exact ⟨d, hd, Option.some.inj ((number?_of_toDecimal? hkind hd).symm.trans h)⟩

/-- A number that a kind can hold is brought back to the kind. -/
theorem likeKind_of_holds {d : Decimal} (hkind : v.kind = .int ∨ v.kind = .decimal) (h : v.kind.Holds d.value) :
    (likeKind v d).kind = v.kind ∧ (likeKind v d).number? = some d.value := by
  obtain ⟨u, hu, hnumber⟩ := h
  cases v with
  | int i =>
    cases u with
    | int j =>
      have hvalue := Option.some.inj hnumber
      rw [likeKind, Decimal.truncated_of_value hvalue.symm, int64?_toInt]
      exact ⟨rfl, hnumber⟩
    | _ => cases hu
  | decimal e => exact ⟨rfl, rfl⟩
  | _ => rcases hkind with hkind | hkind <;> cases hkind

theorem complies_multiple (hkind : v.kind = .int ∨ v.kind = .decimal) (h : checkMultiple lax b v = .replaced w)
    (hattained : ∀ x, nearestMultiple? b v = some x → v.kind.Holds x) :
    w.kind = v.kind ∧ checkMultiple false b w = .kept := by
  have hfloat {u : Value} (hu : u.kind = .int ∨ u.kind = .decimal) : u.kind ≠ .float := by
    rcases hu with hu | hu <;> rw [hu] <;> decide
  rw [checkMultiple_eq (hfloat hkind)] at h
  split at h
  next d m hd hm =>
    obtain ⟨-, -, hnearest⟩ := Verdict.decide_eq_replaced.mp h
    obtain ⟨ratio, hratio, hnearest⟩ := Option.bind_eq_some_iff.mp hnearest
    obtain ⟨product, hproduct, rfl⟩ := Option.map_eq_some_iff.mp hnearest
    have hholds : v.kind.Holds ((ratio.roundTo .halfAway 0).value * m.value) :=
      hattained _ (by rw [nearestMultiple?, hd, hm, Option.bind_eq_bind, Option.bind_some]; simp [hratio])
    obtain ⟨u, hu, hnumber⟩ := hholds
    obtain ⟨e, -, he⟩ := exists_toDecimal? (hu ▸ hkind) hnumber
    obtain ⟨product', hproduct', hvalue⟩ := Decimal.mul?_of_value he
    cases hproduct.symm.trans hproduct'
    obtain ⟨hlike, hlikeNumber⟩ := likeKind_of_holds hkind ⟨u, hu, by rw [hnumber, hvalue, he]⟩
    refine ⟨hlike, ?_⟩
    obtain ⟨f, hf, hfvalue⟩ := exists_toDecimal? (hlike ▸ hkind) hlikeNumber
    obtain ⟨q, hq, hwhole⟩ := value_roundTo_zero .halfAway ratio
    have hmultiple : f.isMultipleOf m = true :=
      Decimal.isMultipleOf_of_value hq (by rw [hfvalue, hvalue, he, hwhole])
    rw [checkMultiple_eq (hfloat (hlike ▸ hkind)), hf, hm]
    simp [hmultiple]
  · cases h

/-! ### Precision -/

/-- A number shortened to as many digits as there is room for has no more of them. -/
theorem digits_shortened_le {d : Decimal} {limit places : Nat} (hpos : 0 < limit) (hplaces : places < d.digitCounts.2)
    (hlimit : d.digitCounts.1 - d.digitCounts.2 + places = limit) :
    (shortened .maxDigits limit places d).digitCounts.1 ≤ limit := by
  unfold shortened
  simp only
  split
  next =>
    have hscale : places < d.scale := hplaces.trans_le (Decimal.scale_normalized_le d)
    exact hlimit ▸ Decimal.digits_roundTo_down (hlimit ▸ hpos) hscale d.abs_value_lt
  next hfew => exact Nat.not_lt.mp fun hmany => hfew ⟨trivial, hmany⟩

theorem complies_precision (hk : keyword ∈ [.decimalPlaces, .maxDigits]) (hkind : v.kind ≠ .float)
    (h : checkPrecision keyword lax count v = .replaced w)
    (hdigits : v.kind = .decimal → keyword = .maxDigits → count % twoTo 32 ≠ 0) :
    w.kind = v.kind ∧ checkPrecision keyword false count w = .kept := by
  obtain ⟨d, places, hd, hplaces, hlimit, rfl⟩ := checkPrecision_eq_replaced h
  have hdecimal := (Value.kind_of_places hd (Nat.zero_lt_of_lt hplaces)).resolve_left hkind
  refine ⟨kind_likeKind (.inr hdecimal) _, ?_⟩
  obtain ⟨e, rfl⟩ : ∃ e, v = .decimal e := by
    cases v <;> first | exact ⟨_, rfl⟩ | cases hdecimal
  simp only [List.mem_cons, List.not_mem_nil, or_false] at hk
  rcases hk with rfl | rfl
  · rw [if_pos rfl] at hlimit
    exact checkPrecision_places.mpr ⟨_, rfl, hlimit ▸ places_shortened_le _ _ places d⟩
  · rw [if_neg (by decide)] at hlimit
    have hpos := Nat.pos_of_ne_zero (hdigits hdecimal rfl)
    exact checkPrecision_digits.mpr ⟨_, rfl, digits_shortened_le hpos hplaces hlimit⟩

/-! ### Lengths and repetitions -/

theorem kind_truncated : (truncated n v).kind = v.kind := by
  cases v <;> rfl

theorem complies_length (h : checkLength keyword lax n v = .replaced w) :
    w.kind = v.kind ∧ checkLength keyword false n w = .kept := by
  obtain ⟨m, hm, hlong, rfl, hmin⟩ := checkLength_eq_replaced h
  refine ⟨kind_truncated, ?_⟩
  rw [checkLength, size?_truncated hm hlong.le]
  cases keyword <;> simp_all

theorem complies_unique (hv : v.Proper) (h : checkUnique lax v = .replaced w) :
    w.kind = v.kind ∧ checkUnique false w = .kept := by
  obtain ⟨items, hitems, hdistinct, hkind, hordered⟩ := checkUnique_eq_replaced h
  have hproper : ∀ u ∈ Value.distinct items, u.Proper := fun u hu =>
    Converter.proper_of_items? hv hitems u (Value.mem_of_mem_distinct hu)
  have hnone := Value.allDistinct_of_apart hproper (Value.apart_distinct items)
  refine ⟨hkind, ?_⟩
  cases w with
  | list others | tuple others =>
    cases hdistinct
    rw [checkUnique, Verdict.decide_eq_kept]
    exact hnone
  | _ => rcases hordered with h | h <;> cases h

/-! ### Fixed values -/

theorem complies_const (hb : b.Proper) (h : checkConst lax b v = .replaced w) :
    w = b ∧ checkConst false b w = .kept := by
  obtain ⟨-, -, hw⟩ := Verdict.decide_eq_replaced.mp h
  cases hw
  exact ⟨rfl, Verdict.decide_eq_kept.mpr (Value.equivalent_self hb)⟩

/-! ### All keywords -/

/-- A constraint that applies to the kind of a value, with an operand that was brought to this kind where values are compared
    with it. -/
structure Suits (c : Constraint ρ) (v : Value) : Prop where
  supported : c.keyword.supports v.kind = true
  scalar : c.keyword ∈ [.gt, .ge, .lt, .le, .const] → c.scalar.kind = v.kind ∧ c.scalar.Proper

theorem complies_of_suits (h : c.Suits v) (hkind : v.kind ∈ [.int, .decimal, .str, .bytes, .list, .tuple, .set, .map])
    (hv : v.Proper) (hw : c.verdict v = .replaced w) :
    (w.kind = v.kind ∧ c.strict.verdict w = .kept) ∨ c.Unattainable v := by
  have hsupported := h.supported
  have hnumber (hk : c.keyword ∈ [.multipleOf, .decimalPlaces, .maxDigits]) : v.kind = .int ∨ v.kind = .decimal := by
    revert hsupported hk hkind
    cases c.keyword <;> cases v.kind <;> decide
  -- Each family of keywords mends a value in its own way; then the strict keyword is asked about the new one.
  rcases c.keyword.families with hconst | hbound | hmultiple | hnone | hprecision | hlength | hunique
  · obtain ⟨hbound, hproper⟩ := h.scalar (by rw [hconst]; decide)
    rw [verdict_const hconst] at hw
    obtain ⟨rfl, hkept⟩ := complies_const hproper hw
    exact .inl ⟨hbound, (verdict_const (s := c.strict) hconst _).trans hkept⟩
  · have hordered : v.kind ∈ [.int, .decimal, .str, .bytes] := by
      revert hsupported hbound hkind
      cases c.keyword <;> cases v.kind <;> decide
    obtain ⟨hb, -⟩ := h.scalar (List.mem_of_mem_take (i := 4) hbound)
    rw [verdict_bound hbound] at hw
    obtain ⟨hlike, hkept⟩ := complies_bound hbound (hb ▸ hordered) hw
    exact .inl ⟨hlike.trans hb, (verdict_bound (s := c.strict) hbound w).trans hkept⟩
  · by_cases hattained : ∀ x, nearestMultiple? c.scalar v = some x → v.kind.Holds x
    · rw [verdict_multiple hmultiple] at hw
      obtain ⟨hlike, hkept⟩ := complies_multiple (hnumber (by rw [hmultiple]; decide)) hw hattained
      exact .inl ⟨hlike, (verdict_multiple (s := c.strict) hmultiple w).trans hkept⟩
    · push Not at hattained
      obtain ⟨x, hx, hmissed⟩ := hattained
      exact .inr (.multiple hmultiple hx hmissed)
  · exact absurd hw (not_replaced hnone)
  · have hreal : v.kind ≠ .float := by
      rcases hnumber (List.mem_cons_of_mem _ hprecision) with h | h <;> rw [h] <;> decide
    by_cases hnil : c.keyword = .maxDigits ∧ c.count % twoTo 32 = 0 ∧ v.kind = .decimal
    · exact .inr (.digits hnil.1 hnil.2.1 hnil.2.2)
    · rw [verdict_precision hprecision] at hw
      obtain ⟨hlike, hkept⟩ := complies_precision hprecision hreal hw
        fun hdecimal hdigits hzero => hnil ⟨hdigits, hzero, hdecimal⟩
      exact .inl ⟨hlike, (verdict_precision (s := c.strict) hprecision w).trans hkept⟩
  · rw [verdict_length hlength] at hw
    obtain ⟨hlike, hkept⟩ := complies_length hw
    exact .inl ⟨hlike, (verdict_length (s := c.strict) hlength w).trans hkept⟩
  · rw [verdict_unique hunique] at hw
    obtain ⟨hlike, hkept⟩ := complies_unique hv hw
    exact .inl ⟨hlike, (verdict_unique (s := c.strict) hunique w).trans hkept⟩

end Constraint

/-! ### Declared constraints -/

namespace Rule

variable {origin : Target} {args : List Rule} {declared : List Declared} {before after : Option Hook}
  {onError : Option ErrorPolicy} {r : Rule} {c : Constraint Rule} {d : Declared} {v w : Value}

/-- A constraint of a rule suits the values of the rule's kind. -/
theorem suits_of_declare (h : declare origin args declared before after onError = .ok r)
    (hdeclared : ∀ k u lax, Declared.value k u lax ∈ declared → u.Proper) (hc : c ∈ r.constraints)
    (horigin : origin.kind? = some v.kind) (hkind : v.kind ≠ .enum) : c.Suits v := by
  obtain ⟨cs, hcs, hr⟩ := bind_eq_ok.mp h
  cases hr
  obtain ⟨d, hd, hof⟩ := exists_of_declareConstraints hcs c hc
  refine ⟨supports_of_constraintOf hof horigin, fun hk => ?_⟩
  obtain ⟨u, lax, rfl, -, hconvert⟩ := convert_of_constraintOf hof hk
  exact ⟨Registry.kind_of_convert horigin hconvert,
    Registry.proper_of_convert horigin hkind (hdeclared _ u lax hd) hconvert⟩

/-- A lax constraint of a rule puts a value of the same kind in the place of another, which the strict one accepts, if
    there is one to put. -/
theorem complies_or_unattainable (h : declare origin args declared before after onError = .ok r)
    (hdeclared : ∀ k u lax, Declared.value k u lax ∈ declared → u.Proper) (hc : c ∈ r.constraints)
    (horigin : origin.kind? = some v.kind) (hkind : v.kind ∈ [.int, .decimal, .str, .bytes, .list, .tuple, .set, .map])
    (hv : v.Proper) (hw : c.verdict v = .replaced w) :
    (w.kind = v.kind ∧ c.strict.verdict w = .kept) ∨ c.Unattainable v :=
  have hplain : v.kind ≠ .enum := fun henum => absurd (henum ▸ hkind) (by decide)
  Constraint.complies_of_suits (suits_of_declare h hdeclared hc horigin hplain) hkind hv hw

/-- Rounding up would carry into a third digit, so the number is cut off. -/
theorem complies_shortened :
    let shorten : Constraint Rule := ⟨.maxDigits, .value (.int 2), true⟩
    let price : Value := .decimal ⟨false, 9995, 2, by decide, by decide⟩
    let cut : Value := .decimal ⟨false, 99, 0, by decide, by decide⟩
    declare .decimal [] [.value .maxDigits (.int 2) true] none none none =
        .ok (.mk ⟨some .decimal, [], [shorten], none, none, none, none⟩) ∧
      shorten.verdict price = .replaced cut ∧ cut.kind = price.kind ∧ shorten.strict.verdict cut = .kept := by
  intro shorten price cut
  have hr : declare .decimal [] [.value .maxDigits (.int 2) true] none none none =
      .ok (.mk ⟨some .decimal, [], [shorten], none, none, none, none⟩) := rfl
  have hw : shorten.verdict price = .replaced cut := by
    change Constraint.checkPrecision .maxDigits true 2 price = .replaced cut
    rfl
  have hdeclared : ∀ k u lax, Declared.value k u lax ∈ [Declared.value .maxDigits (.int 2) true] → u.Proper := by
    intro k u lax hmem
    cases List.mem_singleton.mp hmem
    exact .scalar rfl
  refine ⟨hr, hw, ?_⟩
  refine (complies_or_unattainable hr hdeclared List.mem_cons_self rfl (by decide) (.scalar rfl) hw).resolve_right ?_
  rintro (⟨hk, -, -⟩ | ⟨-, hcount, -⟩)
  · cases hk
  · exact absurd hcount (by decide)

/-! ### What is missed -/

/-- Whether a lax constraint puts something in the place of a value that is of another kind or that the strict one refuses. -/
def misses (origin : Target) (d : Declared) (v : Value) : Bool :=
  origin.kind? == some v.kind && match declare origin [] [d] none none none with
    | .error _ => false
    | .ok r => r.constraints.any fun c => match c.verdict v with
      | .replaced w => w.kind != v.kind || match c.strict.verdict w with
        | .kept => false
        | _ => true
      | _ => false

/-- A declared constraint that puts in the place of a value of the origin's kind what is of another kind or what the strict
    one refuses. -/
def Misses (origin : Target) (d : Declared) (v : Value) : Prop :=
  ∃ r c w, origin.kind? = some v.kind ∧ declare origin [] [d] none none none = .ok r ∧ c ∈ r.constraints ∧
    c.verdict v = .replaced w ∧ ¬ (w.kind = v.kind ∧ c.strict.verdict w = .kept)

theorem misses_of_check {origin : Target} {d : Declared} {v : Value} (h : misses origin d v = true) : Misses origin d v := by
  obtain ⟨hkind, h⟩ := Bool.and_eq_true_iff.mp h
  split at h
  case h_1 => cases h
  case h_2 r hr =>
    obtain ⟨c, hc, h⟩ := List.any_eq_true.mp h
    split at h
    case h_1 w hw =>
      refine ⟨r, c, w, beq_iff_eq.mp hkind, hr, hc, hw, ?_⟩
      rintro ⟨hsame, hkept⟩
      simp [hsame, hkept] at h
    case h_2 => cases h

/-- The nearest multiple is no integer, it is beyond 64 bits, it is rounded to 96 of them, or no digit is left. -/
theorem compliance_missed :
    let decimal (mantissa scale : Nat) : Value := ((Decimal.make? false mantissa scale).map .decimal).getD .null
    Misses .int (.value .multipleOf (decimal 25 1) true) (.int 2) ∧
    Misses .int (.value .multipleOf (.int 10) true) (.int 9223372036854775807) ∧
    Misses .decimal (.value .multipleOf (decimal 10000000000000000000000000001 28) true) (decimal 200000000015 1) ∧
    Misses .decimal (.value .maxDigits (.int 0) true) (decimal 5 1) := by
  intro decimal
  exact ⟨misses_of_check (by decide +kernel), misses_of_check (by decide +kernel), misses_of_check (by decide +kernel),
    misses_of_check (by decide +kernel)⟩

end Rule

end Conform

import Conform.Proofs.Rule.Meaning

/-! Rules of numbers with a single constraint. A number that is of the origin already has no elements for the arguments
    of a rule, so all that is done to it is what the constraint says: it is kept, replaced or refused. -/

namespace Conform

open Parse

/-- A number that is stored as one. -/
abbrev Value.IsNumber (v : Value) : Prop := v.kind = .int ∨ v.kind = .decimal

/-- What belongs to a target of numbers is of its kind. -/
theorem Value.kind_of_isExact {origin : Target} {v : Value} (horigin : origin = .int ∨ origin = .decimal)
    (hexact : origin.isExact v = true) : origin.kind? = some v.kind ∧ v.IsNumber := by
  rcases horigin with rfl | rfl
  · have hkind : some Kind.int = some v.kind := beq_iff_eq.mp hexact
    exact ⟨hkind, .inl (Option.some.inj hkind).symm⟩
  · have hkind : some Kind.decimal = some v.kind := beq_iff_eq.mp hexact
    exact ⟨hkind, .inr (Option.some.inj hkind).symm⟩

namespace Verdict

/-- What a verdict on a value leaves. -/
def result (v : Value) : Verdict → Option Value
  | kept => some v
  | replaced w => some w
  | violated => none

theorem result_decide (complies lax : Bool) (nearest : Option Value) (v : Value) :
    (decide complies lax nearest).result v = if complies then some v else if lax then nearest else none := by
  cases complies <;> cases lax <;> cases nearest <;> rfl

end Verdict

variable {origin : Target} {args : List Rule} {onError : Option ErrorPolicy} {k : Keyword} {v w : Value} {lax : Bool}

/-! ### Declaring -/

namespace Rule

section Agreement

variable {c : Constraint Rule} {low high : Keyword}

theorem valueOf?_single_of_ne (h : c.keyword ≠ k) : valueOf? [c] k = none := by
  simp [valueOf?, h]

theorem countOf?_single_of_ne (h : c.keyword ≠ k) : countOf? [c] k = none := by
  rw [countOf?, valueOf?_single_of_ne h, Option.bind_none]

theorem checkCounts_single (hne : low ≠ high) (blamed : Keyword) (fault : OperandFault) :
    checkCounts [c] low high blamed fault = .ok () := by
  unfold checkCounts
  by_cases hlow : c.keyword = low
  · rw [countOf?_single_of_ne (k := high) (hlow ▸ hne)]
    cases countOf? [c] low <;> rfl
  · rw [countOf?_single_of_ne hlow]

theorem checkContained_single (h : c.keyword ≠ k) : checkContained [c] k = .ok () := by
  rw [checkContained, countOf?_single_of_ne h]

theorem checkBounds_single (c : Constraint Rule) : checkBounds [c] = .ok () := by
  have hside : boundOf? [c] .gt .ge = none ∨ boundOf? [c] .lt .le = none := by
    unfold boundOf?
    by_cases hlow : c.keyword = .gt ∨ c.keyword = .ge
    · right
      rw [valueOf?_single_of_ne (k := .lt) (by rcases hlow with h | h <;> simp [h]),
        valueOf?_single_of_ne (k := .le) (by rcases hlow with h | h <;> simp [h])]
      rfl
    · left
      rw [not_or] at hlow
      rw [valueOf?_single_of_ne hlow.1, valueOf?_single_of_ne hlow.2]
      rfl
  unfold checkBounds
  rcases hside with h | h <;> rw [h]
  cases boundOf? [c] .gt .ge <;> rfl

/-- A constraint agrees with itself, unless it counts items for one that is not there. -/
theorem checkAgreement_single (hleast : c.keyword ≠ .minContains) (hmost : c.keyword ≠ .maxContains) :
    checkAgreement [c] = .ok () := by
  unfold checkAgreement
  simp only [checkBounds_single, checkContained_single hleast, checkContained_single hmost]
  repeat rw [checkCounts_single (by decide)]
  rfl

theorem withoutSuppressed_single (c : Constraint Rule) : withoutSuppressed [c] = [c] := by
  unfold withoutSuppressed
  split
  next k hk =>
    have hkeyword : (c.keyword == k) = true := by simpa using List.find?_some hk
    simp [hkeyword]
  · rfl

end Agreement

/-- A constraint that needs no other is declared as it is. -/
theorem declareConstraints_single (hk : k ∉ [.uniqueItems, .minContains, .maxContains]) :
    declareConstraints origin [.value k v lax] = (constraintOf origin (.value k v lax)).map ([·]) := by
  simp only [List.mem_cons, List.not_mem_nil, or_false, not_or] at hk
  obtain ⟨hunique, hleast, hmost⟩ := hk
  have hexclusive : checkExclusive [k] = .ok () := by
    cases k <;> rfl
  unfold declareConstraints
  simp only [checkOnce, List.contains_nil, Bool.false_eq_true, if_false, List.map_cons, List.map_nil, Declared.keyword,
    hexclusive, List.mapM_cons, List.mapM_nil]
  cases hc : constraintOf origin (.value k v lax) with
  | error e => rfl
  | ok c =>
    obtain ⟨hkeyword, -, -⟩ := constraintOf_eq_ok hc
    have hvoid : isVoid c = false := by
      unfold isVoid
      split
      · exact absurd hkeyword.symm hunique
      · rfl
    show (do
      checkAgreement ([c].filter (!isVoid ·))
      pure (sortConstraints (withoutSuppressed ([c].filter (!isVoid ·))))) = _
    rw [List.filter_singleton, hvoid, Bool.not_false, cond_true,
      checkAgreement_single (hkeyword ▸ hleast) (hkeyword ▸ hmost), withoutSuppressed_single]
    rfl

theorem declare_single {c : Constraint Rule} (hk : k ∉ [.uniqueItems, .minContains, .maxContains])
    (hc : constraintOf origin (.value k v lax) = .ok c) :
    declare origin args [.value k v lax] none none onError =
      .ok (.mk ⟨some origin, args, [c], none, none, none, onError⟩) := by
  unfold declare
  rw [declareConstraints_single hk, hc]
  rfl

end Rule

/-! ### Reading -/

namespace Reading

variable {E : Entities}

/-- A number of the origin is not converted, and has no elements for the arguments of a rule. -/
theorem readLayer_number (hE : E origin = .plain) {l : Layer Reading} (horigin : l.origin = some origin)
    (logic : l.logic = none) (before : l.before = none) (after : l.after = none) (hnumber : v.IsNumber)
    (hexact : origin.isExact v = true) :
    readLayer E l v = (do
      let _ ← Parse.options
      let _ ← Parse.options
      limited l.constraints v) := by
  have harguments : arguments l.args l.onError v = (do
      let _ ← Parse.options
      pure v) := by
    unfold arguments
    cases v with
    | int | decimal => cases l.args <;> rfl
    | _ => rcases hnumber with h | h <;> cases h
  have hconverted : ofOrigin E origin v = (do
      let _ ← Parse.options
      pure v) := by
    have hkept (o : Options) : o.convert v origin = .ok v := Registry.convert_of_isExact _ hexact
    unfold ofOrigin converted
    simp only [hE, bind_pure, hkept]
  rw [Meaning.readLayer_of_bare logic before after, horigin, Option.elim_some, hconverted]
  simp only [bind_assoc, pure_bind, harguments]

/-- A single constraint that does not look into a value does what its verdict says. -/
theorem computes_single {c : Constraint Reading} (hc : c.keyword ≠ .contains) (v : Value) :
    Computes (fun o _ => if o.ignoresConstraints then some v else (c.verdict v).result v) (limited [c] v) := by
  have hcheck : Computes (fun _ _ => match c.verdict v with
      | .kept => some none
      | .replaced w => some (some w)
      | .violated => none) (check [c] c v) := by
    rw [check_eq hc]
    cases c.verdict v with
    | kept => exact .pure none
    | replaced w => exact .pure (some w)
    | violated => exact Meaning.computes_violation c v
  refine .bind_options (n := fun p _ _ => if p.ignoresConstraints then some v else (c.verdict v).result v) fun p => ?_
  cases p.ignoresConstraints with
  | true => exact .pure v
  | false =>
    rw [cond_false, Coupling.constrained_cons]
    refine ((hcheck.recover none).bind fun x => .pure (x.getD v)).congr fun o depth _ => ?_
    cases c.verdict v <;> rfl

end Reading

namespace Catalog

variable {c : Catalog} {o : Options} {calls : Calls}

/-- A number under a single constraint is what the verdict on it leaves, and refused if that is nothing. -/
theorem apply_single_iff {con : Constraint Rule} (hcon : con.keyword ≠ .contains)
    (horigin : origin = .int ∨ origin = .decimal) (hexact : origin.isExact v = true) (ho : o.Throws)
    (hchecks : o.ignoresConstraints = false) :
    (c.apply (.mk ⟨some origin, args, [con], none, none, none, onError⟩) v o calls).1 = .ok w ↔
      (con.verdict v).result v = some w := by
  have hplain : c.entities o origin = .plain := by
    refine c.entities_eq_plain o origin ?_
    rcases horigin with rfl | rfl <;> rfl
  have hnumber := (Value.kind_of_isExact horigin hexact).2
  have hlimited := Computes.bind_options fun _ => .bind_options fun _ =>
    Reading.computes_single (c := con.map (Rule.reading (c.entities o))) hcon v
  rw [apply_eq_ok_iff, Coupling.read_reading,
    Reading.readLayer_number hplain rfl rfl rfl rfl hnumber hexact]
  refine (hlimited.accepts ⟨.root o, calls⟩ rfl ho w).trans ?_
  show (if o.ignoresConstraints then some v else _) = some w ↔ _
  rw [hchecks, Constraint.verdict_map]
  rfl

end Catalog

end Conform

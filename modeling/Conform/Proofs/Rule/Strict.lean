import Conform.Proofs.Rule.Constrained
import Conform.Proofs.Rule.Declaration

/-! Strict constraints of a rule. What a rule makes of a value is what it makes of it without constraints, mended
    by these in turn. A strict constraint kept what stood there at its turn, so the value that is given upholds
    it, unless a lax one has put another value there since then, in a way that disturbs the strict one. -/

namespace Conform

open Parse

/-! ### Rules without constraints -/

/-- A rule without its constraints. -/
def Rule.unconstrained (r : Rule) : Rule := .mk { r.layer with constraints := [] }

/-- How many items have to satisfy the rule that a constraint speaks of. -/
def Rule.leastContained (r : Rule) : Nat :=
  ((r.constraints.find? (·.keyword == .minContains)).map Constraint.count).getD 1

/-- Of two settled constraints, the first agrees with the second. -/
theorem Rule.Settled.agree {before after : List (Constraint Rule)} {s l : Constraint Rule}
    (h : Settled (before ++ l :: after)) (hs : s ∈ before) : s.Agree l := by
  have hs' : s ∈ before ++ l :: after := List.mem_append_left _ hs
  have hl' : l ∈ before ++ l :: after := List.mem_append_right _ List.mem_cons_self
  have hrank : Before s l := (List.pairwise_append.mp h.ordered).2.2 s hs l List.mem_cons_self
  refine ⟨hrank, h.lower s hs' l hl', h.upper s hs' l hl', ?_, ?_, ?_⟩
  · intro hfixed
    have hsame := h.alone s hs' l hl' (by simpa using hfixed)
    rw [Before, hsame] at hrank
    exact absurd hrank (Nat.lt_irrefl _)
  · intro hfixed
    have hsame := h.alone l hl' s hs' (by simpa using hfixed)
    rw [Before, hsame] at hrank
    exact absurd hrank (Nat.lt_irrefl _)
  · exact fun hlength hmax => h.lengths s hs' l hl' (by simpa using hlength) hmax

namespace Catalog

/-- A constraint of a rule that is checked by itself, at the root, and keeps a value. -/
def Upholds (c : Catalog) (r : Rule) (s : Constraint Rule) (v : Value) : Prop :=
  let read := Rule.reading (c.entities {})
  ∀ calls, (Parse.atRoot {} calls (Reading.check (r.constraints.map (·.map read)) (s.map read) v)).1 = .ok none

section Upholds

variable {c : Catalog} {r : Rule} {s : Constraint Rule} {v : Value}

theorem upholds_iff_accepts :
    c.Upholds r s v ↔ ∀ calls, ∃ t, Accepts (Reading.check (r.constraints.map (·.map (Rule.reading (c.entities {}))))
      (s.map (Rule.reading (c.entities {}))) v) ⟨.root {}, calls⟩ none t := by
  unfold Upholds atRoot
  refine forall_congr' fun calls => ?_
  constructor
  · intro h
    refine ⟨_, Prod.ext h rfl, ?_⟩
    rw [Reading.context_check (Prod.ext h rfl)]
    rfl
  · rintro ⟨t, hok, -⟩
    exact congrArg Prod.fst hok

theorem upholds_iff_kept (h : s.keyword ≠ .contains) : c.Upholds r s v ↔ s.verdict v = .kept := by
  rw [upholds_iff_accepts, ← Constraint.verdict_map (Rule.reading (c.entities {})) s v]
  constructor
  · intro hall
    exact (Reading.accepts_check_iff h rfl).mp (hall Calls.none)
  · exact fun hkept calls => (Reading.accepts_check_iff h rfl).mpr hkept

/-- The readings of a rule's constraints are alike wherever what is known of the entities is. -/
theorem alike_constraints {K : Coupling} (hE : K.AlikeEntities (c.entities {}) (c.entities {})) (r : Rule) :
    List.Forall₂ K.AlikeConstraint (r.constraints.map (·.map (Rule.reading (c.entities {}))))
      (r.constraints.map (·.map (Rule.reading (c.entities {})))) :=
  have hall : r.layer.All fun q => K.Alike (q.reading (c.entities {})) (q.reading (c.entities {})) :=
    ⟨fun q _ => Coupling.alike_reading hE q, fun _ _ q _ => Coupling.alike_reading hE q,
      fun _ _ q _ => Coupling.alike_reading hE q⟩
  (Coupling.alikeLayer_map hall).constraints

theorem alike_success (hpure : ∀ schema ∈ c.schemas, schema.Pure) :
    Coupling.success.AlikeEntities (c.entities {}) (c.entities {}) :=
  Coupling.alike_entities (fun schema hschema => (hpure schema hschema).suits_success) rfl

/-- What passes a constraint at its turn upholds it. -/
theorem upholds_of_accepts (hs : s ∈ r.constraints) (hpure : s.keyword = .contains → ∀ schema ∈ c.schemas, schema.Pure)
    {a t : ParseState} (ha : a.AtStart)
    (h : Accepts (Reading.check (r.constraints.map (·.map (Rule.reading (c.entities {}))))
      (s.map (Rule.reading (c.entities {}))) v) a none t) : c.Upholds r s v := by
  by_cases hcontains : s.keyword = .contains
  · have hconstraints := alike_constraints (alike_success (hpure hcontains)) r
    have hconstraint := List.forall₂_same.mp hconstraints _ (List.mem_map_of_mem hs)
    refine upholds_iff_accepts.mpr fun calls => ?_
    obtain ⟨x, t', hroot, hx⟩ := (Coupling.rel_check (fun _ => rfl) hconstraint v).follows _ _
      (ha.beside (.root calls)) none t h
    cases hx
    exact ⟨t', hroot⟩
  · refine (upholds_iff_kept hcontains).mpr ?_
    rw [← Constraint.verdict_map (Rule.reading (c.entities {})) s v]
    exact (Reading.accepts_check_iff hcontains ha.clean).mp ⟨t, h⟩

theorem siblingCount?_map (E : Entities) (r : Rule) (keyword : Keyword) :
    Reading.siblingCount? (r.constraints.map (·.map (Rule.reading E))) keyword =
      (r.constraints.find? (·.keyword == keyword)).map Constraint.count :=
  Constraint.find?_count_map _ _ keyword

/-- A count of items that satisfy a rule is upheld by a value with a number of such items that is allowed. -/
theorem upholds_contains_iff (hcontains : s.keyword = .contains) (hpure : ∀ schema ∈ c.schemas, schema.Pure) {q : Rule}
    (hq : s.operand = .rule q) {items : List Value} (hitems : v.items? = some items) :
    c.Upholds r s v ↔ r.leastContained ≤ items.countP (q.reading (c.entities {})).satisfies ∧
      ∀ most ∈ (r.constraints.find? (·.keyword == .maxContains)).map Constraint.count,
        items.countP (q.reading (c.entities {})).satisfies ≤ most := by
  have hcoupled := (Coupling.alike_reading (alike_success hpure) q).toCoupled
  have hcheck : Reading.check (r.constraints.map (·.map (Rule.reading (c.entities {}))))
      (s.map (Rule.reading (c.entities {}))) v =
        Reading.checkContained (r.constraints.map (·.map (Rule.reading (c.entities {}))))
          (q.reading (c.entities {})) items := by
    obtain ⟨k, o, lax⟩ := s
    obtain rfl : k = .contains := hcontains
    obtain rfl : o = .rule q := hq
    simp only [Reading.check, Constraint.map, Operand.map, hitems]
  rw [upholds_iff_accepts, hcheck]
  simp only [Reading.accepts_checkContained_iff hcoupled (.root _), siblingCount?_map]
  exact forall_const _

/-- A constraint that a value upholds, and not what another puts in its place, is disturbed by that one. -/
theorem disturbs_of_not_upholds {l : Constraint Rule} {u : Value} (hagree : s.Agree l)
    (hpure : s.keyword = .contains → ∀ schema ∈ c.schemas, schema.Pure) (hv : c.Upholds r s v)
    (hl : l.verdict v = .replaced u) (hu : ¬ c.Upholds r s u) :
    Disturbs r.leastContained s.keyword l.keyword u := by
  by_cases hcontains : s.keyword = .contains
  · have hunique : l.keyword = .uniqueItems :=
      (Keyword.after_contains (hcontains ▸ hagree.before)).resolve_left fun hnone => Constraint.not_replaced hnone hl
    have hverdict : l.verdict v = Constraint.checkUnique l.lax v := by rw [Constraint.verdict, hunique]
    rw [hverdict] at hl
    obtain ⟨items, hitems, hdistinct, -, hkind⟩ := Constraint.checkUnique_eq_replaced hl
    rw [hcontains, hunique]
    refine .uncounted (by simpa using hkind) ?_
    cases hq : s.operand with
    | rule q =>
      rw [upholds_contains_iff hcontains (hpure hcontains) hq hitems] at hv
      rw [upholds_contains_iff hcontains (hpure hcontains) hq hdistinct] at hu
      -- Fewer items satisfy the rule than before, so no longer too many; what they fall short of is positive.
      have hfewer := (Value.distinct_sublist items).countP_le (p := (q.reading (c.entities {})).satisfies)
      by_contra hzero
      exact hu ⟨by omega, fun most hmost => Nat.le_trans hfewer (hv.2 most hmost)⟩
    | value | pattern =>
      refine absurd (fun calls => ?_) hu
      obtain ⟨k, o, lax⟩ := s
      obtain rfl : k = .contains := hcontains
      cases hq
      rfl
  · rw [upholds_iff_kept hcontains] at hv hu
    exact Constraint.disturbs_of_lost hagree hv hl hu

end Upholds

/-! ### What a rule makes of a value -/

section Apply

variable {c : Catalog} {r : Rule} {v w : Value} {calls : Calls}

theorem reading_behaves (c : Catalog) (r : Rule) (v : Value) : Behaves (fun w => ∃ u, w = u)
    (Reading.readLayer (c.entities {}) (r.layer.map (Rule.reading (c.entities {}))) v) :=
  Coupling.read_reading (c.entities {}) r v ▸ ((Coupling.alike_reading (Coupling.alike_sound c {}) r).read v).left

/-- What a rule without a last hook makes of a value is what it makes of it without constraints, mended in turn;
    each of its constraints has passed what stood there at its turn. -/
theorem mended_of_apply (hafter : r.layer.after = none) (h : (c.apply r v {} calls).1 = .ok w) :
    ∃ x, (c.apply r.unconstrained v {} calls).1 = .ok x ∧ w = Constraint.mendedAll r.constraints x ∧
      ∀ before s after, r.constraints = before ++ s :: after → ∃ a y t, a.AtStart ∧
        Accepts (Reading.check (r.constraints.map (·.map (Rule.reading (c.entities {}))))
          (s.map (Rule.reading (c.entities {}))) (Constraint.mendedAll before x)) a y t := by
  obtain ⟨t, haccepts⟩ := apply_eq_ok_iff.mp h
  rw [Coupling.read_reading] at haccepts
  have hE := Coupling.alike_sound c {}
  have hconstraints := alike_constraints hE r
  rw [Reading.readLayer_eq_limited _ hafter] at haccepts
  have hbare := reading_behaves c r.unconstrained v
  obtain ⟨x, a, hx, -, hleads, hlimited⟩ :=
    (accepts_bind hbare (fun x _ => (Reading.rel_limited hconstraints x).left) (Context.solid_of_clean rfl)).mp haccepts
  have hoptions : a.context.options.ignoresConstraints = false := by rw [hleads.options]; rfl
  unfold Reading.limited Accepts at hlimited
  rw [outcome_bind_of_ok (outcome_options a), hoptions] at hlimited
  obtain ⟨hw, hturns⟩ := Reading.accepts_constrained hconstraints hx.2 hlimited
  rw [Constraint.mendedAll_map] at hw
  rw [← Coupling.read_reading] at hx
  refine ⟨x, apply_eq_ok_iff.mpr ⟨a, hx⟩, hw, fun before s after hsplit => ?_⟩
  obtain ⟨b, y, t', hleads', hclean, hpassed⟩ := hturns (before.map (·.map (Rule.reading (c.entities {}))))
    (s.map (Rule.reading (c.entities {}))) (after.map (·.map (Rule.reading (c.entities {}))))
    (by rw [hsplit, List.map_append, List.map_cons])
  rw [Constraint.mendedAll_map] at hpassed
  exact ⟨b, y, t', ⟨hleads.trans hleads', hclean⟩, hpassed⟩

/-- What a declared rule makes of an input upholds its strict constraints, each of them unless a lax one after it
    has put a value there that it refuses, in a way that disturbs it. -/
theorem upholds_or_disturbed {origin : Target} {args : List Rule} {declared : List Declared} {before : Option Hook}
    {onError : Option ErrorPolicy} (hr : Rule.declare origin args declared before none onError = .ok r)
    (h : (c.apply r v {} calls).1 = .ok w) :
    ∃ x, (c.apply r.unconstrained v {} calls).1 = .ok x ∧ w = Constraint.mendedAll r.constraints x ∧
      ∀ s ∈ r.constraints, s.lax = false → (s.keyword = .contains → ∀ schema ∈ c.schemas, schema.Pure) →
        c.Upholds r s w ∨ ∃ earlier l later u, r.constraints = earlier ++ l :: later ∧ s ∈ earlier ∧ l.lax = true ∧
          l.verdict (Constraint.mendedAll earlier x) = .replaced u ∧ ¬ c.Upholds r s u ∧
          Disturbs r.leastContained s.keyword l.keyword u := by
  obtain ⟨hsettled, hafter⟩ := Rule.settled_of_declare hr
  obtain ⟨x, hx, hw, hturns⟩ := mended_of_apply hafter h
  refine ⟨x, hx, hw, fun s hs hstrict hpure => ?_⟩
  obtain ⟨earlier, later, hsplit⟩ := List.append_of_mem hs
  obtain ⟨a, y, t, ha, hpassed⟩ := hturns earlier s later hsplit
  obtain rfl := Reading.eq_none_of_accepts_check (c := s.map _) hstrict hpassed
  have hpoint : Constraint.mendedAll (earlier ++ [s]) x = Constraint.mendedAll earlier x := by
    rw [Constraint.mendedAll_append]
    exact Constraint.mended_of_strict hstrict _
  have hupholds := upholds_of_accepts hs hpure ha hpassed
  rw [← hpoint] at hupholds
  -- From its own turn on, the constraint is upheld to the end or lost at a later turn.
  rw [hw]
  rw [List.append_cons] at hsplit
  rw [hsplit, Constraint.mendedAll_append]
  refine (Constraint.holds_or_lost hupholds).imp id ?_
  rintro ⟨middle, l, rest, u, rfl, hbefore, hl, hlost⟩
  have hmember : s ∈ earlier ++ [s] ++ middle :=
    List.mem_append_left _ (List.mem_append_right _ (List.mem_singleton_self s))
  rw [← Constraint.mendedAll_append] at hbefore hl
  rw [← List.append_assoc] at hsplit
  refine ⟨earlier ++ [s] ++ middle, l, rest, u, (List.append_assoc ..).symm, hmember, Constraint.lax_of_replaced hl, hl,
    hlost, ?_⟩
  have hagree : s.Agree l := Rule.Settled.agree (hsplit ▸ hsettled) hmember
  exact disturbs_of_not_upholds hagree hpure hbefore hl hlost

/-- A text that is cut still comes before the bound that it came before as a whole. -/
theorem upholds_truncated :
    let bound : Constraint Rule := ⟨.le, .value (.str "zz"), false⟩
    let cut : Constraint Rule := ⟨.maxLength, .value (.int 2), true⟩
    let r : Rule := .mk ⟨some .str, [], [bound, cut], none, none, none, none⟩
    Rule.declare .str [] [.value .maxLength (.int 2) true, .value .le (.str "zz") false] none none none = .ok r ∧
      (Catalog.apply {} r (.str "zebra") {} Calls.none).1 = .ok (.str "ze") ∧ Catalog.Upholds {} r bound (.str "ze") := by
  intro bound cut r
  have hr : Rule.declare .str [] [.value .maxLength (.int 2) true, .value .le (.str "zz") false] none none none =
      .ok r := rfl
  have happly : (Catalog.apply {} r (.str "zebra") {} Calls.none).1 = .ok (.str "ze") := rfl
  refine ⟨hr, happly, ?_⟩
  obtain ⟨x, -, -, hstrict⟩ := upholds_or_disturbed hr happly
  refine (hstrict bound List.mem_cons_self rfl (fun h => nomatch h)).resolve_right ?_
  rintro ⟨earlier, l, later, u, hsplit, -, -, -, -, hdisturbs⟩
  have hl : l ∈ [bound, cut] := by
    show l ∈ r.constraints
    rw [hsplit]
    exact List.mem_append_right _ List.mem_cons_self
  have hkeyword : l.keyword = .le ∨ l.keyword = .maxLength := by
    rcases List.mem_pair.mp hl with rfl | rfl
    · exact .inl rfl
    · exact .inr rfl
  have hnone (k : Keyword) (hk : k = .le ∨ k = .maxLength) : ¬ Disturbs r.leastContained .le k u := by
    intro h
    cases h with
    | rounded => rcases hk with hk | hk <;> cases hk
    | shortened _ hprecision => rcases hk with rfl | rfl <;> revert hprecision <;> decide
    | clamped hlower => exact absurd hlower (by decide)
    | cut hlower => exact absurd hlower (by decide)
    | thinned hlength => exact absurd hlength (by decide)
  exact hnone l.keyword hkeyword hdisturbs

end Apply

/-! ### What is lost -/

/-- Whether a declared rule makes of an input a value that the strict constraint of a keyword refuses later. -/
def loses (c : Catalog) (later : Calls) (origin : Target) (declared : List Declared) (keyword : Keyword) (v : Value) :
    Bool :=
  let read := Rule.reading (c.entities {})
  match Rule.declare origin [] declared none none none with
  | .error _ => false
  | .ok r =>
    match r.constraints.find? (·.keyword == keyword), (c.apply r v {} Calls.none).1 with
    | some s, .ok w =>
      match (Parse.atRoot {} later (Reading.check (r.constraints.map (·.map read)) (s.map read) w)).1 with
      | .ok none => false
      | _ => !s.lax
    | _, _ => false

/-- A declared rule that makes of an input a value which does not uphold its strict constraint of a keyword. -/
def Loses (c : Catalog) (origin : Target) (declared : List Declared) (keyword : Keyword) (v : Value) : Prop :=
  ∃ r s w, Rule.declare origin [] declared none none none = .ok r ∧ s ∈ r.constraints ∧ s.keyword = keyword ∧
    s.lax = false ∧ (c.apply r v {} Calls.none).1 = .ok w ∧ ¬ c.Upholds r s w

theorem loses_of_later {c : Catalog} {origin : Target} {declared : List Declared} {keyword : Keyword} {v : Value}
    (later : Calls) (h : c.loses later origin declared keyword v = true) : c.Loses origin declared keyword v := by
  unfold loses at h
  simp only at h
  split at h
  case h_1 => cases h
  case h_2 r hr =>
    split at h
    case h_1 s w hs hw =>
      split at h
      case h_1 => cases h
      case h_2 hrefused =>
        have hkeyword : s.keyword = keyword := by simpa using List.find?_some hs
        exact ⟨r, s, w, hr, List.mem_of_find?_eq_some hs, hkeyword, by simpa using h, hw, fun hall => hrefused (hall later)⟩
    case h_2 => cases h

/-- A strict constraint is lost in each of the ways in which a lax one disturbs it, and where a default that is
    another each time decides whether an item satisfies a rule. -/
theorem strict_lost :
    let one (k : Keyword) (v : Value) : Constraint Rule := ⟨k, .value v, false⟩
    let decimal (n scale : Nat) : Value := ((Decimal.make? false n scale).map .decimal).getD .null
    let rule (t : Target) (cs : List (Constraint Rule)) : Rule := .mk ⟨some t, [], cs, none, none, none, none⟩
    let startsWithOne : Rule :=
      rule .set [⟨.maxLength, .value (.int 1), true⟩, ⟨.contains, .rule (rule .int [one .const (.int 1)]), false⟩]
    let counter : Schema :=
      ⟨"Counter", [{ name := "n", rule := .any, default := some (.factory 0 fun n => .int (.ofNat n)) }], {}⟩
    let isNew : Rule := rule (.entity 0 "Counter") [one .const (.map [(.str "n", .int 0)])]
    -- The nearest multiple lies below the bound, or above it.
    Loses {} .int [.value .ge (.int 7) false, .value .multipleOf (.int 5) true] .ge (.int 7) ∧
    Loses {} .int [.value .le (.int 8) false, .value .multipleOf (.int 5) true] .le (.int 8) ∧
    -- No integer lies between the bounds, or they are numbers that are not compared.
    Loses {} .int [.value .gt (.int 3) false, .value .lt (.int 4) true] .gt (.int 9) ∧
    Loses {} .any [.value .ge (decimal 5 0) false, .value .le (.float ⟨18318360957983683996⟩) true] .ge (.int 10) ∧
    -- Places are lost.
    Loses {} .decimal [.value .le (decimal 16 1) false, .value .decimalPlaces (.int 0) true] .le (decimal 16 1) ∧
    Loses {} .decimal [.value .multipleOf (decimal 25 2) false, .value .maxDigits (.int 2) true] .multipleOf
      (decimal 125 2) ∧
    -- Places are won, where a float is written with more of them than the decimal that it stands for.
    Loses {} .float [.value .decimalPlaces (.int 25) false, .value .maxDigits (.int 4294967320) true] .decimalPlaces
      (.float ⟨4458836034664420232⟩) ∧
    -- A beginning comes earlier, and lacks a match.
    Loses {} .str [.value .ge (.str "ab") false, .value .maxLength (.int 1) true] .ge (.str "ab") ∧
    Loses {} .str [.pattern "b", .value .length (.int 1) true] .regex (.str "ab") ∧
    -- Items are lost.
    Loses {} .list [.value .minLength (.int 2) false, .value .uniqueItems (.bool true) true] .minLength
      (.list [.int 1, .int 1]) ∧
    Loses {} .list [.contains startsWithOne, .value .uniqueItems (.bool true) true] .contains
      (.list [.set [.int 2, .int 1], .set [.int 1, .int 2]]) ∧
    -- The default is no longer what it was.
    Loses { schemas := [counter] } .list [.contains isNew] .contains (.list [.map []]) := by
  intro one decimal rule startsWithOne counter isNew
  refine ⟨?_, ?_, ?_, ?_, ?_, ?_, ?_, ?_, ?_, ?_, ?_, ?_⟩
  iterate 11 exact loses_of_later Calls.none (by decide +kernel)
  exact loses_of_later (Calls.none.next 0) (by decide +kernel)

end Catalog

end Conform

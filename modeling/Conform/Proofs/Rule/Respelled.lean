import Conform.Catalog
import Conform.Proofs.Constraint.Spelling
import Conform.Proofs.Coupling.Spelling
import Conform.Proofs.Ground.Reading
import Conform.Proofs.Rule.Constrained
import Conform.Rule.Declaration

/-! Equal rules. Rules may be equal and yet spell differently the values that they compare with, and then they behave
    equally as long as nothing comes to see the spelling. A strict bound, constant or choice shows its value in failures
    alone. A lax one puts it in the place of what it judges, so there the spelling goes on to whatever reads the value next:
    the containers around it and comparisons may, but no conversion, no hook and no other branch. -/

namespace Conform

/-! ### Checks -/

namespace Coupling

variable {S : Value → Value → Prop} {siblings siblings' : List (Constraint Reading)}

/-- Constraints that come to the same verdict fail with equal values or go on with related ones. -/
theorem rel_check_of_verdict {c d : Constraint Reading} {v v' : Value} (hkeyword : c.keyword = d.keyword)
    (hne : c.keyword ≠ .contains) (hv : v.Agrees v')
    (hoperand : (c.operand.map Reading.text).toValue.Agrees (d.operand.map Reading.text).toValue)
    (h : Verdict.Parallel S (c.verdict v) (d.verdict v')) :
    spelling.Rel (Option.Rel S) (Reading.check siblings c v) (Reading.check siblings' d v') := by
  rw [Reading.check_eq hne, Reading.check_eq (hkeyword ▸ hne)]
  generalize c.verdict v = x at h ⊢
  generalize d.verdict v' = y at h ⊢
  cases h with
  | kept => exact spelling.rel_pure .none
  | replaced h => exact spelling.rel_pure (.some h)
  | violated =>
    refine spelling.rel_bind_same spelling.rel_route fun _ => spelling.rel_throw (.cons ?_ .nil)
    rw [hkeyword]
    exact .constraint hoperand hv

end Coupling

/-! ### Equality of rules -/

namespace Rule

theorem sameList_iff {ρ σ : Type} {same : ρ → σ → Bool} {as : List ρ} {bs : List σ} :
    sameList same as bs = true ↔ List.Forall₂ (fun a b => same a b = true) as bs := by
  induction as generalizing bs with
  | nil => cases bs <;> simp [sameList]
  | cons a rest ih =>
    cases bs with
    | nil => simp [sameList]
    | cons b more => rw [sameList, Bool.and_eq_true, ih, List.forall₂_cons]

theorem sameAs_map (c d : Constraint Rule) : (c.map Rule.same).sameAs (· ·) d = c.sameAs Rule.same d := by
  obtain ⟨keyword, operand, lax⟩ := c
  obtain ⟨keyword', operand', lax'⟩ := d
  cases operand <;> cases operand' <;> rfl

/-- What equality of rules says of the rules and constraints inside. -/
structure SameParts (l m : Layer Rule) : Prop where
  args : List.Forall₂ (fun r s => r.same s = true) l.args m.args
  constraints : List.Forall₂ (fun c d => c.sameAs Rule.same d = true) l.constraints m.constraints
  logic : Option.Rel (fun a b => a.op = b.op ∧ List.Forall₂ (fun r s => r.same s = true) a.branches b.branches)
    l.logic m.logic
  onError : l.onError = m.onError

theorem sameParts_of_same {l m : Layer Rule} (h : (Rule.mk l).same (.mk m) = true) : SameParts l m := by
  obtain ⟨origin, args, constraints, logic, before, after, onError⟩ := l
  obtain ⟨origin', args', constraints', logic', before', after', onError'⟩ := m
  rw [same, fold_mk] at h
  simp only [sameLayer, layer, Layer.map, Bool.and_eq_true, beq_iff_eq, sameList_iff, List.forall₂_map_left_iff] at h
  obtain ⟨⟨⟨⟨⟨⟨-, hargs⟩, hconstraints⟩, hlogic⟩, honError⟩, -⟩, -⟩ := h
  refine ⟨hargs, hconstraints.imp fun c d h => (sameAs_map c d).symm.trans h, ?_, honError⟩
  cases logic <;> cases logic' <;>
    simp only [Option.map_none, Option.map_some, sameOption, Logic.map, Bool.and_eq_true, beq_iff_eq, sameList_iff,
      List.forall₂_map_left_iff, Bool.false_eq_true] at hlogic
  · exact .none
  · exact .some hlogic

end Rule

/-! ### Rules of one form -/

/-- The same constraint, or two by one keyword whose values need not be the same: comparisons, factors that numbers are divided by
    alike, and contained rules, of which the rules around them tell more. `before` is the leeway between the values on both
    sides, `after` the one that is left between them: so there is none before a constraint that does not tolerate it, and
    enough behind a lax constraint for what it puts in the place of others. The next value of a bound is put there only if the
    bound is the same. -/
inductive Constraint.SameForm (before after : Leeway) : Constraint Rule → Constraint Rule → Prop
  | same (c : Constraint Rule) (hle : before ≤ after) (htolerates : c.tolerates before = true) : SameForm before after c c
  | compared {keyword : Keyword} {u w : Value} {lax : Bool} (hle : before ≤ after) (hcompares : keyword.compares = true)
      (hu : u.Keyed) (hw : w.Keyed) (hlax : lax = true → u.Close after w ∧ (keyword.isOpenBound = true → u = w)) :
      SameForm before after ⟨keyword, .value u, lax⟩ ⟨keyword, .value w, lax⟩
  | divided {u w : Value} {lax : Bool} (hle : before ≤ after) (halike : u.DividesAlike w) (hlax : lax = true → .parts ≤ after) :
      SameForm before after ⟨.multipleOf, .value u, lax⟩ ⟨.multipleOf, .value w, lax⟩
  | contained {q s : Rule} {lax : Bool} (hbefore : before = .none) :
      SameForm before after ⟨.contains, .rule q, lax⟩ ⟨.contains, .rule s, lax⟩

/-- Constraints in turn, each of which goes on from the values of the one before. -/
inductive Constraint.SameForms : Leeway → Leeway → List (Constraint Rule) → List (Constraint Rule) → Prop
  | nil (a : Leeway) : SameForms a a [] []
  | cons {before between after : Leeway} {c d : Constraint Rule} {cs ds : List (Constraint Rule)}
      (hcd : SameForm before between c d) (h : SameForms between after cs ds) : SameForms before after (c :: cs) (d :: ds)

theorem Constraint.SameForm.le {before after : Leeway} {c d : Constraint Rule} (h : c.SameForm before after d) :
    before ≤ after := by
  cases h with
  | same _ hle | compared hle | divided hle => exact hle
  | contained hbefore => exact hbefore ▸ after.none_le

theorem Constraint.SameForms.le {before after : Leeway} {cs ds : List (Constraint Rule)} (h : SameForms before after cs ds) :
    before ≤ after := by
  induction h with
  | nil => exact le_rfl
  | cons hcd _ ih => exact hcd.le.trans ih

/-- Rules that are the same but for the spelling of what constraints inside compare with. There is the leeway `given` between the
    values that they give, and `read` between those that are read inside a container, which leaves its parts at their places;
    so there is `chosen` between those that the combinator gives, and `kept` between those that the constraints give. What a
    combinator or a hook reads has one spelling, and so has what a branch of `all_of` hands on to the next. What a contained
    rule or a branch of `none_of` gives is not read at all. -/
inductive Rule.SameForm : Leeway → Rule → Rule → Prop
  | mk {read chosen kept given : Leeway} {l m : Layer Rule} (horigin : l.origin = m.origin)
      (hargs : ∀ p ∈ l.args.zip m.args, SameForm read p.1 p.2)
      (hread : read.around ≤ chosen) (hlogic : l.logic.isSome = true → read = .none)
      (hbranches : ∀ a ∈ l.logic, ∀ b ∈ m.logic, ∀ p ∈ a.branches.zip b.branches,
        SameForm (if a.op = .noneOf then .whole else chosen) p.1 p.2)
      (hinit : ∀ a ∈ l.logic, ∀ b ∈ m.logic, a.op = .allOf → ∀ p ∈ (a.branches.zip b.branches).dropLast,
        SameForm .none p.1 p.2)
      (hconstraints : Constraint.SameForms chosen kept l.constraints m.constraints)
      (hcontained : ∀ p ∈ l.constraints.zip m.constraints, ∀ q, p.1.operand = .rule q → ∀ s, p.2.operand = .rule s →
        SameForm .whole q s)
      (hbefore : l.before = m.before) (hafter : l.after = m.after) (hkept : kept ≠ .none → l.after = none)
      (hgiven : kept ≤ given) : SameForm given (.mk l) (.mk m)

namespace Rule.SameForm

theorem mono {a b : Leeway} {r s : Rule} (hab : a ≤ b) (h : r.SameForm a s) : r.SameForm b s := by
  cases h with
  | mk horigin hargs hread hlogic hbranches hinit hconstraints hcontained hbefore hafter hkept hgiven =>
    exact .mk horigin hargs hread hlogic hbranches hinit hconstraints hcontained hbefore hafter hkept (hgiven.trans hab)

/-- A rule is of one form with itself. -/
theorem refl (r : Rule) : r.SameForm .none r := by
  refine Rule.induction (P := fun r => SameForm .none r r) (fun l ih => ?_) r
  have hself {rs : List Rule} (h : ∀ r ∈ rs, SameForm .none r r) : ∀ p ∈ rs.zip rs, SameForm .none p.1 p.2 :=
    fun _ hp => List.forall₂_zip (List.forall₂_same.mpr h) hp
  have hbranches : ∀ a ∈ l.logic, ∀ b ∈ l.logic, ∀ p ∈ a.branches.zip b.branches, SameForm .none p.1 p.2 := by
    intro a ha b hb
    obtain rfl := Option.mem_unique ha hb
    exact hself (ih.branches a ha)
  have hconstraints : Constraint.SameForms .none .none l.constraints l.constraints := by
    induction l.constraints with
    | nil => exact .nil .none
    | cons c _ ih => exact .cons (.same c le_rfl rfl) ih
  have hcontained : List.Forall₂ (fun c d : Constraint Rule => ∀ q, c.operand = .rule q → ∀ s, d.operand = .rule s →
      SameForm .whole q s) l.constraints l.constraints := by
    refine List.forall₂_same.mpr fun c hc q hq s hs => ?_
    obtain rfl := Operand.rule.inj (hq.symm.trans hs)
    exact (ih.constraints c hc q hq).mono (Leeway.none_le _)
  refine .mk rfl (hself ih.args) le_rfl (fun _ => rfl) (fun a ha b hb p hp => ?_) (fun a ha b hb _ p hp => ?_) hconstraints
    (fun _ hp => List.forall₂_zip hcontained hp) rfl rfl (absurd rfl) le_rfl
  · exact (hbranches a ha b hb p hp).mono (Leeway.none_le _)
  · exact hbranches a ha b hb p (List.dropLast_subset _ hp)

end Rule.SameForm

/-! ### Readings of equal rules -/

/-- Close values make close containers. -/
theorem Value.composed_close (a : Leeway) : Composed (Close a) (Close a.around) := by
  by_cases hnone : a = .none
  · obtain rfl := hnone
    exact composed_eq
  have haround : a.around = .parts := by cases a <;> first | rfl | exact absurd rfl hnone
  have hagree (v w : Value) (h : Close a v w) : v.Agrees w := h.agrees
  rw [haround]
  exact {
    item := .refl a
    refl := .refl .parts
    list := fun h => placed_list (h.imp hagree)
    tuple := fun h => placed_tuple (h.imp hagree)
    set := fun h => placed_set (agree_distinct (h.imp hagree))
    map := fun h => placed_map (h.imp fun _ _ hef => ⟨hagree _ _ hef.1, hagree _ _ hef.2⟩)
    insertEntry := fun hk hv h => forall₂_insertEntry hagree h hk hv }

namespace Coupling

variable {before after given : Leeway} {E : Entities}

theorem alike_self (E : Entities) (r : Rule) : spelling.Alike (r.reading E) (r.reading E) :=
  alike_reading_of_origin (rel_ofOrigin_self E) r

theorem alikeConstraint_self (E : Entities) (c : Constraint Rule) :
    spelling.AlikeConstraint (c.map (Rule.reading E)) (c.map (Rule.reading E)) := by
  obtain ⟨keyword, operand, lax⟩ := c
  refine ⟨rfl, ?_, rfl⟩
  cases operand with
  | value v => exact .value v
  | pattern p => exact .pattern p
  | rule r => exact .rule (alike_self E r)

section Constraints

variable {siblings siblings' : List (Constraint Reading)}
  (hcounts : ∀ keyword, Reading.siblingCount? siblings keyword = Reading.siblingCount? siblings' keyword)

include hcounts

/-- Equal constraints of one form fail with equal values or go on with close ones, if the rules in them read alike. -/
theorem rel_check_of_sameForm {c d : Constraint Rule} (h : c.SameForm before after d) (hsame : c.sameAs Rule.same d = true)
    (hread : ∀ q, c.operand = .rule q → ∀ s, d.operand = .rule s → q.same s = true →
      spelling.Coupled (Value.Close .whole) (q.reading E) (s.reading E)) {v v' : Value} (hv : v.Close before v') :
    spelling.Rel (Option.Rel (Value.Close after)) (Reading.check siblings (c.map (Rule.reading E)) v)
      (Reading.check siblings' (d.map (Rule.reading E)) v') := by
  have hclose (x y : Option Value) (hxy : x = y) : Option.Rel (Value.Close after) x y := by
    cases hxy
    exact Value.rel_self (Value.Close.refl after) x
  cases h with
  | same _ hle htolerates =>
    by_cases hnone : before = .none
    · obtain rfl := hnone
      cases hv
      exact spelling.rel_mono (rel_check hcounts (alikeConstraint_self E c) v) hclose
    · have hne : (c.map (Rule.reading E)).keyword ≠ .contains := by
        intro heq
        rw [Constraint.tolerates.eq_def] at htolerates
        cases before with
        | none => exact hnone rfl
        | parts | whole => simp [show c.keyword = .contains from heq] at htolerates
      have htolerates : (c.map (Rule.reading E)).tolerates before = true := htolerates
      have hverdict := Constraint.parallel_verdict_of_tolerates htolerates hv
      exact rel_check_of_verdict rfl hne hv.agrees (.refl _) (hverdict.mono fun _ _ h => h.mono hle)
  | @compared keyword u w lax hle hcompares hu hw hlax =>
    simp only [Constraint.sameAs, Operand.sameAs, Bool.and_eq_true] at hsame
    have huw : u.Agrees w := .respelled ⟨hu, hw, hsame.2⟩
    have hne : keyword ≠ .contains := by
      rintro rfl
      cases hcompares
    exact rel_check_of_verdict rfl hne hv.agrees huw (Constraint.parallel_verdict (.refl after) hv.agrees rfl hcompares huw rfl hlax)
  | @divided u w lax hle halike hlax =>
    have hplaced (h : lax = true) (a b : Value) (hab : a.Placed b) : Value.Close after a b :=
      hab.close fun hnone => absurd (hlax h) (hnone ▸ by decide)
    exact rel_check_of_verdict rfl (by nofun) hv.agrees halike.agrees (Constraint.parallel_checkMultiple hv.agrees halike hplaced)
  | @contained q s lax hbefore =>
    obtain rfl := hbefore
    cases hv
    have hqs : q.same s = true := by simpa [Constraint.sameAs, Operand.sameAs] using hsame
    simp only [Reading.check, Constraint.map, Operand.map]
    cases v.items? with
    | some items => exact spelling.rel_mono (rel_checkContained hcounts (hread q rfl s rfl hqs) items) hclose
    | none =>
      refine spelling.rel_bind_same spelling.rel_route fun _ => spelling.rel_throw (.cons ?_ .nil)
      simp only [Operand.map, Operand.toValue, Rule.text_reading]
      exact .contained hqs

/-- Equal constraints of one form make close values of close ones. -/
theorem rel_constrained_of_sameForms {cs ds : List (Constraint Rule)} (h : Constraint.SameForms before after cs ds)
    (hsame : List.Forall₂ (fun c d => c.sameAs Rule.same d = true) cs ds)
    (hread : ∀ p ∈ cs.zip ds, ∀ q, p.1.operand = .rule q → ∀ s, p.2.operand = .rule s → q.same s = true →
      spelling.Coupled (Value.Close .whole) (q.reading E) (s.reading E)) {v v' : Value} (hv : v.Close before v') :
    spelling.Rel (Value.Close after) (Reading.constrained siblings (cs.map (·.map (Rule.reading E))) v)
      (Reading.constrained siblings' (ds.map (·.map (Rule.reading E))) v') := by
  induction h generalizing v v' with
  | nil => exact spelling.rel_pure hv
  | cons hcd _ ih =>
    obtain ⟨hsame, hrest⟩ := List.forall₂_cons.mp hsame
    obtain ⟨hread, hmore⟩ := List.forall_mem_cons.mp hread
    rw [List.map_cons, List.map_cons, constrained_cons, constrained_cons]
    have hcheck := rel_check_of_sameForm hcounts hcd hsame hread hv
    refine spelling.rel_bind (spelling.rel_recover .none hcheck) fun x y hxy => ih hrest hmore ?_
    cases hxy with
    | none => exact hv.mono hcd.le
    | some hw => exact hw

end Constraints

/-- Equal constraints count alike, so what the constraints beside them are told is the same. -/
theorem siblingCount?_of_same {cs ds : List (Constraint Rule)}
    (h : List.Forall₂ (fun c d => c.sameAs Rule.same d = true) cs ds) (keyword : Keyword) :
    Reading.siblingCount? (cs.map (·.map (Rule.reading E))) keyword =
      Reading.siblingCount? (ds.map (·.map (Rule.reading E))) keyword := by
  refine siblingCount?_eq ?_ keyword
  rw [List.forall₂_map_left_iff, List.forall₂_map_right_iff]
  refine h.imp fun c d hcd => ?_
  rw [Constraint.count_map, Constraint.count_map]
  obtain ⟨keyword, operand, lax⟩ := c
  obtain ⟨keyword', operand', lax'⟩ := d
  simp only [Constraint.sameAs, Bool.and_eq_true, beq_iff_eq] at hcd
  obtain ⟨⟨rfl, rfl⟩, hcd⟩ := hcd
  refine ⟨rfl, ?_⟩
  cases operand with
  | value v =>
    cases operand' with
    | value w =>
      have hkind := Value.kind_of_same hcd
      cases v with
      | int i =>
        cases w with
        | int j =>
          simp only [Operand.sameAs, Value.same, beq_iff_eq] at hcd
          rw [hcd]
        | _ => cases hkind
      | _ => cases w <;> first | rfl | cases hkind
    | pattern | rule => cases hcd
  | pattern | rule => cases operand' <;> first | rfl | cases hcd

theorem coupled_of_same {rs ss : List Rule} (hread : ∀ p ∈ rs.zip ss, p.1.same p.2 = true →
      spelling.Coupled (Value.Close given) (p.1.reading E) (p.2.reading E))
    (hsame : List.Forall₂ (fun r s => r.same s = true) rs ss) :
    List.Forall₂ (spelling.Coupled (Value.Close given)) (rs.map (Rule.reading E)) (ss.map (Rule.reading E)) := by
  rw [List.forall₂_map_left_iff, List.forall₂_map_right_iff]
  exact List.forall₂_iff_zip.mpr ⟨hsame.length_eq, fun hp => hread _ hp (List.forall₂_zip hsame hp)⟩

theorem coupled_init_of_same {rs ss : List Rule} (hread : ∀ p ∈ (rs.zip ss).dropLast, p.1.same p.2 = true →
      spelling.Coupled (Value.Close given) (p.1.reading E) (p.2.reading E))
    (hsame : List.Forall₂ (fun r s => r.same s = true) rs ss) :
    ∀ p ∈ ((rs.map (Rule.reading E)).zip (ss.map (Rule.reading E))).dropLast, spelling.Coupled (Value.Close given) p.1 p.2 := by
  intro p hp
  rw [List.zip_map, ← List.map_dropLast] at hp
  obtain ⟨q, hq, rfl⟩ := List.mem_map.mp hp
  exact hread q hq (List.forall₂_zip hsame (List.dropLast_subset _ hq))

/-- Equal rules of one form read a value alike, up to the leeway between what they give. -/
theorem coupled_reading_of_same {r s : Rule} (h : r.SameForm given s) (hsame : r.same s = true) :
    spelling.Coupled (Value.Close given) (r.reading E) (s.reading E) := by
  induction h with
  | @mk read chosen kept given l m horigin _ hread hlogic _ _ hconstraints _ hbefore hafter hkept hgiven ihargs ihbranches ihinit
      ihcontained =>
    obtain ⟨hargs, hsameConstraints, hsameLogic, honError⟩ := Rule.sameParts_of_same hsame
    refine ⟨horigin, fun v => ?_⟩
    rw [read_reading, read_reading, Rule.layer, Rule.layer]
    refine rel_layer (Value.composed_close read) horigin (rel_ofOrigin_self E) (coupled_of_same ihargs hargs) ?_
      (fun v w => rel_constrained_of_sameForms (siblingCount?_of_same hsameConstraints) hconstraints hsameConstraints ihcontained)
      (fun v w => Value.Close.mono hconstraints.le) hbefore (fun v w hvw => ?_) honError v
    · intro v w hvw
      simp only [Layer.map]
      generalize l.logic = a at hsameLogic hlogic ihbranches ihinit ⊢
      generalize m.logic = b at hsameLogic ihbranches ihinit ⊢
      cases hsameLogic with
      | none => exact spelling.rel_pure (hvw.mono hread)
      | @some a b h =>
        obtain ⟨hop, hbranches⟩ := h
        obtain rfl := hlogic rfl
        obtain rfl : v = w := hvw
        refine rel_combined (.refl chosen) hop (coupled_of_same (ihbranches a rfl b rfl) hbranches)
          (fun hall => coupled_init_of_same (ihinit a rfl b rfl hall) hbranches) (fun (hne : a.op ≠ .noneOf) v w hvw => ?_) v
        -- Only under `noneOf` may the branches leave more leeway.
        rwa [if_neg hne] at hvw
    · simp only [Layer.map, ← hafter]
      by_cases hnone : kept = .none
      · obtain rfl := hnone
        obtain rfl : v = w := hvw
        exact .refl given _
      · rw [hkept hnone]
        exact hvw.mono hgiven

end Coupling

namespace Rule

/-- Equal rules of one form behave equally, whatever the value, the context and the entities are: both give a value, or both
    fail and say the same of equal values. The value is the same, or, where there is leeway, it is the same but for the
    spelling of what it is made of. -/
theorem agrees_of_same {r s : Rule} {given : Leeway} (hsame : r.same s = true) (h : r.SameForm given s) (E : Entities) (v : Value)
    (state : ParseState) : Parse.InStep .spelling (Value.Close given) (((r.reading E).read v).outcome state)
      (((s.reading E).read v).outcome state) :=
  (Coupling.coupled_reading_of_same h hsame).read v state state (Coupling.inStep_self state)

/-- A text, or the first two prices of a list, each at its lax minimum at least; and a list that holds a multiple of one half below
    a price. -/
theorem agrees_of_same_prices :
    let price (cs : List (Constraint Rule)) : Rule := .mk ⟨some .decimal, [], cs, none, none, none, none⟩
    let list (items : List Rule) (c : Constraint Rule) : Rule := .mk ⟨some .list, items, [c], none, none, none, none⟩
    let prices (least : Decimal) : Rule := .mk ⟨none, [], [], some ⟨.anyOf,
      [list [price [⟨.ge, .value (.decimal least), true⟩]] ⟨.maxLength, .value (.int 2), true⟩, .of .str]⟩, none, none, none⟩
    let stock (most unit : Decimal) : Rule := list [] ⟨.contains,
      .rule (price [⟨.lt, .value (.decimal most), false⟩, ⟨.multipleOf, .value (.decimal unit), false⟩]), false⟩
    let r := prices ⟨false, 10, 1, by decide, by decide⟩
    let s := prices ⟨false, 100, 2, by decide, by decide⟩
    let p := stock ⟨false, 95, 1, by decide, by decide⟩ ⟨false, 5, 1, by decide, by decide⟩
    let q := stock ⟨false, 950, 2, by decide, by decide⟩ ⟨false, 50, 2, by decide, by decide⟩
    let E : Entities := fun _ => .plain
    let start : ParseState := ⟨.root {}, Calls.none⟩
    (r.same s = true ∧ r.SameForm .whole s ∧
        Parse.InStep .spelling (Value.Close .whole) (((r.reading E).read (.list [.int 0])).outcome start)
          (((s.reading E).read (.list [.int 0])).outcome start)) ∧
      p.same q = true ∧ p.SameForm .none q ∧
        Parse.InStep .spelling (Value.Close .none) (((p.reading E).read (.list [.int 9])).outcome start)
          (((q.reading E).read (.list [.int 9])).outcome start) := by
  intro price list prices stock r s p q E start
  have hprice {a : Leeway} {cs ds : List (Constraint Rule)} (h : Constraint.SameForms .none a cs ds)
      (hrules : ∀ p ∈ cs.zip ds, ∀ q, p.1.operand ≠ .rule q) : (price cs).SameForm a (price ds) :=
    .mk rfl (List.forall_mem_nil _) (le_refl Leeway.none) (fun _ => rfl) nofun nofun h
      (fun p hp q hq => absurd hq (hrules p hp q)) rfl rfl (fun _ => rfl) le_rfl
  have hrespelled {d e : Decimal} (h : d.value = e.value) : (Value.decimal d).Agrees (.decimal e) :=
    .respelled ⟨.scalar rfl, .scalar rfl, Value.decimal_same_iff.mpr ⟨e, rfl, h⟩⟩
  have hprices {d e : Decimal} (h : d.value = e.value) : (prices d).SameForm .whole (prices e) := by
    have hbound : Constraint.SameForm .none .parts ⟨.ge, .value (.decimal d), true⟩ ⟨.ge, .value (.decimal e), true⟩ :=
      .compared (Leeway.none_le _) rfl (.scalar rfl) (.scalar rfl) fun _ => ⟨(hrespelled h).placed (by nofun) (by nofun), nofun⟩
    have hleast : (price [⟨.ge, .value (.decimal d), true⟩]).SameForm .parts (price [⟨.ge, .value (.decimal e), true⟩]) :=
      hprice (.cons hbound (.nil .parts)) (List.forall_mem_singleton.mpr nofun)
    have hlist : (list [price [⟨.ge, .value (.decimal d), true⟩]] ⟨.maxLength, .value (.int 2), true⟩).SameForm .whole
        (list [price [⟨.ge, .value (.decimal e), true⟩]] ⟨.maxLength, .value (.int 2), true⟩) :=
      .mk rfl (List.forall_mem_singleton.mpr hleast) (le_refl Leeway.parts) nofun nofun nofun
        (.cons (.same _ le_rfl rfl) (.nil .parts)) (List.forall_mem_singleton.mpr nofun) rfl rfl (fun _ => rfl) (by decide)
    refine .mk rfl (List.forall_mem_nil _) (Leeway.none_le .whole) (fun _ => rfl) ?_ ?_ (.nil .whole) (List.forall_mem_nil _) rfl rfl
      (fun _ => rfl) le_rfl
    · rintro _ ⟨⟩ _ ⟨⟩
      rw [ite_self]
      exact List.forall_mem_cons.mpr ⟨hlist, List.forall_mem_singleton.mpr ((SameForm.refl _).mono (Leeway.none_le _))⟩
    · rintro _ ⟨⟩ _ ⟨⟩ ⟨⟩
  have hstock {most most' unit unit' : Decimal} (hmost : most.value = most'.value)
      (hunit : (Value.decimal unit).DividesAlike (.decimal unit')) : (stock most unit).SameForm .none (stock most' unit') := by
    have hitem : (price [⟨.lt, .value (.decimal most), false⟩, ⟨.multipleOf, .value (.decimal unit), false⟩]).SameForm .none
        (price [⟨.lt, .value (.decimal most'), false⟩, ⟨.multipleOf, .value (.decimal unit'), false⟩]) :=
      hprice (.cons (.compared le_rfl rfl (.scalar rfl) (.scalar rfl) nofun) (.cons (.divided le_rfl hunit nofun) (.nil .none)))
        (List.forall_mem_cons.mpr ⟨nofun, List.forall_mem_singleton.mpr nofun⟩)
    refine .mk rfl (List.forall_mem_nil _) (le_refl Leeway.none) (fun _ => rfl) nofun nofun
      (.cons (.contained rfl) (.nil .none)) (List.forall_mem_singleton.mpr ?_) rfl rfl (fun _ => rfl) le_rfl
    rintro _ ⟨⟩ _ ⟨⟩
    exact hitem.mono (Leeway.none_le _)
  have hsame : r.same s = true := by decide +kernel
  have hsame' : p.same q = true := by decide +kernel
  have hform : r.SameForm .whole s := hprices (Decimal.same_iff.mp (by decide +kernel))
  have hform' : p.SameForm .none q := hstock (Decimal.same_iff.mp (by decide +kernel))
    (.decimal (Decimal.same_iff.mp (by decide +kernel)) (by decide +kernel) (by decide) (by decide))
  exact ⟨⟨hsame, hform, agrees_of_same hsame hform E (.list [.int 0]) start⟩,
    hsame', hform', agrees_of_same hsame' hform' E (.list [.int 9]) start⟩

/-- Whether two rules count as equal, and yet make different data of a value, or one of them fails on it alone. -/
def apart (c : Catalog) (o : Options) (declared : Declaring (Rule × Rule)) (v : Value) : Bool :=
  match declared with
  | .error _ => false
  | .ok (r, s) => r.same s && match (c.apply r v o Calls.none).1, (c.apply s v o Calls.none).1 with
    | .ok w, .ok w' => !w.same w'
    | .error _, .error _ => false
    | _, _ => true

/-- What tells equal rules apart. A lax minimum puts its own spelling in the place of what is below it, where a rule for texts
    behind it comes to see it, and so does a hook; what a lax constant puts in place is seen by a contained rule. A lax open
    bound is followed by another number. A factor may be too long to divide by, or stand for another float. References of one
    name lead to what fills their slots, and a converter may look at the values of an enumeration. A contained rule shows its
    text where there is nothing to count. -/
theorem told_apart :
    let d (m s : Nat) : Value := .decimal ((Decimal.make? false m s).getD .zero)
    let both (origin : Target) (args args' : List Rule) (c c' : Declared) (after : Option Hook) : Declaring (Rule × Rule) := do
      pure (← declare origin args [c] none after none, ← declare origin args' [c'] none after none)
    let pair (i j : Int64) : Declared := .value .const (.set [.int i, .int j]) true
    (∃ least least' r s : Rule,
      declare .decimal [] [.value .ge (d 10 1) true] none none none = .ok least ∧
        declare .decimal [] [.value .ge (d 100 2) true] none none none = .ok least' ∧
        combine .allOf [least, .of .str] = .ok r ∧ combine .allOf [least', .of .str] = .ok s ∧ r.same s = true ∧
        (Catalog.apply {} r (.int 0) {} Calls.none).1 = .ok (.str "1.0") ∧
        (Catalog.apply {} s (.int 0) {} Calls.none).1 = .ok (.str "1.00") ∧ (Value.str "1.0").same (.str "1.00") = false) ∧
      apart {} {} (both .decimal [] [] (.value .ge (d 10 1) true) (.value .ge (d 100 2) true) (some ⟨0, fun v => .str v.text⟩))
        (.int 0) = true ∧
      apart {} {} (do
        let first ← combine .allOf [← declare .set [] [.value .maxLength (.int 1) true] none none none,
          ← declare .set [] [.value .const (.set [.int 1]) false] none none none]
        let item ← declare .set [] [pair 1 2] none none none
        let item' ← declare .set [] [pair 2 1] none none none
        both .list [item] [item'] (.contains first) (.contains first) none) (.list [.set []]) = true ∧
      apart {} {} (both .decimal [] [] (.value .gt (d 10 1) true) (.value .gt (d 100 2) true) none) (.int 0) = true ∧
      apart {} {} (both .decimal [] [] (.value .multipleOf (d 1 2) false)
        (.value .multipleOf (d 100000000000000000000000000 28) false) none) (d 79228162514264337593543950335 0) = true ∧
      apart {} {} (both .float [] [] (.value .multipleOf (d 44 1) false) (.value .multipleOf (d 4400000000000000 15) false) none)
        (.float ⟨4738237167956498842⟩) = true ∧
      (let (node, c) := ({} : Catalog).placeholder "Node"
        let (later, c) := (c.add ⟨"Node", [], {}⟩).resolve.2.placeholder "Node"
        apart c {} (.ok (of node, of later)) (.map []) = true) ∧
      (let size (least : Value) : Rule := of (.enum ⟨"Size", [("Small", least)]⟩)
        let listed : Converter := fun _ _ t => match t with
          | .enum e => .ok (.str (", ".intercalate (e.members.map (·.2.text))))
          | _ => .ok .null
        let registry := Registry.empty.register ⟨"sizes", .exact .enum, listed, 0⟩
        apart {} { registry := some registry } (.ok (size (d 10 1), size (d 100 2))) .null = true) ∧
      ∃ price price' r s : Rule,
        declare .decimal [] [.value .gt (d 10 1) false] none none none = .ok price ∧
          declare .decimal [] [.value .gt (d 100 2) false] none none none = .ok price' ∧
          both .any [] [] (.contains price) (.contains price') none = .ok (r, s) ∧ r.same s = true ∧
          (Catalog.apply {} r (.int 0) {} Calls.none).1 = .error (.constraint [] .contains (.str "decimal(gt=1.0)") (.int 0)) ∧
          (Catalog.apply {} s (.int 0) {} Calls.none).1 = .error (.constraint [] .contains (.str "decimal(gt=1.00)") (.int 0)) := by
  refine ⟨⟨_, _, _, _, rfl, rfl, rfl, rfl, by decide +kernel, rfl, rfl, by decide +kernel⟩, ?_, ?_, ?_, ?_, ?_, ?_, ?_,
    ⟨_, _, _, _, rfl, rfl, rfl, by decide +kernel, rfl, rfl⟩⟩ <;> decide +kernel

end Rule

end Conform

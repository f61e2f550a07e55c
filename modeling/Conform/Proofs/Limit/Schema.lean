import Conform.Conformance
import Conform.Proofs.Limit.Reading

/-! Reports of whole parses. A schema reads its fields in contexts of their own beside what it has found itself, so
    it takes one level more than the rules by which it reads. Along with the levels of the schemas that it leads
    to, this bounds what a parse may report where the options in force limit what is collected. -/

namespace Conform

open Parse

/-! ### Levels -/

/-- The rules by which a field may be read. -/
def Field.rules (f : Field) : List Rule := f.rule :: f.discriminator.elim [] fun d => d.mapping.map Prod.snd

/-- The levels of a schema, given those of targets, where the other keys are read by some rules. -/
def Schema.levels (entity : Target → Nat) (additions : List Rule) (s : Schema) : Nat :=
  greatest ((s.fields.flatMap Field.rules ++ additions).map (Rule.levels entity)) + 1

theorem Field.ruleFor_mem_rules (f : Field) (siblings : Record) : f.ruleFor siblings ∈ f.rules := by
  unfold ruleFor rules
  rcases f.discriminator with _ | ⟨name, mapping⟩
  · exact List.mem_cons_self
  · cases hsibling : siblings.get? name with
    | none => simp [hsibling]
    | some v =>
      cases hselect : Discriminator.select? ⟨name, mapping⟩ v with
      | none => simp [hsibling, hselect]
      | some r =>
        obtain ⟨entry, hfind, rfl⟩ := Option.map_eq_some_iff.mp hselect
        simp only [hsibling, hselect, Option.bind_eq_bind, Option.bind_some, Option.getD_some, Option.elim]
        exact List.mem_cons_of_mem _ (List.mem_map_of_mem (List.mem_of_find?_eq_some hfind))

namespace Schema

variable {L : Limit} {entity : Target → Nat} {E : Entities} {additions : List Rule} {s : Schema} {f : Field} {m n : Nat}

/-- A rule among those of a schema takes one level less. -/
theorem fits_of_mem_rules (hE : E.Fit L entity) {r : Rule} (h : r ∈ s.fields.flatMap Field.rules ++ additions) :
    (r.reading E).Fits L (greatest ((s.fields.flatMap Field.rules ++ additions).map (Rule.levels entity))) :=
  (Reading.fits_reading hE r).mono (le_greatest (List.mem_map_of_mem h))

/-! ### Fields -/

theorem terse_called {α : Type} (draw : Calls → α × Calls) : Terse (called draw) :=
  .of_eq (fun _ => rfl) (fun _ => rfl) fun _ => rfl

theorem terse_fieldRoute (f : Field) : Terse (fieldRoute f) := terse_route.bind fun _ => .pure _

/-- A failure of the place where it is met is recorded at the first level. -/
theorem fits_collect_at {α β : Type} {Q : β → Prop} {p : Parse α} {failure : α → Failure} {b : β} (hp : Terse p)
    (hsingle : ∀ a, (failure a).flatten.length ≤ 1) (hn : 1 ≤ n) (hb : Q b) :
    Parse.Fits L n n Q (do
      collect (failure (← p))
      pure b) :=
  hp.fitsAt.bind_fits fun a => (fits_collect (hsingle a) hn).bind_fits fun _ => fits_pure hb (Nat.le_refl n)

theorem fits_fillAbsent (hn : 1 ≤ n) (f : Field) (r : Resolved) :
    Parse.FitsAt L n (fillAbsent f r) := by
  refine terse_options.fitsAt.bind fun o => ?_
  refine (terse_called _).fitsAt.bind fun found => ?_
  cases found with
  | some v => exact .pure _
  | none =>
    simp only
    split
    · exact fits_collect_at terse_route (fun _ => Nat.le_refl 1) hn trivial
    · exact .pure _

theorem fits_fillIfFull (hn : 1 ≤ n) (pass : Pass) (f : Field) (r : Resolved) :
    Parse.FitsAt L n (fillIfFull pass f r) := by
  unfold fillIfFull
  split
  · exact fits_fillAbsent hn f r
  · exact .pure _

theorem fits_parseValue (h : ∀ q ∈ f.rules, (q.reading E).Fits L m) (hmn : m + 1 ≤ n) (v : Value)
    (siblings : Record) : Parse.FitsAt L n (f.parseValue E v siblings) := by
  have hread : Parse.FitsAt L n
      (do ((f.ruleFor siblings).reading E).guarded v (.key f.name) (f.policy (← Parse.options))) :=
    terse_options.fitsAt.bind fun o =>
      Reading.fits_guarded (h _ (f.ruleFor_mem_rules siblings)) hmn v _ _
  unfold Field.parseValue
  cases f.deprecated with
  | none => exact hread
  | some replacement => exact (terse_warn _).fitsAt.bind fun _ => hread

theorem fits_readField (h : ∀ q ∈ f.rules, (q.reading E).Fits L m) (hmn : m + 1 ≤ n) (pass : Pass) (v : Value)
    (r : Resolved) : Parse.FitsAt L n (readField E pass f v r) := by
  refine (fits_parseValue h hmn v r.values).bind fun outcome => ?_
  cases outcome with
  | parsed w | preserved w => exact .pure _
  | excluded => exact fits_fillIfFull (Nat.le_trans (Nat.le_add_left 1 m) hmn) pass f r
  | collected => exact .pure _

/-- The rules of a field that waits take so many levels. -/
def WaitingFits (L : Limit) (E : Entities) (m : Nat) (waiting : Waiting) : Prop :=
  ∀ e ∈ waiting, ∀ q ∈ e.1.rules, (q.reading E).Fits L m

variable {waiting : Waiting}

theorem fits_visitGiven (h : ∀ q ∈ f.rules, (q.reading E).Fits L m) (hmn : m + 1 ≤ n) (pass : Pass) (v : Value)
    (r : Resolved) (hwaiting : WaitingFits L E m waiting) :
    Parse.Fits L n n (fun x => WaitingFits L E m x.2) (visitGiven E pass f v r waiting) := by
  have hn : 1 ≤ n := Nat.le_trans (Nat.le_add_left 1 m) hmn
  refine terse_options.fitsAt.bind_fits fun o => ?_
  split
  · exact (fits_fillIfFull hn pass f r).bind_fits fun _ => fits_pure hwaiting (Nat.le_refl n)
  split
  · exact fits_collect_at (terse_fieldRoute f) (fun _ => Nat.le_refl 1) hn hwaiting
  split
  · refine fits_pure ?_ (Nat.le_refl n)
    exact List.forall_mem_append.mpr ⟨hwaiting, List.forall_mem_singleton.mpr h⟩
  · exact (fits_readField h hmn pass v r).bind_fits fun _ => fits_pure hwaiting (Nat.le_refl n)

theorem fits_visitField (h : ∀ q ∈ f.rules, (q.reading E).Fits L m) (hmn : m + 1 ≤ n) (pass : Pass) (input : Record)
    (hits : List String) (r : Resolved) (hwaiting : WaitingFits L E m waiting) :
    Parse.Fits L n n (fun x => WaitingFits L E m x.2) (visitField E pass input hits f r waiting) := by
  have hn : 1 ≤ n := Nat.le_trans (Nat.le_add_left 1 m) hmn
  refine terse_options.fitsAt.bind_fits fun o => ?_
  split
  · exact fits_pure hwaiting (Nat.le_refl n)
  cases hits with
  | nil => exact (fits_fillIfFull hn pass f r).bind_fits fun _ => fits_pure hwaiting (Nat.le_refl n)
  | cons key others =>
    simp only
    split
    · exact fits_collect_at (terse_fieldRoute f) (fun _ => Nat.le_refl 1) hn hwaiting
    · cases input.get? key with
      | some v => exact fits_visitGiven h hmn pass v r hwaiting
      | none => exact fits_pure hwaiting (Nat.le_refl n)

theorem fits_visitFields (hmn : m + 1 ≤ n) (pass : Pass) (input : Record) (ms : Matches) (fields : List Field) :
    (∀ q ∈ fields.flatMap Field.rules, (q.reading E).Fits L m) → ∀ (r : Resolved) (waiting : Waiting),
      WaitingFits L E m waiting →
      Parse.Fits L n n (fun x => WaitingFits L E m x.2) (visitFields E pass input ms fields r waiting) := by
  induction fields with
  | nil => exact fun _ r waiting hwaiting => fits_pure hwaiting (Nat.le_refl n)
  | cons f rest ih =>
    intro h r waiting hwaiting
    rw [List.flatMap_cons, List.forall_mem_append] at h
    refine (fits_visitField h.1 hmn pass input _ r hwaiting).bind (Nat.le_refl n) fun x hx => ?_
    exact ih h.2 x.1 x.2 hx

theorem fits_readWaiting (hmn : m + 1 ≤ n) (pass : Pass) (waiting : Waiting) : WaitingFits L E m waiting →
    ∀ r : Resolved, Parse.FitsAt L n (readWaiting E pass waiting r) := by
  induction waiting with
  | nil => exact fun _ r => .pure _
  | cons e rest ih =>
    intro h r
    obtain ⟨he, hrest⟩ := List.forall_mem_cons.mp h
    exact (fits_readField he hmn pass e.2 r).bind fun r => ih hrest r

/-! ### Keys of no field -/

theorem fits_visitExcess (h : ∀ o, L.InForce o → ∀ q ∈ o.additionRule, (q.reading E).Fits L m) (hmn : m + 1 ≤ n)
    (key : String) (v : Value) (r : Resolved) : Parse.FitsAt L n (visitExcess E key v r) := by
  refine fits_options_bind fun o ho => ?_
  cases hrule : o.additionRule with
  | some rule =>
    refine (Reading.fits_guarded (h o ho rule hrule) hmn v (.key key) _).bind fun outcome => ?_
    cases outcome.value? with
    | some w => exact .pure _
    | none => exact .pure _
  | none => cases o.excessPolicy <;> exact FitsAt.pure _

theorem fits_visitExcesses (h : ∀ o, L.InForce o → ∀ q ∈ o.additionRule, (q.reading E).Fits L m) (hmn : m + 1 ≤ n)
    (input : Record) (keys : List String) :
    ∀ r, Parse.FitsAt L n (visitExcesses E input keys r) := by
  induction keys with
  | nil => exact fun _ => .pure _
  | cons key rest ih =>
    intro r
    unfold visitExcesses
    cases input.get? key with
    | none => exact ih r
    | some v =>
      refine (fits_visitExcess h hmn key v r).bind fun x => ?_
      exact (ih x.2).bind fun _ => .pure _

/-! ### Records -/

theorem terse_inputRecord (s : Schema) (v : Value) : Terse (s.inputRecord v) := by
  have hrefuse (cause : ConversionError) :
      Terse (do throw (.coercion (← Parse.route) v s.name cause) : Parse Record) :=
    terse_throw_here fun _ => Nat.le_refl 1
  refine terse_options.bind fun o => ?_
  cases o.convert v .map with
  | error cause => exact hrefuse cause
  | ok w =>
    cases w with
    | map entries => exact .pure _
    | _ => exact hrefuse _

theorem fits_resolve (hE : E.Fit L entity)
    (hadditions : ∀ o, L.InForce o → ∀ q ∈ o.additionRule, q ∈ additions) (pass : Pass) (v : Value) :
    Parse.FitsAt L (s.levels entity additions) (s.resolve E pass v) := by
  have hle : greatest ((s.fields.flatMap Field.rules ++ additions).map (Rule.levels entity)) + 1 ≤
      s.levels entity additions := Nat.le_refl _
  refine (terse_inputRecord s v).fitsAt.bind fun input => ?_
  refine terse_options.fitsAt.bind fun o => ?_
  refine (fits_visitFields hle pass input _ s.fields (fun q hq => ?_) _ [] (List.forall_mem_nil _)).bind
    (Nat.le_refl _) fun x hx => ?_
  · exact fits_of_mem_rules hE (List.mem_append_left _ hq)
  refine (fits_readWaiting hle pass x.2 hx x.1).bind fun r => ?_
  refine (fits_visitExcesses (fun o ho q hq => ?_) hle input _ r).bind fun y => ?_
  · exact fits_of_mem_rules hE (List.mem_append_right _ (hadditions o ho q hq))
  simp only
  split
  · exact .pure _
  · exact fits_collect_at terse_route (fun _ => Nat.le_refl 1) (Nat.le_add_left 1 _) trivial

/-! ### Dependencies -/

theorem fits_reportBroken (hn : 1 ≤ n) (supplied : List String) (values : Record) (f : Field) :
    Parse.FitsAt L n (reportBroken supplied values f) := by
  unfold reportBroken
  split
  · refine terse_options.fitsAt.bind fun o => ?_
    cases f.policy o with
    | throw =>
      refine (terse_fieldRoute f).fitsAt.bind fun route => ?_
      exact fits_collect (m := 0) (Nat.le_refl 1) hn
    | exclude | preserve => exact (terse_warn _).fits (Nat.le_refl n)
  · exact .pure _

theorem fits_reportAll (hn : 1 ≤ n) (supplied : List String) (values : Record) (fields : List Field) :
    Parse.FitsAt L n (reportAll supplied values fields) := by
  induction fields with
  | nil => exact .pure _
  | cons f rest ih => exact (fits_reportBroken hn supplied values f).bind fun _ => ih

theorem fits_dropBroken (hn : 1 ≤ n) (s : Schema) (supplied : List String) (rounds : Nat) :
    ∀ values, Parse.FitsAt L n (s.dropBroken supplied rounds values) := by
  induction rounds with
  | zero => exact fun _ => .pure _
  | succ rounds ih =>
    intro values
    unfold dropBroken
    simp only
    split
    · exact .pure _
    · exact (fits_reportAll hn supplied values _).bind fun _ => ih _

theorem fits_readRecord (hE : E.Fit L entity)
    (hadditions : ∀ o, L.InForce o → ∀ q ∈ o.additionRule, q ∈ additions) (v : Value) :
    Parse.Fits L 0 (s.levels entity additions) (fun _ => True) (s.readRecord E v) := by
  refine ((fits_resolve hE hadditions .full v).mono (Nat.zero_le _) (Nat.le_refl _)).bind (Nat.le_refl _) fun r _ => ?_
  exact (fits_dropBroken (Nat.le_add_left 1 _) s r.supplied _ r.values).bind fun _ => .pure _

end Schema

/-! ### Whole parses -/

/-- How many single failures a result reports. -/
def reported {α : Type} : Except Failure α → Nat
  | .ok _ => 0
  | .error f => f.flatten.length

namespace Parse

variable {α : Type} {L : Limit} {n : Nat} {P : α → Prop} {p : Parse α} {o : Options}

/-- At the root, what was recorded is reported along with what has ended the parse. -/
theorem Fits.reported_le (h : Fits L 0 n P p) (ho : L.InForce o) (calls : Calls) :
    reported (atRoot o calls p.concluded).1 ≤ L.report n := by
  have hrun := h ⟨.root o, calls⟩ ho (Context.holds_of_clean rfl 0)
  unfold atRoot concluded
  rw [outcome_bind, outcome_tryCatch]
  generalize p.outcome ⟨.root o, calls⟩ = x at hrun ⊢
  cases hrun with
  | @ok a t _ hheld =>
    simp only [outcome_bind, finish, outcome_ofContext, Context.finish, Context.raise]
    cases hclean : t.context.failures.isEmpty <;> simp only [if_true, Bool.false_eq_true, if_false, reported]
    · rw [Failure.flatten_together, Option.toList_none, List.append_nil, hheld.length_flattenAll]
      exact Nat.le_trans hheld.length_le (Nat.le_trans (Nat.le_succ _) (L.held_lt_report n))
    · exact Nat.zero_le _
  | @error g t hheld htotal =>
    simp only [raised, outcome_ofContext, Context.raise]
    cases hclean : t.context.failures.isEmpty <;> simp only [if_true, Bool.false_eq_true, if_false, reported]
    · rw [Failure.flatten_together, Option.toList_some, Failure.flattenAll_append, List.length_append,
        hheld.length_flattenAll, Failure.flattenAll, Failure.flattenAll, List.append_nil]
      exact htotal
    · exact Nat.le_trans (Nat.le_add_left _ _) htotal

end Parse

namespace Catalog

/-- The options that may be in force in a parse under some: these, and what becomes of options in force under those
    of a schema. -/
inductive InForce (c : Catalog) (o : Options) : Options → Prop
  | root : InForce c o o
  | nested {p : Options} {s : Schema} : InForce c o p → s ∈ c.schemas → InForce c o (p.merge s.options)

/-- The rules for keys of no field that may be in force. -/
def additions (c : Catalog) (o : Options) : List Rule :=
  o.additionRule.toList ++ c.schemas.filterMap (·.options.additionRule)

/-- The levels of a target, for at most so many descents from one entity into another. -/
def levelsWithin (c : Catalog) (additions : List Rule) : (budget : Nat) → Target → Nat
  | 0, _ => 0
  | budget + 1, t =>
    let schemaLevels (s : Option Schema) := s.elim 0 (Schema.levels (c.levelsWithin additions budget) additions)
    match t with
    | .entity place _ => schemaLevels c.schemas[place]?
    | .reference r => schemaLevels ((c.references.content? r).bind (c.schemas[·]?))
    | _ => 0

/-- The levels of a schema under some options. -/
def levels (c : Catalog) (s : Schema) (o : Options) : Nat :=
  s.levels (c.levelsWithin (c.additions o) (c.greatestDepth o + 1)) (c.additions o)

variable {c : Catalog} {s : Schema} {o p : Options} {v : Value} {calls : Calls} {most : Nat}

theorem mem_additions_of_inForce (h : c.InForce o p) : ∀ q ∈ p.additionRule, q ∈ c.additions o := by
  induction h with
  | root => exact fun q hq => List.mem_append_left _ (Option.mem_toList.mpr hq)
  | @nested p s _ hs ih =>
    intro q hq
    have hor : q ∈ s.options.additionRule ∨ q ∈ p.additionRule := by
      unfold Options.merge at hq
      split at hq
      · exact .inl hq
      · exact (Option.or_eq_some_iff.mp hq).imp id And.right
    rcases hor with hq | hq
    · exact List.mem_append_right _ (List.mem_filterMap.mpr ⟨s, hs, hq⟩)
    · exact ih q hq

/-- Options under which failures are collected up to a limit keep it where no schema overrides them or names a
    greater one. -/
theorem limits_of_inForce (ho : ∃ m, o.maxErrors = some m ∧ m ≤ most)
    (hc : ∀ s ∈ c.schemas, s.options.overriding = false ∧ ∀ m ∈ s.options.maxErrors, m ≤ most) (h : c.InForce o p) :
    p.Limits most := by
  suffices hlimit : ∃ m, p.maxErrors = some m ∧ m ≤ most from fun _ => hlimit
  induction h with
  | root => exact ho
  | @nested p s _ hs ih =>
    obtain ⟨hmerges, hmost⟩ := hc s hs
    simp only [Options.merge, hmerges, Bool.false_eq_true, if_false]
    cases hmax : s.options.maxErrors with
    | none => simpa using ih
    | some m => exact ⟨m, rfl, hmost m hmax⟩

theorem fit_entitiesWithin (hlimits : ∀ p, c.InForce o p → p.Limits most) (budget : Nat) :
    (c.entitiesWithin budget).Fit ⟨most, c.InForce o, hlimits⟩ (c.levelsWithin (c.additions o) budget) := by
  induction budget with
  | zero => exact fun t e h => nomatch h
  | succ budget ih =>
    -- A schema reads its entities with one less of the budget, where the induction applies.
    have hschema {s : Schema} (hs : s ∈ c.schemas) {e : Entity}
        (he : entity (c.entitiesWithin budget) s = .entity e) :
        1 ≤ s.levels (c.levelsWithin (c.additions o) budget) (c.additions o) ∧
          (∀ p, c.InForce o p → c.InForce o (p.merge e.options)) ∧
          ∀ v, Parse.Fits ⟨most, c.InForce o, hlimits⟩ 0
            (s.levels (c.levelsWithin (c.additions o) budget) (c.additions o)) (fun _ => True) (e.read v) := by
      cases he
      exact ⟨Nat.le_add_left 1 _, fun p hp => .nested hp hs,
        Schema.fits_readRecord ih fun p hp => mem_additions_of_inForce hp⟩
    intro t e h
    unfold entitiesWithin at h
    unfold levelsWithin
    cases t with
    | entity place name =>
      simp only at h ⊢
      cases hs : c.schemas[place]? with
      | none =>
        rw [hs] at h
        cases h
      | some s =>
        rw [hs] at h
        exact hschema (List.mem_of_getElem? hs) h
    | reference r =>
      simp only at h ⊢
      cases hs : (c.references.content? r).bind (c.schemas[·]?) with
      | none =>
        rw [hs] at h
        cases h
      | some s =>
        rw [hs] at h
        obtain ⟨place, -, hplace⟩ := Option.bind_eq_some_iff.mp hs
        exact hschema (List.mem_of_getElem? hplace) h
    | _ => cases h

/-- What a parse reports is one failure at most and, for each level of the schema, one less than the greatest number
    that may be collected. -/
theorem reported_parse_le (hlimits : ∀ p, c.InForce (s.options.merge o) p → p.Limits most) :
    reported (c.parse s v o calls).1 ≤ 1 + (most - 1) * c.levels s (s.options.merge o) := by
  have hfits : Parse.Fits ⟨most, c.InForce (s.options.merge o), hlimits⟩ 0 (c.levels s (s.options.merge o))
      (fun _ => True) (s.readRecord (c.entities (s.options.merge o)) v) :=
    Schema.fits_readRecord (fit_entitiesWithin hlimits _) (fun p hp => mem_additions_of_inForce hp) v
  have hparse : c.parse s v o calls = Parse.atRoot (s.options.merge o) calls
      (s.readRecord (c.entities (s.options.merge o)) v).concluded := by
    unfold parse readRecord Parse.concluded Parse.atRoot
    simp only [outcome_bind, outcome_tryCatch, outcome_options]
    rfl
  rw [hparse]
  exact hfits.reported_le .root calls

/-- Up to two failures collected, at two levels: the field that is absent, and both constraints of the other one. -/
theorem reported_order :
    let tags : Rule := .mk ⟨some .list, [], [⟨.minLength, .value (.int 3), false⟩,
      ⟨.uniqueItems, .value (.bool true), false⟩], none, none, none, none⟩
    let order : Schema := ⟨"Order", [{ name := "id", rule := .of .int }, { name := "tags", rule := tags }], {}⟩
    let o : Options := { collectErrors := some true, maxErrors := some 2, dataFirstSearch := some false }
    let result := (parse {} order (.map [(.str "tags", .list [.int 1, .int 1])]) o Calls.none).1
    (∀ p, InForce {} (order.options.merge o) p → p.Limits 2) ∧ levels {} order (order.options.merge o) = 2 ∧
      reported result = 3 ∧ reported result ≤ 1 + (2 - 1) * levels {} order (order.options.merge o) := by
  intro tags order o result
  have hlimits : ∀ p, InForce {} (order.options.merge o) p → p.Limits 2 := by
    intro p hp
    exact limits_of_inForce (c := {}) ⟨2, rfl, Nat.le_refl 2⟩ (List.forall_mem_nil _) hp
  exact ⟨hlimits, rfl, by decide +kernel, reported_parse_le hlimits⟩

/-- More failures than may be collected are reported where a context holds some when several come up from a child:
    from the constraints of a field, from a schema under the same limit, or from a schema that names its own. -/
theorem reported_above_limit :
    let collecting (most : Nat) : Options :=
      { collectErrors := some true, maxErrors := some most, dataFirstSearch := some false }
    let tags : Rule := .mk ⟨some .list, [], [⟨.minLength, .value (.int 3), false⟩,
      ⟨.uniqueItems, .value (.bool true), false⟩], none, none, none, none⟩
    let tagged : Schema := ⟨"Order", [{ name := "id", rule := .of .int }, { name := "tags", rule := tags }], {}⟩
    let address (o : Options) : Schema :=
      ⟨"Address", [{ name := "street", rule := .of .str }, { name := "town", rule := .of .str }], o⟩
    let person : Schema :=
      ⟨"Person", [{ name := "id", rule := .of .int }, { name := "home", rule := .of (.entity 0 "Address") }], {}⟩
    let home : Value := .map [(.str "home", .map [])]
    let limited : Options := { maxErrors := some 2, dataFirstSearch := some false }
    reported (parse {} tagged (.map [(.str "tags", .list [.int 1, .int 1])]) (collecting 2) Calls.none).1 = 3 ∧
      reported (parse { schemas := [address {}] } person home (collecting 2) Calls.none).1 = 3 ∧
      reported (parse { schemas := [address limited] } ⟨"Person", person.fields.tail, {}⟩ home (collecting 1)
        Calls.none).1 = 2 := by
  decide +kernel

end Catalog

end Conform

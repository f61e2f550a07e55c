import Conform.Proofs.Coupling.Reading
import Conform.Proofs.Record

/-! Schemas in two runs. A schema suits a coupling if its keys are matched to the same fields on both sides
    and its defaults may be produced on both. Records are then read alike by it, and a catalog of such schemas
    knows the same of its entities, so whole parses of rules and of schemas are coupled. -/

namespace Conform

namespace Coupling

/-- The default of a field may be produced in both runs, under any options. -/
def SteadyField (K : Coupling) (f : Field) : Prop := ∀ o force, K.Steady (f.produce o force)

/-- In both runs the same becomes of the keys of no field. -/
def KeepsPolicy (K : Coupling) : Prop := ∀ ⦃o p⦄, K.Opts o p → o.excessPolicy = p.excessPolicy

/-- A schema whose matching and whose defaults the coupling allows for. -/
structure Suits (K : Coupling) (s : Schema) : Prop where
  hits {o p : Options} {names : List String} :
    K.Opts o p → names.Nodup → ∀ name, (s.matchKeys o names).of name = (s.matchKeys p names).of name
  excess {o p : Options} {names : List String} :
    K.Opts o p → names.Nodup → (s.matchKeys o names).excess = (s.matchKeys p names).excess
  policy : K.KeepsPolicy
  steady : ∀ f ∈ s.fields, K.SteadyField f

variable {K : Coupling} {E F : Entities} {s : Schema} {f : Field}

/-! ### Fields -/

theorem rel_fillAbsent (hf : K.SteadyField f) (r : Resolved) :
    K.Rel Eq (Schema.fillAbsent f r) (Schema.fillAbsent f r) := by
  refine K.rel_bind K.rel_options fun o p hop => ?_
  rw [K.agree (fun o => f.produce o false) (fun _ => rfl) hop, K.agree f.isRequired (fun _ => rfl) hop]
  refine K.rel_bind_same (K.rel_called (hf p false)) fun found => ?_
  cases found with
  | some v => exact K.rel_pure rfl
  | none =>
    simp only
    split
    · refine K.rel_bind_same K.rel_route fun route => ?_
      exact K.rel_bind_same (K.rel_collect (K.fails_refl (by simp [Failure.flatten]))) fun _ => K.rel_pure rfl
    · exact K.rel_pure rfl

theorem rel_fillIfFull (pass : Pass) (hf : K.SteadyField f) (r : Resolved) :
    K.Rel Eq (Schema.fillIfFull pass f r) (Schema.fillIfFull pass f r) := by
  unfold Schema.fillIfFull
  split
  · exact rel_fillAbsent hf r
  · exact K.rel_pure rfl

theorem rel_parseValue (hE : K.AlikeEntities E F) (v : Value) (siblings : Record) :
    K.Rel Eq (f.parseValue E v siblings) (f.parseValue F v siblings) := by
  have read : K.Rel Eq
      (do ((f.ruleFor siblings).reading E).guarded v (.key f.name) (f.policy (← Parse.options)))
      (do ((f.ruleFor siblings).reading F).guarded v (.key f.name) (f.policy (← Parse.options))) := by
    refine K.rel_bind K.rel_options fun o p hop => ?_
    rw [K.agree f.policy (fun _ => rfl) hop]
    exact rel_guarded_eq (alike_reading hE _).toCoupled v _ _
  unfold Field.parseValue
  cases f.deprecated with
  | none => exact read
  | some replacement => exact K.rel_bind_same (K.rel_warn _) fun _ => read

theorem rel_readField (hE : K.AlikeEntities E F) (pass : Pass) (hf : K.SteadyField f)
    (v : Value) (r : Resolved) : K.Rel Eq (Schema.readField E pass f v r) (Schema.readField F pass f v r) := by
  refine K.rel_bind_same (rel_parseValue hE v r.values) fun outcome => ?_
  cases outcome with
  | parsed w | preserved w => exact K.rel_pure rfl
  | excluded => exact rel_fillIfFull pass hf r
  | collected => exact K.rel_pure rfl

theorem rel_fieldRoute (f : Field) : K.Rel Eq (Schema.fieldRoute f) (Schema.fieldRoute f) := by
  exact K.rel_bind_same K.rel_route fun _ => K.rel_pure rfl

/-- The same of two runs over the fields: a record, and fields that wait for another one, whose defaults may
    be produced. -/
def SameWaiting (K : Coupling) (x y : Resolved × Schema.Waiting) : Prop := x = y ∧ ∀ e ∈ x.2, K.SteadyField e.1

theorem rel_visitGiven (hE : K.AlikeEntities E F) (pass : Pass) (hf : K.SteadyField f) (v : Value) (r : Resolved)
    {waiting : Schema.Waiting} (hwaiting : ∀ e ∈ waiting, K.SteadyField e.1) :
    K.Rel K.SameWaiting (Schema.visitGiven E pass f v r waiting) (Schema.visitGiven F pass f v r waiting) := by
  refine K.rel_bind K.rel_options fun o p hop => ?_
  rw [K.agree (fun o => f.takesNoInput o (some v)) (fun _ => rfl) hop]
  split
  · refine K.rel_bind (rel_fillIfFull pass hf r) fun r' _ hr' => ?_
    cases hr'
    exact K.rel_pure ⟨rfl, hwaiting⟩
  split
  · refine K.rel_bind_same (rel_fieldRoute f) fun route => ?_
    exact K.rel_bind_same (K.rel_collect (K.fails_refl (by simp [Failure.flatten]))) fun _ =>
      K.rel_pure ⟨rfl, hwaiting⟩
  split
  · refine K.rel_pure ⟨rfl, fun e he => ?_⟩
    rcases List.mem_append.mp he with he | he
    · exact hwaiting e he
    · obtain rfl := List.mem_singleton.mp he
      exact hf
  · refine K.rel_bind (rel_readField hE pass hf v r) fun r' _ hr' => ?_
    cases hr'
    exact K.rel_pure ⟨rfl, hwaiting⟩

theorem rel_visitField (hE : K.AlikeEntities E F) (pass : Pass) (hf : K.SteadyField f) (input : Record)
    (hits : List String) (r : Resolved) {waiting : Schema.Waiting}
    (hwaiting : ∀ e ∈ waiting, K.SteadyField e.1) :
    K.Rel K.SameWaiting (Schema.visitField E pass input hits f r waiting)
      (Schema.visitField F pass input hits f r waiting) := by
  refine K.rel_bind K.rel_options fun o p hop => ?_
  rw [K.agree f.isHidden (fun _ => rfl) hop, K.agree Options.ignoresAliasConflicts (fun _ => rfl) hop]
  split
  · exact K.rel_pure ⟨rfl, hwaiting⟩
  cases hits with
  | nil =>
    refine K.rel_bind (rel_fillIfFull pass hf r) fun r' _ hr' => ?_
    cases hr'
    exact K.rel_pure ⟨rfl, hwaiting⟩
  | cons key others =>
    simp only
    split
    · refine K.rel_bind_same (rel_fieldRoute f) fun route => ?_
      exact K.rel_bind_same (K.rel_collect (K.fails_refl (by simp [Failure.flatten]))) fun _ =>
        K.rel_pure ⟨rfl, hwaiting⟩
    · cases input.get? key with
      | some v => exact rel_visitGiven hE pass hf v r hwaiting
      | none => exact K.rel_pure ⟨rfl, hwaiting⟩

theorem rel_visitFields (hE : K.AlikeEntities E F) (pass : Pass) (input : Record) {m n : Matches}
    (hof : ∀ name, m.of name = n.of name) (fields : List Field) :
    (∀ f ∈ fields, K.SteadyField f) → ∀ (r : Resolved) (waiting : Schema.Waiting),
      (∀ e ∈ waiting, K.SteadyField e.1) →
      K.Rel K.SameWaiting (Schema.visitFields E pass input m fields r waiting)
        (Schema.visitFields F pass input n fields r waiting) := by
  induction fields with
  | nil => exact fun _ r waiting hwaiting => K.rel_pure ⟨rfl, hwaiting⟩
  | cons f rest ih =>
    intro hfields r waiting hwaiting
    obtain ⟨hf, hrest⟩ := List.forall_mem_cons.mp hfields
    unfold Schema.visitFields
    rw [hof f.name]
    refine K.rel_bind (rel_visitField hE pass hf input _ r hwaiting) fun x _ hx => ?_
    obtain ⟨rfl, hsteady⟩ := hx
    exact ih hrest _ _ hsteady

theorem rel_readWaiting (hE : K.AlikeEntities E F) (pass : Pass) (waiting : Schema.Waiting) :
    (∀ e ∈ waiting, K.SteadyField e.1) → ∀ r : Resolved,
      K.Rel Eq (Schema.readWaiting E pass waiting r) (Schema.readWaiting F pass waiting r) := by
  induction waiting with
  | nil => exact fun _ r => K.rel_pure rfl
  | cons e rest ih =>
    intro hwaiting r
    obtain ⟨he, hrest⟩ := List.forall_mem_cons.mp hwaiting
    refine K.rel_bind (rel_readField hE pass he e.2 r) fun r' _ hr' => ?_
    cases hr'
    exact ih hrest r'

/-! ### Keys of no field -/

theorem rel_visitExcess (hE : K.AlikeEntities E F) (hK : K.KeepsPolicy) (key : String) (v : Value) (r : Resolved) :
    K.Rel Eq (Schema.visitExcess E key v r) (Schema.visitExcess F key v r) := by
  refine K.rel_bind K.rel_options fun o p hop => ?_
  rw [K.agree Options.additionRule (fun _ => rfl) hop, K.agree Options.valuePolicy (fun _ => rfl) hop, hK hop]
  cases p.additionRule with
  | some rule =>
    refine K.rel_bind_same (rel_guarded_eq (alike_reading hE rule).toCoupled v (.key key) p.valuePolicy) fun outcome => ?_
    cases outcome.value? with
    | some w => exact K.rel_pure rfl
    | none => exact K.rel_pure rfl
  | none => cases p.excessPolicy <;> exact K.rel_pure rfl

theorem rel_visitExcesses (hE : K.AlikeEntities E F) (hK : K.KeepsPolicy) (input : Record) (keys : List String) :
    ∀ r, K.Rel Eq (Schema.visitExcesses E input keys r) (Schema.visitExcesses F input keys r) := by
  induction keys with
  | nil => exact fun _ => K.rel_pure rfl
  | cons key rest ih =>
    intro r
    unfold Schema.visitExcesses
    cases input.get? key with
    | none => exact ih r
    | some v =>
      refine K.rel_bind_same (rel_visitExcess hE hK key v r) fun x => ?_
      exact K.rel_bind_same (ih x.2) fun _ => K.rel_pure rfl

/-! ### Records -/

theorem rel_inputRecord (s : Schema) (v : Value) :
    K.Rel (fun x y => x = y ∧ x.names.Nodup) (s.inputRecord v) (s.inputRecord v) := by
  have refuse (cause : ConversionError) : K.Rel (fun x y : Record => x = y ∧ x.names.Nodup)
      (do throw (.coercion (← Parse.route) v s.name cause)) (do throw (.coercion (← Parse.route) v s.name cause)) := by
    exact K.rel_throw_here fun _ => by simp [Failure.flatten]
  refine K.rel_bind K.rel_options fun o p hop => ?_
  rw [K.agree (fun o => o.convert v .map) (fun _ => rfl) hop]
  cases p.convert v .map with
  | error cause => exact refuse cause
  | ok w =>
    cases w with
    | map entries => exact K.rel_pure ⟨rfl, Record.nodup_names_ofEntries entries⟩
    | _ => exact refuse _

theorem rel_resolve (hE : K.AlikeEntities E F) (hs : K.Suits s) (pass : Pass) (v : Value) :
    K.Rel Eq (s.resolve E pass v) (s.resolve F pass v) := by
  refine K.rel_bind (rel_inputRecord s v) fun input _ hinput => ?_
  obtain ⟨rfl, hnodup⟩ := hinput
  refine K.rel_bind K.rel_options fun o p hop => ?_
  refine K.rel_bind (rel_visitFields hE pass input (hs.hits hop hnodup) s.fields hs.steady _ [] (by simp))
    fun x _ hx => ?_
  obtain ⟨rfl, hsteady⟩ := hx
  refine K.rel_bind_same (rel_readWaiting hE pass x.2 hsteady x.1) fun r => ?_
  rw [hs.excess hop hnodup]
  refine K.rel_bind_same (rel_visitExcesses hE hs.policy input _ r) fun y => ?_
  simp only
  split
  · exact K.rel_pure rfl
  · refine K.rel_bind_same K.rel_route fun route => ?_
    exact K.rel_bind_same (K.rel_collect (K.fails_refl (by simp [Failure.flatten]))) fun _ => K.rel_pure rfl

/-! ### Dependencies -/

theorem rel_reportBroken (supplied : List String) (values : Record) (f : Field) :
    K.Rel Eq (Schema.reportBroken supplied values f) (Schema.reportBroken supplied values f) := by
  unfold Schema.reportBroken
  split
  · refine K.rel_bind K.rel_options fun o p hop => ?_
    rw [K.agree f.policy (fun _ => rfl) hop]
    cases f.policy p with
    | throw =>
      refine K.rel_bind_same (rel_fieldRoute f) fun route => ?_
      exact K.rel_collect (K.fails_refl (by simp [Failure.flatten]))
    | exclude | preserve => exact K.rel_warn _
  · exact K.rel_pure rfl

theorem rel_reportAll (supplied : List String) (values : Record) (fields : List Field) :
    K.Rel Eq (Schema.reportAll supplied values fields) (Schema.reportAll supplied values fields) := by
  induction fields with
  | nil => exact K.rel_pure rfl
  | cons f rest ih => exact K.rel_bind_same (rel_reportBroken supplied values f) fun _ => ih

theorem rel_dropBroken (s : Schema) (supplied : List String) (rounds : Nat) :
    ∀ values, K.Rel Eq (s.dropBroken supplied rounds values) (s.dropBroken supplied rounds values) := by
  induction rounds with
  | zero => exact fun _ => K.rel_pure rfl
  | succ rounds ih =>
    intro values
    unfold Schema.dropBroken
    simp only
    split
    · exact K.rel_pure rfl
    · exact K.rel_bind_same (rel_reportAll supplied values _) fun _ => ih _

theorem rel_finalize (s : Schema) (values : Record) (supplied : List String) (extras : Record) :
    K.Rel Eq (s.finalize values supplied extras) (s.finalize values supplied extras) := by
  exact K.rel_bind_same (rel_dropBroken s supplied _ values) fun _ => K.rel_pure rfl

theorem rel_readRecord (hE : K.AlikeEntities E F) (hs : K.Suits s) (v : Value) :
    K.Rel Eq (s.readRecord E v) (s.readRecord F v) := by
  refine K.rel_bind_same (rel_resolve hE hs .full v) fun r => ?_
  exact rel_finalize s r.values r.supplied r.extras

theorem rel_readUpdate (hE : K.AlikeEntities E F) (hs : K.Suits s) (current : Record) (changes : Value) :
    K.Rel Eq (s.readUpdate E current changes) (s.readUpdate F current changes) := by
  refine K.rel_bind_same (rel_resolve hE hs .update changes) fun r => ?_
  exact rel_finalize s (current.insertAll r.values) r.supplied r.extras

/-! ### Catalogs -/

/-- What a catalog of suitable schemas knows of its entities is alike, for any number of descents. -/
theorem alike_entitiesWithin {c : Catalog} (hc : ∀ s ∈ c.schemas, K.Suits s) (budget : Nat) :
    K.AlikeEntities (c.entitiesWithin budget) (c.entitiesWithin budget) := by
  induction budget with
  | zero => exact fun _ => .plain
  | succ budget ih =>
    have schema {s : Schema} (hs : s ∈ c.schemas) :
        K.AlikeLookup (Catalog.entity (c.entitiesWithin budget) s) (Catalog.entity (c.entitiesWithin budget) s) :=
      .entity ⟨rfl, rel_readRecord ih (hc s hs)⟩
    intro t
    unfold Catalog.entitiesWithin
    cases t with
    | entity place name =>
      simp only
      cases hs : c.schemas[place]? with
      | some s => exact schema (List.mem_of_getElem? hs)
      | none => exact .plain
    | reference r =>
      simp only
      cases hs : (c.references.content? r).bind (c.schemas[·]?) with
      | some s =>
        obtain ⟨place, -, hplace⟩ := Option.bind_eq_some_iff.mp hs
        exact schema (List.mem_of_getElem? hplace)
      | none => exact .unresolved r.name
    | _ => exact .plain

theorem alike_entities {c : Catalog} (hc : ∀ s ∈ c.schemas, K.Suits s) {o p : Options} (hop : K.Opts o p) :
    K.AlikeEntities (c.entities o) (c.entities p) := by
  unfold Catalog.entities
  rw [K.agree c.greatestDepth (fun _ => rfl) hop]
  exact alike_entitiesWithin hc _

theorem rel_readBy {c : Catalog} (hc : ∀ s ∈ c.schemas, K.Suits s) (r : Rule) (v : Value) :
    K.Rel Eq (c.readBy r v) (c.readBy r v) :=
  K.rel_bind K.rel_options fun _ _ hop => (alike_reading (alike_entities hc hop) r).read v

theorem rel_catalog_readRecord {c : Catalog} (hc : ∀ s ∈ c.schemas, K.Suits s) (hs : K.Suits s) (v : Value) :
    K.Rel Eq (c.readRecord s v) (c.readRecord s v) :=
  K.rel_bind K.rel_options fun _ _ hop => rel_readRecord (alike_entities hc hop) hs v

end Coupling

end Conform

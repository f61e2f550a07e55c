import Conform.Proofs.Schema.Required

/-! What plain fields gather. Plain fields take what there is for them and nothing else, so what a reading gathers of
    them is described by the keys from which they were read and by their values. A reading that is accepted fits
    such a description, and a description whose values are read whatever was called before is that of a reading
    that is accepted. The keys of no field are kept as they are, or passed over. -/

namespace Conform

open Parse

/-- What has been read once more fields are read after others. -/
def Resolved.more (r : Resolved) (values : Record) : Resolved :=
  ⟨r.values ++ values, values.names.reverse ++ r.supplied, r.extras⟩

theorem Resolved.more_cons (r : Resolved) (name : String) (w : Value) (values : Record) (h : name ∉ r.values.names) :
    Resolved.more { r with values := r.values.insert name w, supplied := name :: r.supplied } values =
      r.more ((name, w) :: values) := by
  simp [more, Record.insert_of_not_mem h, Record.names]

/-- A field takes a value from the first of its keys, and from one that is not alone only where that is no conflict. -/
theorem Field.taken?_eq_some {f : Field} {pass : Pass} {o : Options} {input : Record} {hits : List String} {v : Value}
    (h : f.taken? pass o input hits = some v) :
    ∃ key others, hits = key :: others ∧ (others = [] ∨ o.ignoresAliasConflicts = true) ∧ input.get? key = some v := by
  unfold taken? at h
  split at h
  · cases h
  cases hits with
  | nil => cases h
  | cons key others =>
    simp only at h
    split at h
    · cases h
    · rename_i hconflict
      refine ⟨key, others, rfl, ?_, (Option.filter_eq_some_iff.mp h).1⟩
      cases others with
      | nil => exact .inl rfl
      | cons other rest => exact .inr (by simpa using hconflict)

/-- A field that has no default, is always seen, takes and gives what there is for it by its one rule, and whose
    failures are thrown. -/
structure Field.Plain (f : Field) (o : Options) : Prop where
  default : f.default = none
  modes : f.modes = none
  noInput : f.noInput = none
  noOutput : f.noOutput = none
  outputRule : f.outputRule = none
  discriminator : f.discriminator = none
  policy : f.policy o = .throw

namespace Field.Plain

variable {f : Field} {o : Options}

theorem isHidden (h : f.Plain o) : f.isHidden o = false := by rw [Field.isHidden, h.modes]

theorem takesNoInput (h : f.Plain o) (v : Option Value) : f.takesNoInput o v = false := by
  rw [Field.takesNoInput, h.isHidden, h.noInput]
  rfl

theorem givesNoOutput (h : f.Plain o) (v : Option Value) : f.givesNoOutput o v = false := by
  rw [Field.givesNoOutput, h.isHidden, h.noOutput]
  rfl

theorem ruleFor (h : f.Plain o) (siblings : Record) : f.ruleFor siblings = f.rule := by
  simp [Field.ruleFor, h.discriminator]

theorem produce (h : f.Plain o) (force : Bool) (calls : Calls) : f.produce o force calls = (none, calls) := by
  rw [Field.produce, h.default]

end Field.Plain

namespace Schema

variable {s : Schema} {E : Entities} {f : Field} {v w : Value} {o : Options} {c : Context} {r r' : Resolved}
  {waiting : Waiting} {input input' : Record} {hits : List String} {m m' : Matches} {state t : ParseState}
  {values extras : Record} {fields : List Field}

/-! ### Descriptions -/

/-- The rule of a field reads a value one step below a context. -/
def Reads (E : Entities) (c : Context) (calls : Calls) (f : Field) (v w : Value) : Prop :=
  ∃ child t, c.enter (.key f.name) = .ok child ∧ Accepts ((f.rule.reading E).read v) ⟨child, calls⟩ w t

/-- The values that fields have in their order, each read from the first of its keys, and no key for those without. -/
inductive Gathered (R : Field → Value → Value → Prop) (o : Options) (input : Record) (m : Matches) :
    List Field → Record → Prop
  | nil : Gathered R o input m [] []
  | absent {f : Field} {rest : List Field} {values : Record} : m.of f.name = [] → f.isRequired o = false →
    Gathered R o input m rest values → Gathered R o input m (f :: rest) values
  | given {f : Field} {rest : List Field} {values : Record} {key : String} {others : List String} {v w : Value} :
    m.of f.name = key :: others → (others = [] ∨ o.ignoresAliasConflicts = true) → input.get? key = some v → R f v w →
    Gathered R o input m rest values → Gathered R o input m (f :: rest) ((f.name, w) :: values)

namespace Gathered

variable {R R' : Field → Value → Value → Prop}

/-- The values stand in the order of the fields. -/
theorem names_sublist (h : Gathered R o input m fields values) : values.names.Sublist (fields.map Field.name) := by
  induction h with
  | nil => exact .refl []
  | absent _ _ _ ih => exact ih.cons _
  | given _ _ _ _ _ ih => exact ih.cons_cons _

/-- A description of values that are read again as they are fits every input with one key for each of them and no key
    for the other fields. -/
theorem again (h : Gathered R o input m fields values) (hnames : (fields.map Field.name).Nodup)
    (hR : ∀ f ∈ fields, ∀ v w, R f v w → R' f w w)
    (hgiven : ∀ f ∈ fields, ∀ w, (f.name, w) ∈ values → ∃ key, m'.of f.name = [key] ∧ input'.get? key = some w)
    (habsent : ∀ f ∈ fields, f.name ∉ values.names → m'.of f.name = []) : Gathered R' o input' m' fields values := by
  induction h with
  | nil => exact .nil
  | @absent f rest values hnone hoptional hrest ih =>
    obtain ⟨hf, hnames⟩ := List.nodup_cons.mp hnames
    have hgone : f.name ∉ values.names := fun hname => hf (hrest.names_sublist.subset hname)
    obtain ⟨-, hR⟩ := List.forall_mem_cons.mp hR
    exact .absent (habsent f List.mem_cons_self hgone) hoptional (ih hnames hR
      (fun g hg => hgiven g (List.mem_cons_of_mem f hg)) fun g hg => habsent g (List.mem_cons_of_mem f hg))
  | @given f rest values key others v w hkey hconflict hget hread hrest ih =>
    obtain ⟨hf, hnames⟩ := List.nodup_cons.mp hnames
    obtain ⟨hRf, hR⟩ := List.forall_mem_cons.mp hR
    obtain ⟨key', hkey', hget'⟩ := hgiven f List.mem_cons_self w List.mem_cons_self
    refine .given hkey' (.inl rfl) hget' (hRf v w hread) (ih hnames hR (fun g hg u hu => ?_) fun g hg hgone => ?_)
    · exact hgiven g (List.mem_cons_of_mem f hg) u (List.mem_cons_of_mem _ hu)
    · refine habsent g (List.mem_cons_of_mem f hg) fun hname => ?_
      rcases List.mem_cons.mp hname with heq | hname
      · exact hf (List.mem_map.mpr ⟨g, hg, heq⟩)
      · exact hgone hname

end Gathered

/-! ### Accepted visits -/

/-- What the visit of a plain field leaves is as it was where no key is there for it, and else has what its rule reads of the
    value under the first of its keys. -/
theorem Visit.of_plain {x : Resolved × Waiting} (h : Visit E input hits f state r waiting x)
    (hf : f.Plain state.context.options) :
    (hits = [] ∧ f.isRequired state.context.options = false ∧ x = (r, waiting)) ∨
      ∃ key others v w, hits = key :: others ∧ (others = [] ∨ state.context.options.ignoresAliasConflicts = true) ∧
        input.get? key = some v ∧ Reads E state.context state.calls f v w ∧
          x = ({ r with values := r.values.insert f.name w, supplied := f.name :: r.supplied }, waiting) := by
  cases h with
  | absent htaken hwhy hfilled =>
    have hnone : hits = [] := by
      rcases hwhy with hnone | ⟨v, hinput⟩
      · exact hnone
      · rw [hf.takesNoInput] at hinput
        cases hinput
    cases hfilled with
    | default v hdefault =>
      rw [hf.default] at hdefault
      cases hdefault
    | nothing hoptional => exact .inl ⟨hnone, hoptional, rfl⟩
  | read htaken _ htook =>
    obtain ⟨key, others, hhits, hconflict, hget⟩ := Field.taken?_eq_some htaken
    cases htook with
    | excluded hpolicy _ =>
      rw [hf.policy] at hpolicy
      cases hpolicy
    | value hadmitted hvalue =>
      rw [hf.ruleFor, hf.policy] at hadmitted
      cases hadmitted with
      | parsed hchild hread =>
        obtain rfl := Option.some.inj hvalue
        exact .inr ⟨key, others, _, _, hhits, hconflict, hget, ⟨_, _, hchild, hread⟩, rfl⟩
      | preserved hpolicy => cases hpolicy
      | excluded hpolicy => cases hpolicy
  | waits _ hwaits =>
    rw [hf.discriminator] at hwaits
    cases hwaits

/-- The fields behind one that takes a value are still without one. -/
theorem new_of_insert {rest : List Field} (hfresh : f.name ∉ rest.map Field.name)
    (hnew : ∀ g ∈ rest, g.name ∉ r.values.names) (w : Value) : ∀ g ∈ rest, g.name ∉ (r.values.insert f.name w).names := by
  intro g hg hname
  rcases Record.mem_names_insert.mp hname with heq | hname
  · exact hfresh (List.mem_map.mpr ⟨g, hg, heq⟩)
  · exact hnew g hg hname

section Visits

variable (hE : Coupling.sound.AlikeEntities E E)

include hE

/-- An accepted visit of plain fields gathers their values, and leaves none of them waiting. -/
theorem gathered_of_accepts (fields : List Field) : ∀ {r : Resolved} {waiting : Waiting} {x : Resolved × Waiting}
    {state t : ParseState}, state.context.failures = [] → c.At state.context →
    (∀ f ∈ fields, f.Plain c.options) → (∀ f ∈ fields, ∀ key ∈ m.of f.name, key ∈ input.names) →
    (fields.map Field.name).Nodup → (∀ f ∈ fields, f.name ∉ r.values.names) →
    Accepts (visitFields E .full input m fields r waiting) state x t →
    ∃ values, Gathered (fun f v w => ∃ calls, Reads E c calls f v w) c.options input m fields values ∧
      x = (Resolved.more r values, waiting) := by
  induction fields with
  | nil =>
    intro r waiting x state t hclean _ _ _ _ _ h
    obtain ⟨rfl, -⟩ := (accepts_pure hclean).mp h
    exact ⟨[], .nil, by simp [Resolved.more, Record.names]⟩
  | cons f rest ih =>
    intro r waiting x state t hclean hplace hplain hkeys hnames hnew h
    obtain ⟨hf, hplain⟩ := List.forall_mem_cons.mp hplain
    obtain ⟨hkey, hkeys⟩ := List.forall_mem_cons.mp hkeys
    obtain ⟨hfresh, hnames⟩ := List.nodup_cons.mp hnames
    obtain ⟨hnewf, hnew⟩ := List.forall_mem_cons.mp hnew
    obtain ⟨y, u, hfirst, hplace', hrest⟩ := (accepts_seq (sound_visitField hE .full input _ f r waiting)
      (fun y => sound_visitFields hE .full input m rest y.1 y.2) hclean).mp h
    rw [hplace.options] at hf
    rcases (visit_of_accepts hE hclean hf.isHidden hkey hfirst).of_plain hf with ⟨hnone, hoptional, rfl⟩ |
        ⟨key, others, v, w, hhits, hconflict, hget, ⟨child, t', hchild, hread⟩, rfl⟩
    · obtain ⟨values, hgathered, hx⟩ := ih hfirst.2 (hplace.trans hplace') hplain hkeys hnames hnew hrest
      exact ⟨values, .absent hnone (hplace.options ▸ hoptional) hgathered, hx⟩
    · obtain ⟨values, hgathered, hx⟩ := ih hfirst.2 (hplace.trans hplace') hplain hkeys hnames
        (new_of_insert hfresh hnew w) hrest
      refine ⟨(f.name, w) :: values, .given hhits (hplace.options ▸ hconflict) hget ?_ hgathered, ?_⟩
      · exact ⟨state.calls, child, t', (hplace.enter _).trans hchild, hread⟩
      · rw [hx, Resolved.more_cons r f.name w values hnewf]

omit hE

/-- A plain field that is not required leaves nothing where it is absent. -/
theorem outcome_fillAbsent (hf : f.Plain state.context.options) (hoptional : f.isRequired state.context.options = false)
    (r : Resolved) : (fillAbsent f r).outcome state = (.ok r, state) := by
  have hcalled : (called (f.produce state.context.options false)).outcome state = (.ok none, state) := by
    rw [called, outcome_ofOutcome, hf.produce]
  rw [fillAbsent, outcome_bind_of_ok (outcome_options state), outcome_bind_of_ok hcalled]
  simp only [hoptional, Bool.false_eq_true, if_false]
  rfl

/-- A plain field reads what its rule reads. -/
theorem accepts_parseValue (hf : f.Plain state.context.options) (hclean : state.context.failures = [])
    (hplace : c.At state.context) (hread : ∀ calls, Reads E c calls f v w) (siblings : Record) :
    ∃ t, Accepts (f.parseValue E v siblings) state (.parsed w) t ∧ state.context.At t.context := by
  have hguarded (d : Context) (hd : d.failures = []) (hcd : c.At d) :
      ∃ t, Accepts ((f.rule.reading E).guarded v (.key f.name) .throw) ⟨d, state.calls⟩ (.parsed w) t ∧ d.At t.context := by
    obtain ⟨child, u, hchild, haccepts⟩ := hread state.calls
    exact Reading.accepts_guarded (s := ⟨d, state.calls⟩) hd ((hcd.enter _).symm.trans hchild) haccepts
  unfold Field.parseValue
  rw [hf.ruleFor]
  cases f.deprecated with
  | none =>
    obtain ⟨t, haccepts, hplace'⟩ := hguarded state.context hclean hplace
    exact ⟨t, accepts_options.mpr (hf.policy ▸ haccepts), hplace'⟩
  | some replacement =>
    have hwarn : (warn (f.deprecationMessage replacement)).outcome state =
        (.ok (), ⟨state.context.warn (f.deprecationMessage replacement), state.calls⟩) := rfl
    obtain ⟨t, haccepts, hplace'⟩ :=
      hguarded (state.context.warn (f.deprecationMessage replacement)) hclean ⟨hplace.options, hplace.route, hplace.depth⟩
    refine ⟨t, ?_, ⟨hplace'.options, hplace'.route, hplace'.depth⟩⟩
    rw [Accepts, outcome_bind_of_ok hwarn]
    exact accepts_options.mpr (hf.policy ▸ haccepts)

/-- A plain field is visited by its first key. -/
theorem accepts_visitField {key : String} {others : List String} (hf : f.Plain state.context.options)
    (hclean : state.context.failures = []) (hplace : c.At state.context)
    (hconflict : others = [] ∨ state.context.options.ignoresAliasConflicts = true) (hget : input.get? key = some v)
    (hread : ∀ calls, Reads E c calls f v w) (r : Resolved) (waiting : Waiting) :
    ∃ t, Accepts (visitField E .full input (key :: others) f r waiting) state
      ({ r with values := r.values.insert f.name w, supplied := f.name :: r.supplied }, waiting) t ∧
      state.context.At t.context := by
  obtain ⟨t, ⟨hparse, hlast⟩, hplace'⟩ := accepts_parseValue hf hclean hplace hread r.values
  refine ⟨t, ⟨?_, hlast⟩, hplace'⟩
  have hread : (readField E .full f v r).outcome state =
      (.ok { r with values := r.values.insert f.name w, supplied := f.name :: r.supplied }, t) := by
    rw [readField, outcome_bind_of_ok hparse]
    rfl
  have hno : ¬ (!others.isEmpty && !state.context.options.ignoresAliasConflicts) = true := by
    rcases hconflict with rfl | hignores
    · simp
    · simp [hignores]
  rw [visitField, outcome_bind_of_ok (outcome_options state), hf.isHidden, if_neg Bool.false_ne_true]
  simp only [if_neg hno, hget]
  rw [visitGiven, outcome_bind_of_ok (outcome_options state), hf.takesNoInput, if_neg Bool.false_ne_true, if_neg (by simp),
    hf.discriminator, if_neg (by simp), outcome_bind_of_ok hread]
  rfl

/-- A description whose values are read whatever was called before is that of an accepted visit. -/
theorem accepts_of_gathered {fields : List Field} {values : Record}
    (h : Gathered (fun f v w => ∀ calls, Reads E c calls f v w) c.options input m fields values) :
    (∀ f ∈ fields, f.Plain c.options) → (fields.map Field.name).Nodup →
    ∀ {r : Resolved} {waiting : Waiting} {state : ParseState}, state.context.failures = [] → c.At state.context →
    (∀ f ∈ fields, f.name ∉ r.values.names) →
    ∃ t, Accepts (visitFields E .full input m fields r waiting) state (r.more values, waiting) t ∧ c.At t.context := by
  induction h with
  | nil =>
    intro _ _ r waiting state hclean hplace _
    have hmore : r.more [] = r := by simp [Resolved.more, Record.names]
    rw [hmore]
    exact ⟨state, ⟨rfl, hclean⟩, hplace⟩
  | @absent f rest values hnone hoptional _ ih =>
    intro hplain hnames r waiting state hclean hplace hnew
    obtain ⟨hf, hplain⟩ := List.forall_mem_cons.mp hplain
    obtain ⟨-, hnames⟩ := List.nodup_cons.mp hnames
    obtain ⟨-, hnew⟩ := List.forall_mem_cons.mp hnew
    obtain ⟨t, hrest, hplace'⟩ := ih hplain hnames hclean hplace hnew
    rw [hplace.options] at hf hoptional
    refine ⟨t, ?_, hplace'⟩
    have hvisit : (visitField E .full input (m.of f.name) f r waiting).outcome state = (.ok (r, waiting), state) := by
      rw [hnone, visitField, outcome_bind_of_ok (outcome_options state), hf.isHidden, if_neg Bool.false_ne_true]
      exact outcome_bind_of_ok (outcome_fillAbsent hf hoptional r)
    rw [visitFields, Accepts, outcome_bind_of_ok hvisit]
    exact hrest
  | @given f rest values key others v w hkey hconflict hget hread _ ih =>
    intro hplain hnames r waiting state hclean hplace hnew
    obtain ⟨hf, hplain⟩ := List.forall_mem_cons.mp hplain
    obtain ⟨hfresh, hnames⟩ := List.nodup_cons.mp hnames
    obtain ⟨hnewf, hnew⟩ := List.forall_mem_cons.mp hnew
    rw [hplace.options] at hf hconflict
    obtain ⟨u, ⟨hvisit, hlast⟩, hplace'⟩ := accepts_visitField hf hclean hplace hconflict hget hread r waiting
    obtain ⟨t, hrest, hplace''⟩ := ih hplain hnames
      (r := { r with values := r.values.insert f.name w, supplied := f.name :: r.supplied }) hlast
      (hplace.trans hplace') (new_of_insert hfresh hnew w)
    rw [Resolved.more_cons r f.name w values hnewf] at hrest
    refine ⟨t, ?_, hplace''⟩
    rw [visitFields, Accepts, hkey, outcome_bind_of_ok hvisit]
    exact hrest

end Visits

/-! ### Keys of no field -/

/-- What is kept of the keys of no field, where no rule reads them. -/
def passed (o : Options) (input : Record) (keys : List String) : Record :=
  match o.excessPolicy with
  | .preserve => keys.filterMap fun key => (input.get? key).map (key, ·)
  | _ => []

/-- The keys of no field that are refused under some options, where no rule reads their values. -/
def refusedOf (o : Options) (keys : List String) : List String := if o.excessPolicy = .reject then keys else []

theorem passed_nil (o : Options) (input : Record) : passed o input [] = [] := by
  unfold passed
  cases o.excessPolicy <;> rfl

theorem passed_cons (o : Options) (input : Record) (key : String) (rest : List String) :
    passed o input (key :: rest) = passed o input [key] ++ passed o input rest := by
  unfold passed
  cases o.excessPolicy with
  | preserve => rw [← List.filterMap_append, List.singleton_append]
  | ignore | reject => rfl

theorem names_passed_sublist (o : Options) (input : Record) (keys : List String) :
    (passed o input keys).names.Sublist keys := by
  unfold passed
  cases o.excessPolicy with
  | preserve =>
    induction keys with
    | nil => exact .refl []
    | cons key rest ih =>
      rw [List.filterMap_cons]
      cases input.get? key with
      | none => exact ih.cons key
      | some v => exact ih.cons_cons key
  | ignore | reject => exact List.nil_sublist keys

/-- What was kept is kept again of an input that has the same under its names. -/
theorem passed_again (hnone : o.excessPolicy = .preserve ∨ extras = [])
    (hget : ∀ e ∈ extras, input.get? e.1 = some e.2) : passed o input extras.names = extras := by
  rcases hnone with hpreserve | rfl
  · simp only [passed, hpreserve]
    induction extras with
    | nil => rfl
    | cons e rest ih =>
      obtain ⟨he, hrest⟩ := List.forall_mem_cons.mp hget
      have hnames : Record.names (e :: rest) = e.1 :: Record.names rest := rfl
      rw [hnames, List.filterMap_cons, he, Option.map_some, ih hrest]
  · exact passed_nil o input

theorem outcome_visitExcess (E : Entities) (hrule : state.context.options.additionRule = none) {key : String}
    (hget : input.get? key = some v) (r : Resolved) :
    (visitExcess E key v r).outcome state = (.ok (decide (state.context.options.excessPolicy = .reject),
      { r with extras := r.extras.insertAll (passed state.context.options input [key]) }), state) := by
  rw [visitExcess, outcome_bind_of_ok (outcome_options state), hrule]
  unfold passed
  cases state.context.options.excessPolicy with
  | preserve =>
    simp only [List.filterMap_cons, hget, Option.map_some, List.filterMap_nil]
    rfl
  | ignore | reject => rfl

/-- What becomes of keys of no field that an input has, where no rule reads their values. -/
theorem outcome_visitExcesses (E : Entities) (hrule : state.context.options.additionRule = none) (keys : List String) :
    ∀ {r : Resolved}, (∀ key ∈ keys, key ∈ input.names) →
    (visitExcesses E input keys r).outcome state = (.ok (refusedOf state.context.options keys,
      { r with extras := r.extras.insertAll (passed state.context.options input keys) }), state) := by
  induction keys with
  | nil =>
    intro r _
    rw [refusedOf, ite_self, passed_nil]
    rfl
  | cons key rest ih =>
    intro r hgiven
    obtain ⟨hkey, hgiven⟩ := List.forall_mem_cons.mp hgiven
    obtain ⟨v, hget⟩ := Record.exists_get?_of_mem hkey
    rw [visitExcesses, hget]
    simp only
    rw [outcome_bind_of_ok (outcome_visitExcess E hrule hget r), outcome_bind_of_ok (ih hgiven), passed_cons _ _ key rest,
      Record.insertAll, Record.insertAll, Record.insertAll, List.foldl_append]
    by_cases hreject : state.context.options.excessPolicy = .reject <;> simp [refusedOf, hreject]

end Schema

end Conform

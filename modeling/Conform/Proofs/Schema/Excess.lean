import Conform.Proofs.Coupling.Exact
import Conform.Proofs.Parse.Collected
import Conform.Proofs.Rule.Meaning
import Conform.Proofs.Schema.Gathered

/-! Keys of no field. Each key of an input that leads to no field has one fate, by the policy on such keys: it is kept
    behind the fields, passed over, or refused together with all others. The policy has no part in anything else: where
    no rule names an entity, a run under another policy goes through the same steps up to the keys of no field. -/

namespace Conform

open Parse

/-! ### A single failure -/

namespace Parse

variable {α : Type} {p k : Parse α} {state : ParseState} {o : Options} {calls : Calls} {g : Failure}

theorem records_collect_of_room (hsingle : g.flatten = [g]) (hroom : state.context.Room 1) :
    ∃ t, Records (collect g) state () [g] t := by
  refine ⟨⟨{ state.context with failures := state.context.failures ++ g.flatten }, state.calls⟩, ?_, ⟨rfl, rfl, rfl⟩, ?_⟩
  · rw [collect, outcome_ofContext, Context.collect_of_room (by rw [hsingle, List.length_singleton]) hroom]
  · rw [hsingle]

/-- The first failure is raised where there is no room for it, in a report where failures are collected. -/
theorem outcome_collect_of_no_room (hsingle : g.flatten = [g]) (hclean : state.context.failures = [])
    (hroom : ¬ state.context.Room 1) : ∃ t, t.context.failures = [] ∧
      (collect g).outcome state = (.error (if state.context.options.collects then .aggregate [g] else g), t) := by
  rw [collect, outcome_ofContext]
  cases hcollects : state.context.options.collects with
  | false =>
    have hraised : state.context.collect g = (.error g, state.context) := by simp [Context.collect, hcollects]
    exact ⟨state, hclean, by rw [hraised]; rfl⟩
  | true =>
    have hfull : state.context.options.maxErrors.any (· ≤ 1) = true := by
      by_contra hmost
      refine hroom (.inr ⟨hcollects, fun most h => ?_⟩)
      rw [Option.mem_def.mp h, Option.any_some, decide_eq_true_eq] at hmost
      simpa [hclean] using hmost
    have hraised : state.context.collect g = (.error (.aggregate [g]), { state.context with failures := [] }) := by
      simp [Context.collect, hcollects, hclean, hsingle, hfull, Context.raise, Failure.together, Failure.flattenAll]
    exact ⟨⟨{ state.context with failures := [] }, state.calls⟩, rfl, by rw [hraised]; rfl⟩

/-- A failure of its own that is the one thing a run collects is what comes of it: alone, or the only one of a report. -/
theorem atRoot_concluded_of_collect (hsingle : g.flatten = [g])
    (hp : p.outcome ⟨.root o, calls⟩ = (collect g >>= fun _ => k).outcome state)
    (hplace : (Context.root o).At state.context) (hclean : state.context.failures = [])
    (hk : ∀ u : ParseState, u.context.options = o → ∃ a t, Records k u a [] t) :
    (atRoot o calls p.concluded).1 = .error (if o.collects then .aggregate [g] else g) := by
  obtain rfl : o = state.context.options := hplace.options
  by_cases hroom : state.context.Room 1
  -- The failure is recorded, and nothing comes to it.
  · have hcollects : state.context.options.collects = true := (hroom.resolve_left Nat.one_ne_zero).1
    obtain ⟨u, hcollect⟩ := records_collect_of_room hsingle hroom
    obtain ⟨a, t, hrest⟩ := hk u hcollect.place.options.symm
    have hrun := (hcollect.bind hrest).of_outcome hp hplace hclean
    have hreport : Failure.flattenAll [g] = [g] := by simp [Failure.flattenAll, hsingle]
    rw [atRoot_concluded_of_records hrun, List.append_nil, if_neg (List.cons_ne_nil g []), Failure.together, hreport,
      if_pos hcollects]
  · obtain ⟨t, hlast, hcollect⟩ := outcome_collect_of_no_room hsingle hclean hroom
    exact atRoot_concluded_of_error (hp.trans (outcome_bind_of_error hcollect)) hlast

end Parse

/-! ### Rules without entities -/

/-- A rule that names no entity, and nor do the rules inside. -/
inductive Rule.EntityFree : Rule → Prop
  | mk {l : Layer Rule} (origin : ∀ t ∈ l.origin, t.namesEntity = false) (args : ∀ r ∈ l.args, EntityFree r)
      (contained : ∀ c ∈ l.constraints, ∀ r, c.operand = .rule r → EntityFree r)
      (branches : ∀ logic, l.logic = some logic → ∀ r ∈ logic.branches, EntityFree r) : EntityFree (.mk l)

/-- A field none of whose rules names an entity. -/
structure Field.EntityFree (f : Field) : Prop where
  rule : f.rule.EntityFree
  selected : ∀ d ∈ f.discriminator, ∀ e ∈ d.mapping, e.2.EntityFree

theorem Rule.entityFree_of {t : Target} (h : t.namesEntity = false) : (Rule.of t).EntityFree :=
  .mk (fun _ ht => Option.mem_some_iff.mp ht ▸ h) (List.forall_mem_nil _) (fun c hc => by cases hc) fun logic h => by cases h

theorem Reading.ofLayer_congr {E F : Entities} {l : Layer Reading} (h : ∀ t ∈ l.origin, E t = F t) :
    ofLayer E l = ofLayer F l := by
  have horigin : l.origin.elim pure (ofOrigin E) = l.origin.elim pure (ofOrigin F) := by
    cases hl : l.origin with
    | none => rfl
    | some t =>
      funext v
      simp only [Option.elim, ofOrigin, h t hl]
  have hread : readLayer E l = readLayer F l := by
    funext v
    rw [Coupling.readLayer_eq, Coupling.readLayer_eq, horigin]
  rw [ofLayer, ofLayer, hread]

/-- A rule that names no entity is read the same, whatever is known of the entities. -/
theorem Rule.EntityFree.reading_eq {E F : Entities} (hE : ∀ t : Target, t.namesEntity = false → E t = F t) {r : Rule}
    (h : r.EntityFree) : r.reading E = r.reading F := by
  refine Rule.induction (P := fun r => r.EntityFree → r.reading E = r.reading F) (fun l ih h => ?_) r h
  obtain ⟨horigin, hargs, hcontained, hbranches⟩ := h
  have hparts : l.map (Rule.reading E) = l.map (Rule.reading F) := by
    refine Layer.All.map_eq ⟨fun r hr => ih.args r hr (hargs r hr), fun c hc r hr => ?_, fun logic hlogic r hr => ?_⟩
    · exact ih.constraints c hc r hr (hcontained c hc r hr)
    · exact ih.branches logic hlogic r hr (hbranches logic hlogic r hr)
  rw [reading, fold_mk, reading, fold_mk]
  change Reading.ofLayer E (l.map (Rule.reading E)) = Reading.ofLayer F (l.map (Rule.reading F))
  rw [hparts]
  exact Reading.ofLayer_congr fun t ht => hE t (horigin t ht)

theorem Field.EntityFree.ruleFor {f : Field} (h : f.EntityFree) (siblings : Record) : (f.ruleFor siblings).EntityFree := by
  unfold Field.ruleFor
  cases hd : f.discriminator with
  | none => exact h.rule
  | some d =>
    cases hv : siblings.get? d.field with
    | none =>
      simp only [Option.bind_eq_bind, Option.bind_some, hv]
      exact h.rule
    | some v =>
      simp only [Option.bind_eq_bind, Option.bind_some, hv, Discriminator.select?]
      cases hfound : d.mapping.find? _ with
      | none => exact h.rule
      | some e => exact h.selected d hd e (List.mem_of_find?_eq_some hfound)

namespace Schema

variable {s : Schema} {E F : Entities} {pass : Pass} {f : Field} {v : Value} {o : Options} {r : Resolved} {waiting : Waiting}
  {input : Record} {hits : List String} {m : Matches} {values extras : Record} {supplied : List String}
  {state state' t : ParseState}

/-! ### Fields without entities -/

section EntityFree

variable (hE : ∀ t : Target, t.namesEntity = false → E t = F t)

include hE

theorem readField_of_entityFree (hf : f.EntityFree) (v : Value) (r : Resolved) :
    readField E pass f v r = readField F pass f v r := by
  unfold readField Field.parseValue
  rw [(hf.ruleFor r.values).reading_eq hE]

theorem visitField_of_entityFree (hf : f.EntityFree) (r : Resolved) (waiting : Waiting) :
    visitField E pass input hits f r waiting = visitField F pass input hits f r waiting := by
  unfold visitField visitGiven
  simp only [readField_of_entityFree hE hf]

theorem visitFields_of_entityFree (fields : List Field) : (∀ f ∈ fields, f.EntityFree) → ∀ (r : Resolved) (waiting : Waiting),
    visitFields E pass input m fields r waiting = visitFields F pass input m fields r waiting := by
  induction fields with
  | nil => exact fun _ _ _ => rfl
  | cons f rest ih =>
    intro hfields r waiting
    obtain ⟨hf, hrest⟩ := List.forall_mem_cons.mp hfields
    unfold visitFields
    rw [visitField_of_entityFree hE hf]
    exact bind_congr fun y => ih hrest y.1 y.2

theorem readWaiting_of_entityFree (waiting : Waiting) : (∀ e ∈ waiting, e.1.EntityFree) → ∀ r : Resolved,
    readWaiting E pass waiting r = readWaiting F pass waiting r := by
  induction waiting with
  | nil => exact fun _ _ => rfl
  | cons e rest ih =>
    intro hwaiting r
    obtain ⟨he, hrest⟩ := List.forall_mem_cons.mp hwaiting
    unfold readWaiting
    rw [readField_of_entityFree hE he]
    exact bind_congr fun q => ih hrest q

end EntityFree

/-! ### The entries of no field -/

/-- The entries of a record whose keys lead to no field, as they come in. -/
def foreign (s : Schema) (r : Record) : Record := r.filter fun e => ∀ f ∈ s.fields, ¬ Claims s.options f e.1

theorem Compiled.names_foreign (h : s.Compiled) {r : Record} (hr : r.names.Nodup) (o : Options) :
    (s.matchKeys o r.names).excess = (s.foreign r).names := by
  rw [h.excess_unclaimed hr, Record.names, List.filter_map]
  rfl

theorem nodup_names_foreign (s : Schema) {r : Record} (hr : r.names.Nodup) : (s.foreign r).names.Nodup :=
  hr.sublist (List.filter_sublist.map Prod.fst)

/-- What is kept of those entries, where no rule reads their values: all of them, or nothing. -/
def keptForeign (s : Schema) (o : Options) (r : Record) : Record := if o.excessPolicy = .preserve then s.foreign r else []

theorem nodup_names_keptForeign (s : Schema) (o : Options) {r : Record} (hr : r.names.Nodup) :
    (s.keptForeign o r).names.Nodup := by
  unfold keptForeign
  split
  · exact nodup_names_foreign s hr
  · exact List.nodup_nil

theorem passed_foreign (s : Schema) (o : Options) {r : Record} (hr : r.names.Nodup) :
    passed o r (s.foreign r).names = s.keptForeign o r := by
  unfold keptForeign
  split
  · next hpolicy =>
    refine passed_again (.inl hpolicy) fun e he => ?_
    exact (Record.get?_eq_some_iff hr).mpr (List.mem_filter.mp he).1
  · next hpolicy =>
    unfold passed
    cases h : o.excessPolicy with
    | preserve => exact absurd h hpolicy
    | ignore | reject => rfl

theorem Compiled.outcome_foreign (h : s.Compiled) (E : Entities) (hinput : input.names.Nodup) (o : Options)
    (hrule : state.context.options.additionRule = none) (r : Resolved) :
    (visitExcesses E input (s.matchKeys o input.names).excess r).outcome state =
      (.ok (refusedOf state.context.options (s.foreign input).names,
        { r with extras := r.extras.insertAll (s.keptForeign state.context.options input) }), state) := by
  have hgiven : ∀ key ∈ (s.foreign input).names, key ∈ input.names :=
    (List.filter_sublist.map Prod.fst).subset
  rw [h.names_foreign hinput, outcome_visitExcesses E hrule _ hgiven, passed_foreign s _ hinput]

/-- An accepted reading keeps of the entries of no field what the policy keeps, and there is none to refuse. -/
theorem Compiled.extras_of_accepts (h : s.Compiled) (hE : Coupling.sound.AlikeEntities E E)
    (hclean : state.context.failures = []) (hrule : state.context.options.additionRule = none)
    (haccepts : Accepts (s.resolve E .full v) state r t) :
    r.extras = s.keptForeign state.context.options (givenRecord state.context.options v) ∧
      refusedOf state.context.options (s.foreign (givenRecord state.context.options v)).names = [] := by
  obtain ⟨x, u, q, u', hplace, hplace', hvisit, hread, hexcess⟩ := parts_of_accepts hE hclean haccepts
  have hnodup := (names_givenRecord state.context.options v).1
  obtain ⟨⟨hextends, -⟩, -⟩ :=
    present_of_visitFields hE s.fields hclean (h.given_of_matchKeys hnodup state.context.options).1 hvisit
  obtain ⟨hextends', -⟩ := present_of_readWaiting hE x.2 hvisit.2 hread
  have hnone : q.extras = [] := hextends'.extras.trans hextends.extras
  have hoptions : u'.context.options = state.context.options := by rw [← hplace'.options, ← hplace.options]
  have hvisited := h.outcome_foreign E hnodup state.context.options (hoptions ▸ hrule) q
  rw [hoptions] at hvisited
  obtain ⟨⟨hrefused, rfl⟩, -⟩ : ([] = _ ∧ r = _) ∧ t = u' := by simpa using hexcess.1.symm.trans hvisited
  refine ⟨?_, hrefused.symm⟩
  rw [hnone]
  exact Record.insertAll_of_disjoint (r := []) _ (nodup_names_keptForeign s _ hnodup) fun _ _ => List.not_mem_nil

/-- A record in the order of declaration, of declared names alone, skips names at most. -/
theorem names_arranged_sublist {order : List String} (horder : order.Nodup) (hvalues : values.names.Nodup)
    (hdeclared : ∀ name ∈ values.names, name ∈ order) : (values.arranged order).names.Sublist order := by
  obtain ⟨own, hown, harranged⟩ := exists_arranged_eq horder hvalues
  have hnone : values.filter (fun e => !order.contains e.1) = [] :=
    List.filter_eq_nil_iff.mpr fun e he => by simpa using hdeclared e.1 (List.mem_map_of_mem he)
  rw [harranged, hnone, List.append_nil, hown]
  exact List.filter_sublist

/-- An accepted record has values of fields in the order of declaration, and behind them what is kept of the entries of
    no field, none of which is refused. -/
theorem Compiled.eq_append_of_accepts (h : s.Compiled) (hE : Coupling.sound.AlikeEntities E E)
    (hclean : state.context.failures = []) (hrule : state.context.options.additionRule = none) {record : Record}
    (haccepts : Accepts (s.readRecord E v) state record t) :
    ∃ own : Record, own.names.Sublist (s.fields.map Field.name) ∧
      record = own ++ s.keptForeign state.context.options (givenRecord state.context.options v) ∧
      refusedOf state.context.options (s.foreign (givenRecord state.context.options v)).names = [] := by
  obtain ⟨r, u, hresolve, -, hfinalize⟩ := stages_of_accepts hE hclean haccepts
  obtain ⟨hextras, hrefused⟩ := h.extras_of_accepts hE hclean hrule hresolve
  have hwithin : r.Within {name | name ∈ s.fields.map Field.name} (s.unclaimed (givenKeys state.context.options v)) := by
    refine h.within_of_pass (fun _ f hf => List.mem_map_of_mem hf) ?_ hresolve.1
    rintro name ⟨f, hf, rfl, -⟩
    exact List.mem_map_of_mem hf
  have hsettled : (s.settled r.values).names.Nodup := nodup_names_rounds s _ hwithin.nodup
  have hown : (s.arranged (s.settled r.values)).names.Sublist (s.fields.map Field.name) :=
    names_arranged_sublist h.nodup_names hsettled fun name hname => hwithin.values name (mem_names_of_rounds hname)
  obtain rfl := outcome_of_yields (h.yields_finalize _ _ _) hfinalize.1
  refine ⟨_, hown, ?_, hrefused⟩
  rw [← hextras]
  refine Record.insertAll_of_disjoint _ hwithin.nodup_extras fun name hname hmem => ?_
  -- What has the name of a field leads to it, so it is not kept beside the fields.
  obtain ⟨f, hf, rfl⟩ := List.mem_map.mp (hown.subset hmem)
  exact (hwithin.extras f.name hname).2 f hf (.inl (name_mem_keysOf s.options f))

/-! ### Runs under another policy -/

/-- What one run accepts, a run in step with it accepts as well. -/
theorem exists_accepts_of_inStep {A : Options.Erasure} {α β : Type} {R : α → β → Prop} {p : Parse α} {q : Parse β} {a : α}
    {state state' t : ParseState} (h : (Coupling.inStep (.erased A)).Rel R p q) (hstep : state.InStep (.erased A) state')
    (haccepts : Accepts p state a t) : ∃ b t', Accepts q state' b t' ∧ R a b ∧ t.InStep (.erased A) t' := by
  have hpq := h state state' hstep
  rw [haccepts.1] at hpq
  generalize hq : q.outcome state' = y at hpq
  cases hpq with
  | ok hab hleft => exact ⟨_, _, ⟨hq, hleft.context.failures ▸ haccepts.2⟩, hab, hleft⟩

theorem matchKeys_of_withoutAddition (s : Schema) {o p : Options} (h : o.withoutAddition = p.withoutAddition)
    (keys : List String) : s.matchKeys o keys = s.matchKeys p keys :=
  s.matchKeys_congr (show o.withoutAddition.dataFirstSearch = p.withoutAddition.dataFirstSearch by rw [h]) keys

/-- Fields without entities are read in step under another policy. -/
theorem exists_fields_in_step (hE : ∀ t : Target, t.namesEntity = false → E t = .plain)
    (hF : ∀ t : Target, t.namesEntity = false → F t = .plain) (hfields : ∀ f ∈ s.fields, f.EntityFree)
    (hstep : state.InStep .addition state') (hclean : state.context.failures = []) {x : Resolved × Waiting} {q : Resolved}
    {u t : ParseState}
    (hvisit : Accepts (visitFields E .full input m s.fields ⟨[], [], []⟩ []) state x u)
    (hread : Accepts (readWaiting E .full x.2 x.1) u q t) :
    ∃ u' t', Accepts (visitFields F .full input m s.fields ⟨[], [], []⟩ []) state' x u' ∧
      Accepts (readWaiting F .full x.2 x.1) u' q t' ∧ state'.context.At t'.context ∧ t.InStep .addition t' := by
  let plain : Entities := fun _ => .plain
  have halike : (Coupling.inStep .addition).AlikeEntities plain plain := fun _ => .plain
  have hwaiting : ∀ e ∈ x.2, e.1.EntityFree := by
    intro e he
    rw [(visited_of_visitFields s.fields hvisit.1).2.1, List.nil_append] at he
    obtain ⟨f, hf, hawaits⟩ := List.mem_filterMap.mp he
    exact Field.eq_of_awaits? hawaits ▸ hfields f hf
  rw [visitFields_of_entityFree hE s.fields hfields] at hvisit
  rw [readWaiting_of_entityFree hE x.2 hwaiting] at hread
  have hvisits := Coupling.rel_visitFields halike .full input (fun _ => rfl : ∀ name, m.of name = m.of name) s.fields
    (fun _ _ _ _ => trivial) ⟨[], [], []⟩ [] (List.forall_mem_nil _)
  obtain ⟨y, u', hvisit', ⟨rfl, hsteady⟩, hstep'⟩ := exists_accepts_of_inStep hvisits hstep hvisit
  have hreads := Coupling.rel_readWaiting halike .full x.2 hsteady x.1
  obtain ⟨_, t', hread', rfl, hstep''⟩ := exists_accepts_of_inStep hreads hstep' hread
  have hclean : state'.context.failures = [] := hstep.context.failures.symm.trans hclean
  have hplace := ((sound_visitFields (fun _ => .plain) .full input m s.fields _ []).at hclean hvisit').trans
    ((sound_readWaiting (fun _ => .plain) .full x.2 x.1).at hvisit'.2 hread')
  rw [← visitFields_of_entityFree hF s.fields hfields] at hvisit'
  rw [← readWaiting_of_entityFree hF x.2 hwaiting] at hread'
  exact ⟨u', t', hvisit', hread', hplace, hstep''⟩

/-! ### Passes over dependencies -/

theorem records_reportBroken (values : Record) (hkept : missed supplied state.context.options f = false) :
    ∃ t, Records (reportBroken supplied values f) state () [] t := by
  unfold reportBroken
  by_cases hsupplied : supplied.contains f.name = true
  · rw [if_pos hsupplied]
    cases hpolicy : f.policy state.context.options with
    | throw =>
      rw [missed, hsupplied, hpolicy] at hkept
      cases hkept
    | exclude | preserve =>
      obtain ⟨t, hwarn⟩ := records_of_passes (passes_warn _) state
      refine ⟨t, records_options_bind ?_⟩
      rw [hpolicy]
      exact hwarn
  · rw [if_neg hsupplied]
    exact ⟨state, records_pure () state⟩

theorem records_reportAll (values : Record) (fields : List Field) : ∀ {state : ParseState},
    fields.countP (missed supplied state.context.options) = 0 →
    ∃ t, Records (reportAll supplied values fields) state () [] t := by
  induction fields with
  | nil => exact fun _ => ⟨_, records_pure () _⟩
  | cons f rest ih =>
    intro state hkept
    obtain ⟨hf, hrest⟩ := List.forall_mem_cons.mp (List.countP_eq_zero.mp hkept)
    obtain ⟨t, hfirst⟩ := records_reportBroken values ((Bool.not_eq_true _).mp hf)
    obtain ⟨u, hothers⟩ := ih (hfirst.place.options ▸ List.countP_eq_zero.mpr hrest)
    exact ⟨u, hfirst.bind hothers⟩

theorem Compiled.records_dropBroken (h : s.Compiled) (supplied : List String) (n : Nat) : ∀ {values : Record}
    {state : ParseState}, s.losses supplied values (s.round^[n] values) state.context.options = 0 →
    ∃ t, Records (s.dropBroken supplied n values) state (s.round^[n] values) [] t := by
  induction n with
  | zero => exact fun _ => ⟨_, records_pure _ _⟩
  | succ n ih =>
    intro values state hkept
    unfold dropBroken
    by_cases hwhole : s.brokenFields values = []
    · rw [rounds_of_whole hwhole, hwhole]
      exact ⟨state, records_pure values state⟩
    · rw [h.losses_round, Nat.add_eq_zero_iff] at hkept
      obtain ⟨t, hreport⟩ := records_reportAll values _ hkept.1
      obtain ⟨u, hrounds⟩ := ih (hreport.place.options ▸ hkept.2)
      simp only [List.isEmpty_iff, if_neg hwhole]
      exact ⟨u, hreport.bind hrounds⟩

/-- A pass that drops no field that is missed records nothing. -/
theorem Compiled.records_finalize (h : s.Compiled) {values : Record} (extras : Record)
    (hkept : s.losses supplied values (s.settled values) state.context.options = 0) :
    ∃ record t, Records (s.finalize values supplied extras) state record [] t := by
  obtain ⟨t, hdrop⟩ := h.records_dropBroken supplied _ hkept
  exact ⟨_, t, hdrop.map fun kept => (s.arranged kept).insertAll extras⟩

/-- Where keys of no field are refused, a reading of the fields of an input that has such keys comes to collecting that. -/
theorem Compiled.outcome_resolve_of_reject (h : s.Compiled) {entries : List (Value × Value)} {x : Resolved × Waiting}
    {q : Resolved} {u : ParseState} (hrule : state.context.options.additionRule = none)
    (hreject : state.context.options.excessPolicy = .reject) (hforeign : s.foreign (Record.ofEntries entries) ≠ [])
    (hvisit : Accepts (visitFields E .full (Record.ofEntries entries)
      (s.matchKeys state.context.options (Record.ofEntries entries).names) s.fields ⟨[], [], []⟩ []) state x u)
    (hread : Accepts (readWaiting E .full x.2 x.1) u q t) (hplace : state.context.At t.context) :
    (s.resolve E .full (.map entries)).outcome state =
      (collect (.excess state.context.route (s.foreign (Record.ofEntries entries)).names) >>= fun _ => pure q).outcome t := by
  have hnodup := Record.nodup_names_ofEntries entries
  have hmap : state.context.options.convert (.map entries) .map = .ok (.map entries) := convert_map _ entries
  have hrefused := h.outcome_foreign E hnodup state.context.options (hplace.options ▸ hrule) q
  rw [refusedOf, keptForeign, ← hplace.options, hreject, if_pos rfl, if_neg (by decide)] at hrefused
  have hsome : (s.foreign (Record.ofEntries entries)).names.isEmpty = false := by simpa [Record.names] using hforeign
  rw [resolve, outcome_bind_of_ok (outcome_inputRecord hmap), givenRecord_map, outcome_bind_of_ok (outcome_options state),
    outcome_bind_of_ok hvisit.1, outcome_bind_of_ok hread.1, outcome_bind_of_ok hrefused, hplace.route]
  simp only [hsome]
  rfl

/-- An input that is accepted where the keys of no field are passed over, and that has such keys, comes under a policy that
    refuses them to collecting that one failure, and to nothing else before and behind it. -/
theorem Compiled.exists_collect_of_accepts (h : s.Compiled) (hsound : Coupling.sound.AlikeEntities E E)
    (hE : ∀ t : Target, t.namesEntity = false → E t = .plain) (hF : ∀ t : Target, t.namesEntity = false → F t = .plain)
    (hfields : ∀ f ∈ s.fields, f.EntityFree) (hstep : state.InStep .addition state') (hclean : state.context.failures = [])
    (hrule : state.context.options.additionRule = none) (hignore : state.context.options.excessPolicy = .ignore)
    (hreject : state'.context.options.excessPolicy = .reject) {entries : List (Value × Value)}
    (hforeign : s.foreign (Record.ofEntries entries) ≠ []) {record : Record}
    (haccepts : Accepts (s.readRecord E (.map entries)) state record t) :
    ∃ (r : Resolved) (u : ParseState), state'.context.At u.context ∧ u.context.failures = [] ∧
      s.losses r.supplied r.values (s.settled r.values) state'.context.options = 0 ∧
      (s.readRecord F (.map entries)).outcome state' =
        (collect (.excess state'.context.route (s.foreign (Record.ofEntries entries)).names) >>= fun _ =>
          s.finalize r.values r.supplied r.extras).outcome u := by
  obtain ⟨r, u, hresolve, hplace, hfinalize⟩ := stages_of_accepts hsound hclean haccepts
  obtain ⟨x, u₁, q, u₂, hplace₁, hplace₂, hvisit, hread, hexcess⟩ := parts_of_accepts hsound hclean hresolve
  have hsame : state.context.options.withoutAddition = state'.context.options.withoutAddition := hstep.context.options
  rw [givenRecord_map, s.matchKeys_of_withoutAddition hsame] at hvisit hexcess
  obtain ⟨u', t', hvisit', hread', hplace', hstep'⟩ := exists_fields_in_step hE hF hfields hstep hclean hvisit hread
  have hnodup := Record.nodup_names_ofEntries entries
  have hoptions : u₂.context.options = state.context.options := by rw [← hplace₂.options, ← hplace₁.options]
  have hignored := h.outcome_foreign E hnodup state'.context.options (hoptions ▸ hrule) q
  rw [keptForeign, hoptions, hignore, if_neg (by decide)] at hignored
  -- Where keys of no field are passed over, a reading gives what was read of the fields.
  obtain rfl : r = q := congrArg Prod.snd (Except.ok.inj (congrArg Prod.fst (hexcess.1.symm.trans hignored)))
  have hrule' : state'.context.options.additionRule = none := (congrArg Options.additionRule hsame).symm.trans hrule
  have hresolve' := h.outcome_resolve_of_reject hrule' hreject hforeign hvisit' hread' hplace'
  have hlosses := h.losses_of_accepts hresolve.2 hfinalize
  refine ⟨r, t', hplace', hread'.2, ?_, ?_⟩
  · rw [← hlosses, ← hplace.options]
    exact (Options.eq_of_core (fun o => s.losses r.supplied r.values (s.settled r.values) o) (fun _ => rfl)
      (Options.core_of_withoutAddition hsame)).symm
  · rw [readRecord, outcome_bind, hresolve', ← outcome_bind, bind_assoc]
    simp only [pure_bind]

end Schema

namespace Catalog

/-- Of an input that is parsed, where no rule reads the values of other keys, the entries that lead to no field have one
    fate: behind the values of the fields in the order of declaration they are all there as they came in, or all gone, or
    there were none. Where no field names an entity, an input that has some and is parsed where they are passed over fails
    where they are refused, for that reason alone. -/
theorem parse_of_foreign {c : Catalog} {s : Schema} (hs : s.Compiled) {o : Options}
    (hrule : (s.options.merge o).additionRule = none) (entries : List (Value × Value)) (calls : Calls) :
    let foreign := s.foreign (Record.ofEntries entries)
    (∀ values ws, (c.parse s (.map entries) o calls).1 = .ok (values, ws) →
      ∃ own : Record, own.names.Sublist (s.fields.map Field.name) ∧
        ((s.options.merge o).excessPolicy = .preserve → values = own ++ foreign) ∧
        ((s.options.merge o).excessPolicy = .ignore → values = own) ∧
        ((s.options.merge o).excessPolicy = .reject → values = own ∧ foreign = [])) ∧
      ((∀ f ∈ s.fields, f.EntityFree) → ∀ o' : Options, o.withoutAddition = o'.withoutAddition →
        (s.options.merge o).excessPolicy = .ignore → (s.options.merge o').excessPolicy = .reject → foreign ≠ [] →
        (∃ x, (c.parse s (.map entries) o calls).1 = .ok x) →
        (c.parse s (.map entries) o' calls).1 = .error (if (s.options.merge o').collects
          then .aggregate [.excess [] foreign.names] else .excess [] foreign.names)) := by
  intro foreign
  refine ⟨fun values ws hok => ?_, fun hfields o' hsame hignore hreject hforeign ⟨x, hok⟩ => ?_⟩
  · obtain ⟨t, haccepts, -⟩ := parse_eq_ok_iff.mp hok
    obtain ⟨own, hown, hvalues, hrefused⟩ := hs.eq_append_of_accepts (Coupling.alike_sound c _) rfl hrule haccepts
    rw [Schema.givenRecord_map] at hvalues hrefused
    have hvalues : values = own ++ if (s.options.merge o).excessPolicy = .preserve then foreign else [] := hvalues
    have hrefused : Schema.refusedOf (s.options.merge o) foreign.names = [] := hrefused
    refine ⟨own, hown, fun hpolicy => ?_, fun hpolicy => ?_, fun hpolicy => ?_⟩
    · rw [hvalues, if_pos hpolicy]
    · rw [hvalues, if_neg (by simp [hpolicy]), List.append_nil]
    · rw [hvalues, if_neg (by simp [hpolicy]), List.append_nil]
      rw [Schema.refusedOf, if_pos hpolicy] at hrefused
      exact ⟨rfl, List.map_eq_nil_iff.mp hrefused⟩
  · obtain ⟨t, haccepts, -⟩ := parse_eq_ok_iff.mp hok
    have hmerge : (s.options.merge o).withoutAddition = (s.options.merge o').withoutAddition :=
      Options.merge_right_withoutAddition_congr s.options hsame
    have hstep : ParseState.InStep .addition ⟨.root (s.options.merge o), calls⟩ ⟨.root (s.options.merge o'), calls⟩ :=
      ⟨⟨⟨hmerge, rfl, rfl⟩, rfl, rfl⟩, rfl⟩
    obtain ⟨r, u, hplace, hclean, hkept, hrun⟩ := hs.exists_collect_of_accepts (Coupling.alike_sound c _)
      (c.entities_eq_plain _) (c.entities_eq_plain (s.options.merge o')) hfields hstep rfl hrule hignore hreject hforeign
      haccepts
    have hread := Parse.outcome_bind_of_ok (k := fun p => s.readRecord (c.entities p) (.map entries))
      (Parse.outcome_options ⟨.root (s.options.merge o'), calls⟩)
    refine Parse.atRoot_concluded_of_collect rfl (hread.trans hrun) hplace hclean fun u' hu' => ?_
    exact hs.records_finalize r.extras (hu'.symm ▸ hkept)

/-- Two entries that lead to no field, around one that does: kept in their order, passed over, and refused. -/
theorem parse_point_of_foreign :
    let x : Field := { name := "x", rule := .of .int }
    let point : Schema := ⟨"Point", [x], { dataFirstSearch := some false }⟩
    let entries : List (Value × Value) := [(.str "z", .null), (.str "x", .str "1"), (.str "w", .bool true)]
    let run (o : Options) := (parse { schemas := [point] } point (.map entries) o Calls.none).1
    point.Compiled ∧ point.foreign (Record.ofEntries entries) = [("z", .null), ("w", .bool true)] ∧
      (∀ f ∈ point.fields, f.EntityFree) ∧
      (∃ (values : Record) (ws : List Warning) (own : Record), run { addition := some .preserve } = .ok (values, ws) ∧
        own.names.Sublist ["x"] ∧ values = own ++ [("z", .null), ("w", .bool true)]) ∧
      (∃ values ws, run {} = .ok (values, ws) ∧ values.names.Sublist ["x"]) ∧
      run { addition := some .reject } = .error (.excess [] ["z", "w"]) := by
  intro x point entries run
  have hpoint : point.Compiled := ⟨point.name, point.fields, point.options, rfl⟩
  have hx : ∀ f ∈ point.fields, f.EntityFree := by
    refine List.forall_mem_singleton.mpr ⟨Rule.entityFree_of rfl, fun d hd => ?_⟩
    cases hd
  obtain ⟨⟨values, ws⟩, hok⟩ : ∃ x, run { addition := some .preserve } = .ok x := Parse.exists_of_isOk (by decide +kernel)
  obtain ⟨⟨values', ws'⟩, hok'⟩ : ∃ x, run {} = .ok x := Parse.exists_of_isOk (by decide +kernel)
  have hkept := (parse_of_foreign (c := { schemas := [point] }) (o := { addition := some .preserve }) hpoint rfl entries
    Calls.none).1 values ws hok
  obtain ⟨hgone, hrefused⟩ := parse_of_foreign (c := { schemas := [point] }) (o := {}) hpoint rfl entries Calls.none
  obtain ⟨own, hown, hpreserve, -⟩ := hkept
  obtain ⟨own', hown', -, hignore, -⟩ := hgone values' ws' hok'
  refine ⟨hpoint, rfl, hx, ⟨values, ws, own, hok, hown, hpreserve rfl⟩, ⟨values', ws', hok', ?_⟩, ?_⟩
  · rw [hignore rfl]
    exact hown'
  · exact hrefused hx { addition := some .reject } rfl rfl rfl (List.cons_ne_nil _ _) ⟨_, hok'⟩

end Catalog

end Conform

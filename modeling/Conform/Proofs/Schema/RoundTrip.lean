import Conform.Proofs.Rule.Idempotent
import Conform.Proofs.Schema.Gathered

/-! Records that are given out and read again. What a record is given out as fits the same description as the input that
    it was read from: a field stands under a key that leads back to it alone, and a key of no field under itself.
    So it is read as the same record, if its values are read again as they are. -/

namespace Conform

open Parse

namespace Schema

variable {s : Schema} {E : Entities} {f : Field} {v w : Value} {o : Options} {c : Context} {input : Record}
  {state t : ParseState} {values extras : Record}

/-! ### What a record is read from -/

/-- What may be said of a schema whose records are given out as they were read. -/
structure Mirrored (s : Schema) (E : Entities) (c : Context) : Prop where
  aliases : c.options.aliasTo = s.options.aliasFrom
  rule : c.options.additionRule = none
  excess : c.options.excessPolicy ≠ .reject
  plain : ∀ f ∈ s.fields, f.Plain c.options
  idempotent : ∀ f ∈ s.fields, ∀ v w calls, Reads E c calls f v w → ∀ calls', Reads E c calls' f w w

/-- A record as it is read from an input: the values of the fields in their order, none of which lacks a dependency, and
    then the values under keys of no field. -/
structure Described (s : Schema) (R : Field → Value → Value → Prop) (o : Options) (input values extras : Record) :
    Prop where
  gathered : Gathered R o input (s.matchKeys o input.names) s.fields values
  whole : s.brokenFields values = []
  nodup : extras.names.Nodup
  foreign : ∀ name ∈ extras.names, s.owner name = none
  extras : extras = passed o input (s.matchKeys o input.names).excess

/-- No field is broken that is missed if it is, if the pass is accepted. -/
theorem Compiled.whole_of_finalize (h : s.Compiled) {kept : Record} {supplied : List String}
    (hclean : state.context.failures = []) (haccepts : Accepts (s.finalize values supplied extras) state kept t)
    (hmissed : ∀ f ∈ s.fields, f.name ∈ values.names → missed supplied state.context.options f = true) :
    s.brokenFields values = [] := by
  refine List.eq_nil_iff_forall_not_mem.mpr fun f hbroken => ?_
  obtain ⟨hf, hname, -⟩ := mem_brokenFields.mp hbroken
  have hsettled := h.mem_settled_of_missed hclean haccepts hf hname (hmissed f hf hname)
  rw [settled, Function.iterate_succ_apply] at hsettled
  exact (Schema.mem_names_round.mp (mem_names_of_rounds hsettled)).2 ⟨f, hbroken, rfl⟩

/-- Where no field is broken, values in the order of declaration stay as they are. -/
theorem Compiled.finalized_of_whole (h : s.Compiled) (hwhole : s.brokenFields values = [])
    (horder : values.names.Sublist (s.fields.map Field.name)) (hextras : extras.names.Nodup)
    (hforeign : ∀ name ∈ extras.names, name ∉ values.names) :
    (s.arranged (s.settled values)).insertAll extras = values ++ extras := by
  have harranged : s.arranged values = values := by
    refine List.mergeSort_of_pairwise ?_
    have hsorted := (pairwise_idxOf h.nodup_names).sublist horder
    exact (List.pairwise_map.mp hsorted).imp fun hab => decide_eq_true hab
  rw [settled, rounds_of_whole hwhole, harranged, Record.insertAll_of_disjoint extras hextras hforeign]

/-- A record that lacks no dependency and is in order is accepted as it is, the keys of no field behind it. -/
theorem Compiled.accepts_finalize (h : s.Compiled) {supplied : List String} (hwhole : s.brokenFields values = [])
    (horder : values.names.Sublist (s.fields.map Field.name)) (hextras : extras.names.Nodup)
    (hforeign : ∀ name ∈ extras.names, name ∉ values.names) (hclean : state.context.failures = []) :
    ∃ t, Accepts (s.finalize values supplied extras) state (values ++ extras) t := by
  have hsettled : s.settled values = values := rounds_of_whole hwhole _
  obtain ⟨t, hok, -, hlength⟩ := (h.yields_finalize values supplied extras).ok state
    (by rw [hsettled, losses_self]; exact .inl rfl)
  rw [hsettled, losses_self, hclean, List.length_nil] at hlength
  rw [h.finalized_of_whole hwhole horder hextras hforeign] at hok
  exact ⟨t, hok, List.eq_nil_of_length_eq_zero hlength⟩

section Described

variable {R : Field → Value → Value → Prop} (h : s.Compiled)

include h

theorem Compiled.owner_of_described (hd : s.Described R o input values extras) {name : String} (hname : name ∈ values.names) :
    ∃ f ∈ s.fields, f.name = name ∧ s.owner name = some name := by
  obtain ⟨f, hf, rfl⟩ := List.mem_map.mp (hd.gathered.names_sublist.subset hname)
  exact ⟨f, hf, rfl, h.owner_of_mem_keysOf hf (name_mem_keysOf s.options f)⟩

theorem Compiled.foreign_of_described (hd : s.Described R o input values extras) :
    ∀ name ∈ extras.names, name ∉ values.names := by
  intro name hextra hname
  obtain ⟨f, -, -, howner⟩ := h.owner_of_described hd hname
  rw [hd.foreign name hextra] at howner
  cases howner

theorem Compiled.nodup_of_described (hd : s.Described R o input values extras) : (values ++ extras).names.Nodup := by
  rw [Record.names, List.map_append, List.nodup_append']
  exact ⟨h.nodup_names.sublist hd.gathered.names_sublist, hd.nodup,
    fun name hname hextra => h.foreign_of_described hd name hextra hname⟩

end Described

/-- An accepted reading by a mirrored schema is described by what it was read from. -/
theorem Compiled.described_of_accepts (h : s.Compiled) (hE : Coupling.sound.AlikeEntities E E) (hs : s.Mirrored E c)
    (hclean : state.context.failures = []) (hplace : c.At state.context) {record : Record}
    (haccepts : Accepts (s.readRecord E v) state record t) :
    ∃ values extras, record = values ++ extras ∧
      s.Described (fun f v w => ∃ calls, Reads E c calls f v w) c.options (givenRecord c.options v) values extras := by
  obtain ⟨r, u, hresolve, hplace', hfinalize⟩ := stages_of_accepts hE hclean haccepts
  obtain ⟨x, u₁, q, u₂, hplace₁, hplace₂, hvisit, hread, hexcess⟩ := parts_of_accepts hE hclean hresolve
  rw [← hplace.options] at hvisit hexcess
  have hnodup := (names_givenRecord c.options v).1
  obtain ⟨hfields, hexcesses⟩ := h.given_of_matchKeys hnodup c.options
  obtain ⟨values, hgathered, rfl⟩ := gathered_of_accepts hE s.fields hclean hplace hs.plain hfields h.nodup_names
    (fun f _ => List.not_mem_nil) hvisit
  -- No field waits, and no key is refused.
  obtain ⟨rfl, rfl⟩ := (accepts_pure hvisit.2).mp hread
  have hrule : u₂.context.options.additionRule = none := by rw [← hplace₁.options, ← hplace.options, hs.rule]
  have hkeys : (s.matchKeys c.options (givenRecord c.options v).names).excess.Nodup := by
    rw [h.excess_matchKeys hnodup]
    exact hnodup.filter _
  have hpassed : (visitExcesses E (givenRecord c.options v) _ (Resolved.more ⟨[], [], []⟩ values)).outcome u₂ = _ :=
    outcome_visitExcesses E hrule _ hexcesses
  have hdisjoint := hkeys.sublist (names_passed_sublist c.options (givenRecord c.options v) _)
  rw [← hplace₁.options, ← hplace.options, refusedOf, if_neg hs.excess,
    Record.insertAll_of_disjoint _ hdisjoint fun _ _ => List.not_mem_nil] at hpassed
  cases hpassed.symm.trans hexcess.1
  have hsupplied : ∀ f ∈ s.fields, f.name ∈ values.names →
      missed (Resolved.more ⟨[], [], []⟩ values).supplied u.context.options f = true := by
    intro f hf hname
    rw [missed, ← hplace'.options, ← hplace.options, (hs.plain f hf).policy]
    simp [Resolved.more, hname]
  have hwhole : s.brokenFields values = [] := h.whole_of_finalize hresolve.2 hfinalize hsupplied
  have hsublist := names_passed_sublist c.options (givenRecord c.options v) (s.matchKeys c.options (givenRecord c.options v).names).excess
  have hdescribed : s.Described (fun f v w => ∃ calls, Reads E c calls f v w) c.options (givenRecord c.options v) values
      (passed c.options (givenRecord c.options v) (s.matchKeys c.options (givenRecord c.options v).names).excess) := by
    refine ⟨hgathered, hwhole, hkeys.sublist hsublist, fun name hname => ?_, rfl⟩
    have hexcess := hsublist.subset hname
    rw [h.excess_matchKeys hnodup] at hexcess
    exact Option.isNone_iff_eq_none.mp (List.mem_filter.mp hexcess).2
  refine ⟨values, _, ?_, hdescribed⟩
  obtain rfl := outcome_of_yields (h.yields_finalize _ _ _) hfinalize.1
  have hfinalized := h.finalized_of_whole hwhole hgathered.names_sublist hdescribed.nodup (h.foreign_of_described hdescribed)
  exact hfinalized

/-- What a record is described by is what it is read from. -/
theorem Compiled.accepts_of_described (h : s.Compiled) (hs : s.Mirrored E c) (hclean : state.context.failures = [])
    (hplace : c.At state.context) {entries : List (Value × Value)}
    (hd : s.Described (fun f v w => ∀ calls, Reads E c calls f v w) c.options (Record.ofEntries entries) values extras) :
    ∃ t, Accepts (s.readRecord E (.map entries)) state (values ++ extras) t := by
  have hinput : (s.inputRecord (.map entries)).outcome state = (.ok (Record.ofEntries entries), state) := by
    rw [outcome_inputRecord (convert_map _ entries), givenRecord_map]
  have hnodup : (Record.ofEntries entries).names.Nodup := Record.nodup_names_ofEntries entries
  have hnone : ∀ f ∈ s.fields, f.name ∉ (Resolved.values ⟨[], [], []⟩).names := fun _ _ => List.not_mem_nil
  obtain ⟨u, ⟨hvisit, hlast⟩, hplace'⟩ := accepts_of_gathered hd.gathered hs.plain h.nodup_names hclean hplace hnone
  have hkeys : (s.matchKeys c.options (Record.ofEntries entries).names).excess.Nodup := by
    rw [h.excess_matchKeys hnodup]
    exact hnodup.filter _
  have hexcess : (visitExcesses E (Record.ofEntries entries) _ (Resolved.more ⟨[], [], []⟩ values)).outcome u = _ :=
    outcome_visitExcesses E (hplace'.options ▸ hs.rule) _ (h.given_of_matchKeys hnodup c.options).2
  rw [← hplace'.options, refusedOf, if_neg hs.excess, ← hd.extras,
    Record.insertAll_of_disjoint _ hd.nodup fun _ _ => List.not_mem_nil] at hexcess
  have hresolve : (s.resolve E .full (.map entries)).outcome state =
      (.ok { Resolved.more ⟨[], [], []⟩ values with extras := extras }, u) := by
    rw [resolve, outcome_bind_of_ok hinput, outcome_bind_of_ok (outcome_options state), ← hplace.options,
      outcome_bind_of_ok hvisit]
    exact outcome_bind_of_ok (p := readWaiting E .full [] _) rfl |>.trans (outcome_bind_of_ok hexcess)
  have hsublist := hd.gathered.names_sublist
  obtain ⟨t, hfinal, hlast⟩ := h.accepts_finalize hd.whole hsublist hd.nodup (h.foreign_of_described hd) hlast
  exact ⟨t, (outcome_bind_of_ok hresolve).trans hfinal, hlast⟩

/-! ### What is given out -/

/-- The name under which the value of a name is given out. -/
def outputKey (s : Schema) (o : Options) (name : String) : String :=
  match s.fieldNamed? name with
  | some f => outputName o f
  | none => name

/-- A record under the names under which its values are given out. -/
def renamed (s : Schema) (o : Options) (record : Record) : Record := record.map fun e => (s.outputKey o e.1, e.2)

theorem mem_of_fieldNamed? {name : String} (h : s.fieldNamed? name = some f) : f ∈ s.fields ∧ f.name = name :=
  ⟨List.mem_of_find?_eq_some h, by simpa using List.find?_some h⟩

/-- The values of plain fields are given out as they are. -/
theorem outcome_dumpEntries (hplain : ∀ f ∈ s.fields, f.Plain state.context.options) (rest : Record) : ∀ {output : Record},
    (output ++ s.renamed state.context.options rest).names.Nodup →
    (s.dumpEntries E output rest).outcome state = (.ok (output ++ s.renamed state.context.options rest), state) := by
  induction rest with
  | nil =>
    intro output _
    rw [renamed, List.map_nil, List.append_nil]
    rfl
  | cons e rest ih =>
    intro output hnodup
    obtain ⟨name, v⟩ := e
    have hcons : s.renamed state.context.options ((name, v) :: rest) =
        (s.outputKey state.context.options name, v) :: s.renamed state.context.options rest := rfl
    -- No name comes twice, so each entry is put behind those before it.
    have hsplit : output ++ s.renamed state.context.options ((name, v) :: rest) =
        output.insert (s.outputKey state.context.options name) v ++ s.renamed state.context.options rest := by
      have hnew : s.outputKey state.context.options name ∉ output.names := by
        rw [hcons, Record.names, List.map_append] at hnodup
        exact fun hmem => (List.nodup_append.mp hnodup).2.2 _ hmem _ List.mem_cons_self rfl
      rw [Record.insert_of_not_mem hnew, List.append_assoc, hcons, List.singleton_append]
    rw [hsplit] at hnodup ⊢
    have hrest := ih hnodup
    unfold outputKey at hrest ⊢
    unfold dumpEntries
    cases hfound : s.fieldNamed? name with
    | none =>
      rw [hfound] at hrest
      exact hrest
    | some f =>
      rw [hfound] at hrest
      have hf := hplain f (mem_of_fieldNamed? hfound).1
      have hvalue : (outputValue E f v).outcome state = (.ok (some v), state) := by
        rw [outputValue, outcome_bind_of_ok (outcome_options state), hf.givesNoOutput, if_neg Bool.false_ne_true,
          hf.outputRule]
        rfl
      simp only
      rw [outcome_bind_of_ok hvalue]
      simp only
      rw [outcome_bind_of_ok (outcome_options state)]
      exact hrest

theorem names_renamed (s : Schema) (o : Options) (record : Record) :
    (s.renamed o record).names = record.names.map (s.outputKey o) := by
  simp [renamed, Record.names, Function.comp_def]

section Renamed

variable {R : Field → Value → Value → Prop} (h : s.Compiled)

include h

/-- The name of a field is given out under a key of that field. -/
theorem Compiled.owner_outputKey (haliases : o.aliasTo = s.options.aliasFrom) (hf : f ∈ s.fields) :
    s.owner (s.outputKey o f.name) = some f.name := by
  rw [outputKey, h.fieldNamed? hf]
  refine h.owner_of_mem_keysOf hf ?_
  simp only [outputName, haliases]
  cases hgenerate : s.options.aliasFrom with
  | none => exact name_mem_keysOf s.options f
  | some generate =>
    simp only [keysOf, hgenerate]
    by_cases hmem : f.keys.contains (generate f.name) = true
    · rw [if_pos hmem]
      exact List.contains_iff_mem.mp hmem
    · rw [if_neg hmem]
      exact List.mem_append_right _ (List.mem_singleton_self _)

/-- A key of no field is given out as it is. -/
theorem Compiled.outputKey_of_foreign {name : String} (hname : s.owner name = none) : s.outputKey o name = name := by
  unfold outputKey
  cases hfound : s.fieldNamed? name with
  | none => rfl
  | some f =>
    obtain ⟨hf, rfl⟩ := mem_of_fieldNamed? hfound
    rw [h.owner_of_mem_keysOf hf (name_mem_keysOf s.options f)] at hname
    cases hname

/-- The key of a value leads back to its name, if it is that of a field, and to no field otherwise. -/
theorem Compiled.owner_of_renamed (hd : s.Described R o input values extras) (haliases : o.aliasTo = s.options.aliasFrom)
    {name : String} (hname : name ∈ (values ++ extras).names) :
    s.owner (s.outputKey o name) = if name ∈ values.names then some name else none := by
  by_cases hvalue : name ∈ values.names
  · rw [if_pos hvalue]
    obtain ⟨f, hf, rfl, -⟩ := h.owner_of_described hd hvalue
    exact h.owner_outputKey haliases hf
  · rw [if_neg hvalue]
    have hextra : name ∈ extras.names := by
      rw [Record.names, List.map_append, List.mem_append] at hname
      exact hname.resolve_left hvalue
    rw [h.outputKey_of_foreign (hd.foreign name hextra)]
    exact hd.foreign name hextra

/-- No two values are given out under one name. -/
theorem Compiled.nodup_renamed (hd : s.Described R o input values extras) (haliases : o.aliasTo = s.options.aliasFrom) :
    (s.renamed o (values ++ extras)).names.Nodup := by
  rw [names_renamed]
  refine (h.nodup_of_described hd).map_on fun a ha b hb heq => ?_
  have howner := h.owner_of_renamed hd haliases ha
  rw [heq, h.owner_of_renamed hd haliases hb] at howner
  by_cases ha' : a ∈ values.names <;> by_cases hb' : b ∈ values.names
  · rw [if_pos ha', if_pos hb'] at howner
    exact (Option.some.inj howner).symm
  · rw [if_pos ha', if_neg hb'] at howner
    cases howner
  · rw [if_neg ha', if_pos hb'] at howner
    cases howner
  · have foreign {name : String} (hname : name ∈ (values ++ extras).names) (hout : name ∉ values.names) :
        s.outputKey o name = name := by
      rw [Record.names, List.map_append, List.mem_append] at hname
      exact h.outputKey_of_foreign (hd.foreign name (hname.resolve_left hout))
    rwa [foreign ha ha', foreign hb hb'] at heq

/-- Of what is given out, the key of its name alone belongs to a field with a value, and none to any other. -/
theorem Compiled.owned_renamed (hd : s.Described R o input values extras) (haliases : o.aliasTo = s.options.aliasFrom)
    (name : String) : s.owned (s.renamed o (values ++ extras)).names name =
      if name ∈ values.names then [s.outputKey o name] else [] := by
  rw [owned, names_renamed, List.filter_map]
  have hkeys : (values ++ extras).names.filter ((fun key => s.owner key == some name) ∘ s.outputKey o) =
      if name ∈ values.names then [name] else [] := by
    have hfilter : (values ++ extras).names.filter ((fun key => s.owner key == some name) ∘ s.outputKey o) =
        (values ++ extras).names.filter fun n => n == name && decide (name ∈ values.names) := by
      refine List.filter_congr fun n hn => ?_
      rw [Function.comp_apply, h.owner_of_renamed hd haliases hn]
      by_cases hname : n = name
      · subst hname
        by_cases hvalue : n ∈ values.names <;> simp [hvalue]
      · by_cases hvalue : n ∈ values.names <;> simp [hvalue, hname]
    rw [hfilter]
    by_cases hvalue : name ∈ values.names
    · have hmem : name ∈ (values ++ extras).names := by
        rw [Record.names, List.map_append]
        exact List.mem_append_left _ hvalue
      have hcount := List.count_eq_one_of_mem (h.nodup_of_described hd) hmem
      simp [hvalue, List.filter_beq, hcount]
    · simp [hvalue]
  rw [hkeys]
  split <;> rfl

/-- The keys of no field that are given out are those that were read. -/
theorem Compiled.excess_renamed (hd : s.Described R o input values extras) (haliases : o.aliasTo = s.options.aliasFrom) :
    (s.matchKeys o (s.renamed o (values ++ extras)).names).excess = extras.names := by
  rw [h.excess_matchKeys (h.nodup_renamed hd haliases), names_renamed, List.filter_map]
  have hsplit : (values ++ extras).names = values.names ++ extras.names := List.map_append
  have hvalues : values.names.filter ((fun key => (s.owner key).isNone) ∘ s.outputKey o) = [] := by
    refine List.filter_eq_nil_iff.mpr fun name hname => ?_
    rw [Function.comp_apply, h.owner_of_renamed hd haliases (hsplit ▸ List.mem_append_left _ hname), if_pos hname]
    exact Bool.false_ne_true
  have hextras : extras.names.filter ((fun key => (s.owner key).isNone) ∘ s.outputKey o) = extras.names := by
    refine List.filter_eq_self.mpr fun name hname => ?_
    rw [Function.comp_apply, h.outputKey_of_foreign (hd.foreign name hname), hd.foreign name hname]
    rfl
  rw [hsplit, List.filter_append, hvalues, hextras, List.nil_append]
  exact (List.map_congr_left fun name hname => h.outputKey_of_foreign (hd.foreign name hname)).trans (List.map_id _)

theorem Compiled.get?_renamed (hd : s.Described R o input values extras) (haliases : o.aliasTo = s.options.aliasFrom)
    {name : String} (hmem : (name, w) ∈ values ++ extras) :
    (s.renamed o (values ++ extras)).get? (s.outputKey o name) = some w :=
  (Record.get?_eq_some_iff (h.nodup_renamed hd haliases)).mpr (List.mem_map.mpr ⟨(name, w), hmem, rfl⟩)

end Renamed

/-- What a mirrored schema gives out has the description of what it has read. -/
theorem Compiled.described_renamed (h : s.Compiled) (hs : s.Mirrored E c)
    (hd : s.Described (fun f v w => ∃ calls, Reads E c calls f v w) c.options input values extras) :
    s.Described (fun f v w => ∀ calls, Reads E c calls f v w) c.options (s.renamed c.options (values ++ extras)) values
      extras := by
  have hof (f : Field) : (s.matchKeys c.options (s.renamed c.options (values ++ extras)).names).of f.name =
      if f.name ∈ values.names then [s.outputKey c.options f.name] else [] := by
    rw [h.of_matchKeys (h.nodup_renamed hd hs.aliases), h.owned_renamed hd hs.aliases]
    split <;> simp [preferred]
  refine ⟨hd.gathered.again h.nodup_names ?_ ?_ ?_, hd.whole, hd.nodup, hd.foreign, ?_⟩
  · rintro f hf v w ⟨calls, hread⟩
    exact hs.idempotent f hf v w calls hread
  · intro f hf w hmem
    have hname : f.name ∈ values.names := List.mem_map.mpr ⟨_, hmem, rfl⟩
    exact ⟨_, (hof f).trans (if_pos hname), h.get?_renamed hd hs.aliases (List.mem_append_left _ hmem)⟩
  · intro f hf hname
    exact (hof f).trans (if_neg hname)
  · have hpassed : c.options.excessPolicy = .preserve ∨ extras = [] := by
      cases hpolicy : c.options.excessPolicy with
      | preserve => exact .inl rfl
      | reject => exact absurd hpolicy hs.excess
      | ignore =>
        refine .inr ?_
        rw [hd.extras, passed, hpolicy]
    rw [h.excess_renamed hd hs.aliases]
    refine (passed_again hpassed fun e he => ?_).symm
    have hget := h.get?_renamed hd hs.aliases (List.mem_append_right values he)
    rwa [h.outputKey_of_foreign (hd.foreign e.1 (List.mem_map.mpr ⟨e, he, rfl⟩))] at hget

end Schema

namespace Catalog

/-- What a schema of plain fields gives out is the record under the names for its values. -/
theorem output_of_dump {c : Catalog} {s : Schema} {o : Options} {record output : Record} {calls : Calls}
    (hplain : ∀ f ∈ s.fields, f.Plain (s.options.merge o)) (hnodup : (s.renamed (s.options.merge o) record).names.Nodup)
    (h : (c.dump s record o calls).1 = .ok output) : output = s.renamed (s.options.merge o) record := by
  have hdumped : (s.dumpEntries (c.entities (s.options.merge o)) [] record).outcome ⟨.root (s.options.merge o), calls⟩ = _ :=
    Schema.outcome_dumpEntries hplain record hnodup
  unfold dump at h
  rw [Parse.atRoot_options] at h
  unfold Parse.atRoot Schema.dumpRecord at h
  rw [outcome_bind_of_ok hdumped] at h
  cases h
  rfl

/-- A dump is undone by a parse: where a field is given out under a key that its name is generated from as it is taken
    in, and its one rule leaves what it has made as it is, what a parsed record is given out as is parsed as the
    same record, its entries in the same order. -/
theorem parse_of_dump {c : Catalog} {s : Schema} (hs : s.Compiled) {o : Options}
    (hmirrored : s.Mirrored (c.entities (s.options.merge o)) (.root (s.options.merge o))) {v : Value}
    {record output : Record} {ws : List Warning} {calls calls' : Calls}
    (hparse : (c.parse s v o calls).1 = .ok (record, ws)) (hdump : (c.dump s record o calls').1 = .ok output)
    (calls'' : Calls) :
    ∃ ws', (c.parse s (.map (output.map fun e => (.str e.1, e.2))) o calls'').1 = .ok (record, ws') := by
  obtain ⟨t, haccepts, -⟩ := Parse.atRoot_concluded_eq_ok.mp hparse
  unfold readRecord at haccepts
  rw [accepts_options] at haccepts
  have hE := Coupling.alike_sound c (s.options.merge o)
  obtain ⟨values, extras, rfl, hd⟩ := hs.described_of_accepts hE hmirrored rfl (.refl _) haccepts
  have hnodup := hs.nodup_renamed hd hmirrored.aliases
  have hentries : Record.ofEntries (output.map fun e => (.str e.1, e.2)) =
      s.renamed (Context.root (s.options.merge o)).options (values ++ extras) := by
    rw [output_of_dump hmirrored.plain hnodup hdump]
    exact Record.ofEntries_of_nodup hnodup
  have hagain := hs.described_renamed hmirrored hd
  rw [← hentries] at hagain
  have hstart : (Context.root (s.options.merge o)).At (ParseState.mk (.root (s.options.merge o)) calls'').context := .refl _
  obtain ⟨t', haccepts'⟩ := hs.accepts_of_described hmirrored rfl hstart hagain
  refine ⟨t'.context.warnings, Parse.atRoot_concluded_eq_ok.mpr ⟨t', ?_, rfl⟩⟩
  unfold readRecord
  exact accepts_options.mpr haccepts'

/-- A direct rule leaves what it has made as it is, wherever the field stands. -/
theorem reads_again_of_direct {c : Catalog} {o : Options} {context : Context} {f : Field} {v w : Value} {calls : Calls}
    (hr : f.rule.Direct) (hthrows : context.options.Throws) (hregistry : context.options.converters = .standard)
    (h : Schema.Reads (c.entities o) context calls f v w) (calls' : Calls) :
    Schema.Reads (c.entities o) context calls' f w w := by
  obtain ⟨child, t, hchild, haccepts⟩ := h
  have hclean := Reading.clean_of_enter hchild
  have hoptions : child.options = context.options := by
    unfold Context.enter at hchild
    simp only at hchild
    split at hchild
    · cases hchild
    · cases hchild
      rfl
  have hreads := Meaning.reads_reading (E := c.entities o) (entities_eq_plain c o) hr
  have hmeaning := ((hreads v).accepts ⟨child, calls⟩ hclean (hoptions ▸ hthrows) w).mp ⟨t, haccepts⟩
  have hagain := Rule.meaning_of_meaning hr (hoptions ▸ hregistry) hmeaning
  obtain ⟨t', haccepts'⟩ := ((hreads w).accepts ⟨child, calls'⟩ hclean (hoptions ▸ hthrows) w).mpr hagain
  exact ⟨child, t', hchild, haccepts'⟩

/-- A record with generated names and a key of no field, given out and parsed again. -/
theorem parse_of_dump_account :
    let generate (name : String) : String := "x_" ++ name
    let id : Field := { name := "id", rule := .of .int }
    let note : Field := { name := "note", rule := .of .str, required := some (.flag false) }
    let account : Schema := ⟨"Account", [id, note],
      { aliasFrom := some generate, aliasTo := some generate, addition := some .preserve, dataFirstSearch := some false }⟩
    let c : Catalog := { schemas := [account] }
    let o := account.options.merge {}
    let v : Value := .map [(.str "extra", .bool true), (.str "id", .str "7")]
    ∃ record output ws, account.Compiled ∧ account.Mirrored (c.entities o) (.root o) ∧
      (c.parse account v {} Calls.none).1 = .ok (record, ws) ∧
      (c.dump account record {} Calls.none).1 = .ok output ∧
      ∃ ws', (c.parse account (.map (output.map fun e => (.str e.1, e.2))) {} Calls.none).1 = .ok (record, ws') := by
  intro generate id note account c o v
  have haccount : account.Compiled := ⟨account.name, account.fields, account.options, rfl⟩
  have hmirrored : account.Mirrored (c.entities o) (.root o) := by
    refine ⟨rfl, rfl, by decide, ?_, ?_⟩
    · exact List.forall_mem_cons.mpr ⟨⟨rfl, rfl, rfl, rfl, rfl, rfl, rfl⟩,
        List.forall_mem_singleton.mpr ⟨rfl, rfl, rfl, rfl, rfl, rfl, rfl⟩⟩
    · have hidempotent {f : Field} (hr : f.rule.Direct) (v w : Value) (calls : Calls) :=
        @reads_again_of_direct c o (.root o) f v w calls hr ⟨rfl, rfl, rfl⟩ rfl
      exact List.forall_mem_cons.mpr ⟨hidempotent (Rule.direct_of rfl), List.forall_mem_singleton.mpr (hidempotent (Rule.direct_of rfl))⟩
  have hgives : ((c.parse account v {} Calls.none).1.toOption.any fun x =>
      (c.dump account x.1 {} Calls.none).1.toOption.isSome) = true := by decide +kernel
  cases hparse : (c.parse account v {} Calls.none).1 with
  | error f =>
    rw [hparse] at hgives
    cases hgives
  | ok x =>
    obtain ⟨record, ws⟩ := x
    rw [hparse] at hgives
    cases hdump : (c.dump account record {} Calls.none).1 with
    | error f =>
      simp only [Except.toOption, Option.any_some, hdump] at hgives
      cases hgives
    | ok output =>
      exact ⟨record, output, ws, haccount, hmirrored, rfl, hdump,
        parse_of_dump haccount hmirrored hparse hdump Calls.none⟩

end Catalog

end Conform

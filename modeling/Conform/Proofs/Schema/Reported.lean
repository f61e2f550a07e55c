import Conform.Proofs.Conversion.Exact
import Conform.Proofs.Ground.Schema
import Conform.Proofs.Parse.Collected
import Conform.Proofs.Schema.Blamed
import Conform.Proofs.Schema.Gathered

/-! What is reported. Where failures are collected without a limit, the fields have their turns one after the other
    whatever was found before, and each of them leaves failures that blame it alone, or none. So in the end the fields
    at fault are reported and no others, and behind them the keys that were refused, all at once. -/

namespace Conform

open Parse

namespace Schema

variable {s : Schema} {E : Entities} {f : Field} {v : Value} {r : Resolved} {waiting : Waiting} {c : Context}
  {state t : ParseState} {input : Record} {hits : List String} {m : Matches} {fields : List Field}

/-! ### Fields -/

/-- Places at the root at which failures are collected and from which a step may be taken. -/
structure Ready (c : Context) : Prop where
  options : c.options.Collecting
  route : c.route = []
  room : c.depth + 1 ≤ c.options.depthLimit

/-- A field is at fault in its turn, when some calls were made before. -/
def FaultyAt (E : Entities) (c : Context) (calls : Calls) (input : Record) (hits : List String) (f : Field) : Prop :=
  f.isHidden c.options = false ∧
    f.Faulty c.options (2 ≤ hits.length) (f.taken? .full c.options input hits) fun v => ∀ w, ¬ Reads E c calls f v w

theorem Ready.enter (hc : Ready c) (item : RouteItem) :
    c.enter item = .ok ⟨c.options, [item], c.depth + 1, [], []⟩ := by
  unfold Context.enter
  simp only [if_neg (Nat.not_lt.mpr hc.room), hc.route, List.nil_append]

/-- An absent field without a default is reported if it is required. -/
theorem records_fillAbsent (hc : Ready c) (hplace : c.At state.context) (f : Field) (r : Resolved) :
    ∃ r' fs t, Records (fillAbsent f r) state r' fs t ∧
      f.Accounted (f.isRequired c.options = true ∧ f.fills c.options = false) fs := by
  have hroute : state.context.route = [] := hplace.route.symm.trans hc.route
  have hproduced := f.isSome_produce c.options state.calls
  rw [hplace.options] at hproduced ⊢
  obtain ⟨t, hcalled⟩ := records_of_passes (passes_called (f.produce state.context.options false)) state
  cases hfound : (f.produce state.context.options false state.calls).1 with
  | some w =>
    rw [hfound] at hcalled hproduced
    refine ⟨_, _, t, records_options_bind (hcalled.bind (records_pure _ t)), Field.accounted_nil ?_⟩
    rintro ⟨-, hfills⟩
    rw [← hproduced] at hfills
    cases hfills
  | none =>
    rw [hfound] at hcalled hproduced
    have hfills : f.fills state.context.options = false := hproduced.symm
    by_cases hrequired : f.isRequired state.context.options = true
    · have ho : t.context.options.Collecting := hcalled.place.options ▸ hplace.options ▸ hc.options
      obtain ⟨u, hcollect⟩ := records_collect_at (fun route => .absence route f.name) passes_route
        (fun _ => rfl) ho r
      rw [← hcalled.place.route, hroute] at hcollect
      refine ⟨r, _, u, records_options_bind (hcalled.bind ?_), Field.accounted_singleton ⟨hrequired, hfills⟩ (.inr rfl)⟩
      simp only [if_pos hrequired]
      exact hcollect
    · refine ⟨r, _, t, records_options_bind (hcalled.bind ?_), Field.accounted_nil fun h => hrequired h.1⟩
      simp only [if_neg hrequired]
      exact records_pure r t

/-- The state in which a field has its turn. -/
def turn (E : Entities) (input : Record) (m : Matches) (fields : List Field) (r : Resolved) (waiting : Waiting)
    (state : ParseState) (f : Field) : ParseState :=
  ((visitFields E .full input m (fields.takeWhile (·.name != f.name)) r waiting).outcome state).2

theorem turn_head : turn E input m (f :: fields) r waiting state f = state := by simp [turn, visitFields]

theorem turn_tail {g : Field} {r' : Resolved} {waiting' : Waiting} (hne : f.name ≠ g.name)
    (h : (visitField E .full input (m.of f.name) f r waiting).outcome state = (.ok (r', waiting'), t)) :
    turn E input m (f :: fields) r waiting state g = turn E input m fields r' waiting' t g := by
  unfold turn
  rw [List.takeWhile_cons_of_pos (by simpa using hne), visitFields, outcome_bind_of_ok h]

section Entities

variable (hE : Coupling.sound.AlikeEntities E E) (hground : ∀ route, E.Concur (.beyond route) E)

include hE hground

/-- The value of a field without a discriminator is judged by the field's rule and policy. -/
theorem records_parseValue (hc : Ready c) (hplace : c.At state.context) (hf : f.discriminator = none)
    (v : Value) (siblings : Record) :
    ∃ outcome fs t, Records (f.parseValue E v siblings) state outcome fs t ∧
      Reading.Judged (f.rule.reading E) v ⟨c.options, [.key f.name], c.depth + 1, [], []⟩ state.calls (f.policy c.options)
        outcome fs := by
  have hsound : Sound ((f.rule.reading E).read v) := ((Coupling.alike_reading hE f.rule).read v).left.toSound
  have hguarded (d : Context) (hd : c.At d) : ∃ outcome fs t,
      Records (do ((f.rule.reading E).guarded v (.key f.name) (f.policy (← Parse.options)))) ⟨d, state.calls⟩ outcome fs t ∧
      Reading.Judged (f.rule.reading E) v ⟨c.options, [.key f.name], c.depth + 1, [], []⟩ state.calls (f.policy c.options)
        outcome fs := by
    have hsettled := (Reading.concur_reading (Ground.beyond_opens [.key f.name]) (hground _) f.rule).read v
      ⟨⟨c.options, [.key f.name], c.depth + 1, [], []⟩, state.calls⟩ (List.prefix_refl _) (Context.within_of_clean rfl rfl)
    obtain ⟨outcome, fs, t, hrecords, hjudged⟩ := Reading.records_guarded (s := ⟨d, state.calls⟩) (f.policy d.options)
      hsound hsettled.2 ((hd.enter _).symm.trans (hc.enter _)) (hd.options ▸ hc.options)
    exact ⟨outcome, fs, t, records_options_bind hrecords, hd.options ▸ hjudged⟩
  have hrule : f.ruleFor siblings = f.rule := by simp [Field.ruleFor, hf]
  unfold Field.parseValue
  rw [hrule]
  cases f.deprecated with
  | none => exact hguarded state.context hplace
  | some replacement =>
    have hwarn : Records (warn (f.deprecationMessage replacement)) state () []
        ⟨state.context.warn (f.deprecationMessage replacement), state.calls⟩ :=
      ⟨rfl, ⟨rfl, rfl, rfl⟩, (List.append_nil _).symm⟩
    obtain ⟨outcome, fs, t, hrecords, hjudged⟩ :=
      hguarded (state.context.warn (f.deprecationMessage replacement)) ⟨hplace.options, hplace.route, hplace.depth⟩
    exact ⟨outcome, fs, t, hwarn.bind hrecords, hjudged⟩

/-- A field with a value is reported if the value is refused and that is an error, or leaves a required field without
    a value. -/
theorem records_readField (hc : Ready c) (hplace : c.At state.context) (hf : f.discriminator = none) (v : Value)
    (r : Resolved) :
    ∃ r' fs t, Records (readField E .full f v r) state r' fs t ∧
      f.Accounted ((∀ w, ¬ Reads E c state.calls f v w) ∧ (f.policy c.options = .throw ∨
        f.policy c.options = .exclude ∧ f.isRequired c.options = true ∧ f.fills c.options = false)) fs := by
  obtain ⟨outcome, fs, t, hparse, hjudged⟩ := records_parseValue hE hground hc hplace hf v r.values
  have hrefused (h : ∀ w u, ¬ Accepts ((f.rule.reading E).read v)
      ⟨⟨c.options, [.key f.name], c.depth + 1, [], []⟩, state.calls⟩ w u) : ∀ w, ¬ Reads E c state.calls f v w := by
    rintro w ⟨child, u, hchild, haccepts⟩
    cases hchild.symm.trans (hc.enter _)
    exact h w u haccepts
  cases hjudged with
  | parsed haccepts =>
    refine ⟨_, _, t, hparse.bind (records_pure _ t), Field.accounted_nil ?_⟩
    rintro ⟨hnone, -⟩
    exact hnone _ ⟨_, _, hc.enter _, haccepts⟩
  | preserved _ hpolicy =>
    refine ⟨_, _, t, hparse.bind (records_pure _ t), Field.accounted_nil ?_⟩
    simp [hpolicy]
  | excluded hnone hpolicy =>
    obtain ⟨r', gs, u, hfill, haccounted⟩ := records_fillAbsent hc (hplace.trans hparse.place) f r
    refine ⟨r', gs, u, hparse.bind hfill, haccounted.congr ?_⟩
    simp [hpolicy, hrefused hnone]
  | collected hnone hpolicy hne hroutes =>
    refine ⟨r, _, t, hparse.bind (records_pure r t), ?_⟩
    rw [List.append_nil]
    refine ⟨iff_of_true hne ⟨hrefused hnone, .inl hpolicy⟩, fun g hg => .inl ?_⟩
    exact hroutes g hg

/-- A value that the field takes no notice of leaves the field absent. -/
theorem records_visitGiven {clashes : Prop} (hc : Ready c) (hplace : c.At state.context) (hf : f.discriminator = none)
    (hclash : ¬ (clashes ∧ c.options.ignoresAliasConflicts = false)) (v : Value) (r : Resolved) (waiting : Waiting) :
    ∃ r' fs t, Records (visitGiven E .full f v r waiting) state (r', waiting) fs t ∧
      f.Accounted (f.Faulty c.options clashes (if f.takesNoInput c.options (some v) then none else some v)
        fun v => ∀ w, ¬ Reads E c state.calls f v w) fs := by
  by_cases hinput : f.takesNoInput c.options (some v) = true
  · obtain ⟨r', fs, t, hrecords, haccounted⟩ := records_fillAbsent hc hplace f r
    refine ⟨r', fs, t, records_options_bind ?_, ?_⟩
    · rw [← hplace.options, if_pos hinput]
      exact hrecords.map (·, waiting)
    · rw [if_pos hinput, Field.faulty_none_iff hclash]
      exact haccounted
  · obtain ⟨r', fs, t, hrecords, haccounted⟩ := records_readField hE hground hc hplace hf v r
    refine ⟨r', fs, t, records_options_bind ?_, ?_⟩
    · rw [← hplace.options, if_neg hinput, if_neg (by simp), if_neg (by simp [hf])]
      exact hrecords.map (·, waiting)
    · rw [if_neg hinput, Field.faulty_some_iff hclash]
      exact haccounted

/-- A field leaves failures in its turn if and only if it is at fault then, and they blame it. -/
theorem records_visitField (hc : Ready c) (hplace : c.At state.context) (hf : f.discriminator = none)
    (hkeys : ∀ key ∈ hits, key ∈ input.names) (r : Resolved) (waiting : Waiting) :
    ∃ r' fs t, Records (visitField E .full input hits f r waiting) state (r', waiting) fs t ∧
      f.Accounted (FaultyAt E c state.calls input hits f) fs := by
  by_cases hhidden : f.isHidden c.options = true
  · refine ⟨r, [], state, records_options_bind ?_, Field.accounted_nil ?_⟩
    · rw [← hplace.options, if_pos hhidden]
      exact records_pure _ state
    · rw [FaultyAt, hhidden]
      rintro ⟨⟨⟩, -⟩
  have hseen : f.isHidden c.options = false := by simpa using hhidden
  cases hits with
  | nil =>
    obtain ⟨r', fs, t, hrecords, haccounted⟩ := records_fillAbsent hc hplace f r
    refine ⟨r', fs, t, records_options_bind ?_, ?_⟩
    · rw [← hplace.options, if_neg hhidden]
      exact hrecords.map (·, waiting)
    · have htaken : f.taken? .full c.options input [] = none := by rw [Field.taken?, if_neg hhidden]
      rw [FaultyAt, htaken, Field.faulty_none_iff (by simp)]
      exact haccounted.congr (by simp [hseen])
  | cons key others =>
    have hmany : (!others.isEmpty && !c.options.ignoresAliasConflicts) = true ↔
        2 ≤ (key :: others).length ∧ c.options.ignoresAliasConflicts = false := by
      cases others <;> simp
    by_cases hclash : 2 ≤ (key :: others).length ∧ c.options.ignoresAliasConflicts = false
    -- A clash is reported instead of reading any of the values.
    · have hblamed : f.Blamed (.aliasConflict (state.context.route ++ [.key f.name]) f.name (key :: others)) := by
        refine .inl ⟨_, rfl, ?_⟩
        rw [← hplace.route, hc.route]
        exact List.prefix_refl _
      obtain ⟨t, hrecords⟩ := records_collect_at (s := state) (fun route => .aliasConflict route f.name (key :: others))
        (passes_fieldRoute f) (fun _ => rfl) (hplace.options ▸ hc.options) (r, waiting)
      refine ⟨r, _, t, records_options_bind ?_, Field.accounted_singleton ⟨hseen, .clash hclash.1 hclash.2⟩ hblamed⟩
      simp only [← hplace.options, if_neg hhidden, if_pos (hmany.mpr hclash)]
      exact hrecords
    · have hfew := mt hmany.mp hclash
      obtain ⟨v, hget⟩ := Record.exists_get?_of_mem (hkeys key List.mem_cons_self)
      have htaken : f.taken? .full c.options input (key :: others) =
          if f.takesNoInput c.options (some v) then none else some v := by
        simp only [Field.taken?, if_neg hhidden, if_neg hfew, hget]
        cases hinput : f.takesNoInput c.options (some v) <;> simp [Option.filter, Field.admits, hinput]
      obtain ⟨r', fs, t, hrecords, haccounted⟩ := records_visitGiven hE hground hc hplace hf hclash v r waiting
      refine ⟨r', fs, t, records_options_bind ?_, ?_⟩
      · simp only [← hplace.options, if_neg hhidden, if_neg hfew, hget]
        exact hrecords
      · rw [FaultyAt, htaken]
        exact haccounted.congr (by simp [hseen])

/-- Each field has its turn, whatever was found before, and what is recorded in the end reports those at fault. -/
theorem reports_visitFields (hc : Ready c) (fields : List Field) : ∀ (r : Resolved) (waiting : Waiting) (state : ParseState),
    c.At state.context → (∀ f ∈ fields, f.discriminator = none) → (∀ f ∈ fields, ∀ key ∈ m.of f.name, key ∈ input.names) →
    (fields.map Field.name).Nodup →
    ∃ r' fs t, Records (visitFields E .full input m fields r waiting) state (r', waiting) fs t ∧
      Reports fields (fun f => FaultyAt E c (turn E input m fields r waiting state f).calls input (m.of f.name) f) fs := by
  induction fields with
  | nil => exact fun _ _ _ _ _ _ _ => ⟨_, _, _, records_pure _ _, List.forall_mem_nil _, List.forall_mem_nil _⟩
  | cons f rest ih =>
    intro r waiting state hplace hfields hkeys hnames
    obtain ⟨hf, hfields⟩ := List.forall_mem_cons.mp hfields
    obtain ⟨hkey, hkeys⟩ := List.forall_mem_cons.mp hkeys
    obtain ⟨hfresh, hnames⟩ := List.nodup_cons.mp hnames
    obtain ⟨r', fs, t, hvisit, haccounted⟩ := records_visitField hE hground hc hplace hf hkey r waiting
    obtain ⟨r'', gs, u, hrest, hreports⟩ := ih r' waiting t (hplace.trans hvisit.place) hfields hkeys hnames
    -- What the first field does in its turn is part of what comes before the turns of the others.
    refine ⟨r'', fs ++ gs, u, hvisit.bind hrest, .cons ?_ (hreports.congr fun g hg => ?_) hfresh⟩
    · rw [turn_head]
      exact haccounted
    · have hne : f.name ≠ g.name := fun heq => hfresh (List.mem_map.mpr ⟨g, hg, heq.symm⟩)
      rw [turn_tail hne hvisit.outcome]

end Entities

/-! ### Keys of no field -/

theorem records_excess (hc : Ready c) (hplace : c.At state.context) (keys : List String) (r : Resolved) :
    ∃ t, Records (do
      unless keys.isEmpty do Parse.collect (.excess (← Parse.route) keys)
      pure r) state r (excessOf keys) t := by
  cases keys with
  | nil => exact ⟨state, records_pure r state⟩
  | cons key others =>
    obtain ⟨t, hrecords⟩ := records_collect_at (s := state) (fun route => .excess route (key :: others)) passes_route
      (fun _ => rfl) (hplace.options ▸ hc.options) r
    rw [← hplace.route, hc.route] at hrecords
    exact ⟨t, hrecords⟩

/-! ### Records -/

/-- The calls made before the turn of a field. -/
def callsBefore (s : Schema) (E : Entities) (o : Options) (calls : Calls) (v : Value) (f : Field) : Calls :=
  (turn E (givenRecord o v) (s.matchKeys o (givenRecord o v).names) s.fields ⟨[], [], []⟩ [] ⟨.root o, calls⟩ f).calls

/-- A field that is seen is at fault with an input. -/
def Faulty (s : Schema) (E : Entities) (o : Options) (calls : Calls) (v : Value) (f : Field) : Prop :=
  f.isHidden o = false ∧
    f.Faulty o (f.Clashes s.options (givenRecord o v).names) (s.given? o v f) fun w =>
      ∀ u, ¬ Reads E (.root o) (s.callsBefore E o calls v f) f w u

/-- The keys of an input that lead to no field, as they come in, where such keys are refused. -/
def refused (s : Schema) (o : Options) (v : Value) : List String :=
  refusedOf o ((givenRecord o v).names.filter fun key => ∀ f ∈ s.fields, ¬ Claims s.options f key)

theorem Compiled.refusedOf_excess (h : s.Compiled) (o : Options) (v : Value) :
    refusedOf o (s.matchKeys o (givenRecord o v).names).excess = s.refused o v := by
  rw [h.excess_unclaimed (names_givenRecord o v).1, refused]

/-- A field has two keys if and only if two different ones of an input lead to it. -/
theorem Compiled.clashes_iff (h : s.Compiled) (hinput : input.names.Nodup) (o : Options) (hf : f ∈ s.fields) :
    2 ≤ ((s.matchKeys o input.names).of f.name).length ↔ f.Clashes s.options input.names := by
  have hmem (key : String) : key ∈ (s.matchKeys o input.names).of f.name ↔ key ∈ input.names ∧ Claims s.options f key := by
    rw [(h.mem_matches_iff hinput (matchKeys_cases s o input.names)).1 f.name]
    refine and_congr_right fun _ => ⟨?_, fun hclaims => ⟨f, hf, rfl, hclaims⟩⟩
    rintro ⟨g, hg, hname, hclaims⟩
    exact h.eq_of_name hg hf hname ▸ hclaims
  have hnodup : ((s.matchKeys o input.names).of f.name).Nodup := by
    rw [h.of_matchKeys hinput]
    exact (perm_preferred _ _).nodup_iff.mpr (nodup_owned hinput f.name)
  generalize (s.matchKeys o input.names).of f.name = hits at hmem hnodup
  constructor
  · intro hlength
    match hits, hlength with
    | key :: other :: rest, _ =>
      obtain ⟨hkey, hclaims⟩ := (hmem key).mp (by simp)
      obtain ⟨hother, hclaims'⟩ := (hmem other).mp (by simp)
      have hne : key ≠ other := fun heq => (List.nodup_cons.mp hnodup).1 (heq ▸ List.mem_cons_self)
      exact ⟨key, hkey, other, hother, hne, hclaims, hclaims'⟩
  · rintro ⟨key, hkey, other, hother, hne, hclaims, hclaims'⟩
    have hmemKey := (hmem key).mpr ⟨hkey, hclaims⟩
    have hmemOther := (hmem other).mpr ⟨hother, hclaims'⟩
    match hits, hmemKey, hmemOther with
    | [only], hk, ho => exact absurd ((List.mem_singleton.mp hk).trans (List.mem_singleton.mp ho).symm) hne
    | _ :: _ :: rest, _, _ => exact Nat.le_add_left 2 rest.length

/-- Fields that depend on nothing are all kept. -/
theorem outcome_finalize (hfields : ∀ f ∈ s.fields, f.dependencies = []) (values : Record) (supplied : List String)
    (extras : Record) (state : ParseState) : ∃ record, (s.finalize values supplied extras).outcome state = (.ok record, state) := by
  have hbroken : s.brokenFields values = [] := by
    refine List.filter_eq_nil_iff.mpr fun f hf => ?_
    simp [missingOf, hfields f hf]
  have hdrop : (s.dropBroken supplied (s.fields.length + 1) values).outcome state = (.ok values, state) := by
    rw [dropBroken, hbroken]
    rfl
  exact ⟨_, outcome_bind_of_ok hdrop⟩

/-- A reading at the root records what reports the fields at fault, and behind it the refused keys. -/
theorem Compiled.records_readRecord (h : s.Compiled) (hE : Coupling.sound.AlikeEntities E E)
    (hground : ∀ route, E.Concur (.beyond route) E)
    (hfields : ∀ f ∈ s.fields, f.dependencies = [] ∧ f.discriminator = none) {o : Options} (hc : Ready (.root o))
    (hrule : o.additionRule = none) {entries : List (Value × Value)} (hmap : o.convert v .map = .ok (.map entries))
    (calls : Calls) :
    ∃ record fs t, Records (s.readRecord E v) ⟨.root o, calls⟩ record (fs ++ excessOf (s.refused o v)) t ∧
      Reports s.fields (s.Faulty E o calls v) fs := by
  have hnodup := (names_givenRecord o v).1
  obtain ⟨hkeys, hexcesses⟩ := h.given_of_matchKeys hnodup o
  obtain ⟨r, fs, t, hvisit, hreports⟩ := reports_visitFields hE hground hc s.fields ⟨[], [], []⟩ [] ⟨.root o, calls⟩
    (.refl _) (fun f hf => (hfields f hf).2) hkeys h.nodup_names
  have ho : t.context.options = o := hvisit.place.options.symm
  have hexcess := outcome_visitExcesses E (ho ▸ hrule) (s.matchKeys o (givenRecord o v).names).excess (r := r) hexcesses
  have hrefused : refusedOf t.context.options (s.matchKeys o (givenRecord o v).names).excess = s.refused o v := by
    rw [ho, h.refusedOf_excess]
  rw [hrefused] at hexcess
  generalize { r with extras := _ } = r' at hexcess
  obtain ⟨u, hcollect⟩ := records_excess hc hvisit.place (s.refused o v) r'
  obtain ⟨record, hfinal⟩ := outcome_finalize (fun f hf => (hfields f hf).1) r'.values r'.supplied r'.extras u
  have hresolve : Records (s.resolve E .full v) ⟨.root o, calls⟩ r' (fs ++ excessOf (s.refused o v)) u := by
    refine .of_outcome (u := ⟨.root o, calls⟩) ?_ (outcome_bind_of_ok (outcome_inputRecord hmap)) (.refl _) rfl
    refine records_options_bind (hvisit.bind ?_)
    refine .of_outcome hcollect ?_ (.refl _) rfl
    exact outcome_bind_of_ok hexcess
  refine ⟨record, fs, u, ?_, hreports.congr fun f hf => ?_⟩
  · exact .of_outcome (u := ⟨.root o, calls⟩) ⟨(outcome_bind_of_ok hresolve.outcome).trans hfinal, hresolve.place,
      hresolve.failures⟩ rfl (.refl _) rfl
  · rw [FaultyAt, h.clashes_iff hnodup o hf]
    rfl

end Schema

namespace Catalog

/-- Where failures are collected without a limit and no rule reads the values of other keys, fields that depend on nothing
    are parsed from a mapping if none of them is at fault and no key is refused. Otherwise the parse fails with a report
    which blames each field that is at fault and no other field, and in which one failure at the root lists all keys
    that are refused, if there are any. -/
theorem parse_of_collecting {c : Catalog} {s : Schema} (hs : s.Compiled)
    (hfields : ∀ f ∈ s.fields, f.dependencies = [] ∧ f.discriminator = none) {o : Options}
    (hcollecting : (s.options.merge o).Collecting) (hrule : (s.options.merge o).additionRule = none)
    (hdepth : 1 ≤ (s.options.merge o).depthLimit) (entries : List (Value × Value)) (calls : Calls) :
    let faulty := s.Faulty (c.entities (s.options.merge o)) (s.options.merge o) calls (.map entries)
    let refused := s.refused (s.options.merge o) (.map entries)
    ((∀ f ∈ s.fields, ¬ faulty f) ∧ refused = [] → ∃ x, (c.parse s (.map entries) o calls).1 = .ok x) ∧
      ((∃ f ∈ s.fields, faulty f) ∨ refused ≠ [] → ∃ fs, (c.parse s (.map entries) o calls).1 = .error (.aggregate fs) ∧
        (∀ f ∈ s.fields, (∃ g ∈ fs, f.Blamed g) ↔ faulty f) ∧
        fs.filterMap Failure.excessAtRoot? = (if refused = [] then [] else [refused]) ∧
        ∀ g ∈ fs, g = .excess [] refused ∨ ∃ f ∈ s.fields, f.Blamed g) := by
  intro faulty refused
  have hground (route : Route) : (c.entities (s.options.merge o)).Concur (.beyond route) (c.entities (s.options.merge o)) :=
    concur_entitiesWithin (Ground.beyond_opens route) (fun _ _ _ hd => hd) _
  have hmap : (s.options.merge o).convert (.map entries) .map = .ok (.map entries) := Registry.convert_of_isExact _ rfl
  have hroot : Schema.Ready (.root (s.options.merge o)) := ⟨hcollecting, rfl, hdepth⟩
  obtain ⟨record, fs, t, hrecords, hreports⟩ :=
    hs.records_readRecord (Coupling.alike_sound c _) hground hfields hroot hrule hmap calls
  have hread : Parse.Records (c.readRecord s (.map entries)) ⟨.root (s.options.merge o), calls⟩ record
      (fs ++ Schema.excessOf refused) t := Parse.records_options_bind hrecords
  have hparse := Parse.atRoot_concluded_of_records hread
  have hall : fs ++ Schema.excessOf refused = [] ↔ (∀ f ∈ s.fields, ¬ faulty f) ∧ refused = [] := by
    rw [List.append_eq_nil_iff, hreports.eq_nil_iff, Schema.excessOf_eq_nil_iff]
  refine ⟨fun hnone => ⟨_, hparse.trans (if_pos (hall.mpr hnone))⟩, fun hsome => ?_⟩
  have hne : fs ++ Schema.excessOf refused ≠ [] := by
    intro hnil
    obtain ⟨hnone, hrefused⟩ := hall.mp hnil
    rcases hsome with ⟨f, hf, hfaulty⟩ | hkeys
    · exact hnone f hf hfaulty
    · exact hkeys hrefused
  obtain ⟨hblamed, hexcess, hcovered⟩ := hreports.append_excessOf refused
  have hflat : Failure.flattenAll (fs ++ Schema.excessOf refused) = fs ++ Schema.excessOf refused := by
    refine Failure.flattenAll_of_single fun g hg => ?_
    rcases hcovered g hg with rfl | ⟨f, -, hg⟩
    · rfl
    · exact hg.single
  have hraised := hparse.trans (if_neg hne)
  rw [Failure.together, hflat] at hraised
  exact ⟨fs ++ Schema.excessOf refused, hraised, hblamed, hexcess, hcovered⟩

/-- A value that is refused, two keys for one field, a field without a value and a key of no field, all in one report. -/
theorem parse_item_collecting :
    let id : Field := { name := "id", rule := .of .int }
    let label : Field := { name := "label", rule := .of .str, aliases := ["tag"] }
    let note : Field := { name := "note", rule := .of .str }
    let size : Field := { name := "size", rule := .of .int, onError := some .exclude, required := some (.flag false) }
    let item : Schema := ⟨"Item", [id, label, note, size], { addition := some .reject, dataFirstSearch := some false }⟩
    let cat : Catalog := { schemas := [item] }
    let o : Options := { collectErrors := some true }
    let p := item.options.merge o
    let entries : List (Value × Value) :=
      [(.str "more", .null), (.str "tag", .str "a"), (.str "label", .str "b"), (.str "id", .str "x"), (.str "size", .str "y")]
    let run := (parse cat item (.map entries) o Calls.none).1
    let faulty := item.Faulty (cat.entities p) p Calls.none (.map entries)
    item.Compiled ∧ (∀ f ∈ item.fields, f.dependencies = [] ∧ f.discriminator = none) ∧ p.Collecting ∧
      p.additionRule = none ∧ 1 ≤ p.depthLimit ∧ item.refused p (.map entries) = ["more"] ∧
      ∃ fs, run = .error (.aggregate fs) ∧
        Failure.routesAll fs = [[.key "id"], [.key "label"], [], []] ∧
        (∀ f ∈ item.fields, (∃ g ∈ fs, f.Blamed g) ↔ faulty f) ∧ fs.filterMap Failure.excessAtRoot? = [["more"]] ∧
        ∀ g ∈ fs, g = .excess [] ["more"] ∨ ∃ f ∈ item.fields, f.Blamed g := by
  intro id label note size item cat o p entries run faulty
  have hitem : item.Compiled := ⟨item.name, item.fields, item.options, rfl⟩
  have hfields : ∀ f ∈ item.fields, f.dependencies = [] ∧ f.discriminator = none := by
    simp [item, id, label, note, size]
  have hrefused : item.refused p (.map entries) = ["more"] := by decide +kernel
  have hreport := (parse_of_collecting (c := cat) (o := o) hitem hfields ⟨rfl, rfl⟩ rfl (by decide) entries Calls.none).2
    (.inr (by rw [hrefused]; exact List.cons_ne_nil _ _))
  rw [hrefused] at hreport
  obtain ⟨fs, hrun, hblamed, hexcess, hcovered⟩ := hreport
  have hroutes : (run.mapError Failure.routes).map (fun _ => ()) = .error [[.key "id"], [.key "label"], [], []] := by
    decide +kernel
  have hrun' : run = .error (.aggregate fs) := hrun
  rw [hrun'] at hroutes
  injection hroutes with hroutes
  exact ⟨hitem, hfields, ⟨rfl, rfl⟩, rfl, by decide, hrefused, fs, hrun, hroutes, hblamed, hexcess, hcovered⟩

end Catalog

end Conform

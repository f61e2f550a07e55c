import Conform.Proofs.Schema.Excess

/-! Deferred defaults. A second pass fills in the defaults of absent fields in the order of declaration, each of them if all
    that it depends on is present at its turn. What is filled in stands behind what was there, so a record is only
    extended, and where no field lacks a dependency, none does afterwards. A field that is declared before one that it
    depends on may come too early, and is left to another pass; as many passes as there are fields leave none. -/

namespace Conform

namespace Schema

variable {s : Schema} {f : Field} {fields earlier later : List Field} {values added : Record} {calls calls' : Calls}
  {name d : String}

/-! ### A turn -/

/-- A field that is seen and has a default. -/
structure Fillable (s : Schema) (f : Field) : Prop where
  seen : f.isHidden s.options = false
  default : f.default.isSome

/-- What the turn of a field makes of a record. -/
inductive Turn (s : Schema) (f : Field) (values : Record) (calls : Calls) : Record × Calls → Prop
  | present (hname : f.name ∈ values.names) : Turn s f values calls (values, calls)
  | unfillable (h : ¬ s.Fillable f) : Turn s f values calls (values, calls)
  | early {d : String} (hd : d ∈ f.dependencies) (hmissing : d ∉ values.names) : Turn s f values calls (values, calls)
  | filled {v : Value} {calls' : Calls} (hname : f.name ∉ values.names) (h : s.Fillable f)
      (hdependencies : ∀ d ∈ f.dependencies, d ∈ values.names) (hv : f.produce s.options true calls = (some v, calls')) :
      Turn s f values calls (values ++ [(f.name, v)], calls')

theorem missingOf_eq_nil : missingOf values f = [] ↔ ∀ d ∈ f.dependencies, d ∈ values.names := by
  rw [missingOf, List.filter_eq_nil_iff]
  simp [← Record.has_iff_mem_names]

/-- A default that is forced is there if there is one at all. -/
theorem produce_forced (f : Field) (o : Options) (calls : Calls) :
    f.produce o true calls = match f.default with
      | none => (none, calls)
      | some d => (some (d.produce calls).1, (d.produce calls).2) := by
  unfold Field.produce
  cases f.default <;> simp

theorem turn_fillDeferred (s : Schema) (values : Record) (f : Field) (calls : Calls) :
    s.Turn f values calls (s.fillDeferred values f calls) := by
  have hproduce := produce_forced f s.options calls
  unfold fillDeferred
  by_cases hname : f.name ∈ values.names
  · rw [Record.has_iff_mem_names.mpr hname]
    exact .present hname
  cases hhidden : f.isHidden s.options with
  | true =>
    rw [Bool.or_true]
    exact .unfillable fun h => Bool.false_ne_true (h.seen.symm.trans hhidden)
  | false =>
    by_cases hmissing : missingOf values f = []
    · rw [if_neg (by simp [Record.has_iff_mem_names, hname, hmissing]), hproduce]
      cases hdefault : f.default with
      | none => exact .unfillable fun h => by simpa [hdefault] using h.default
      | some d =>
        simp only [Record.insert_of_not_mem hname]
        refine .filled hname ⟨hhidden, by rw [hdefault]; rfl⟩ (missingOf_eq_nil.mp hmissing) ?_
        rw [hproduce, hdefault]
    · rw [if_pos (by simp [hmissing])]
      obtain ⟨d, hd⟩ := List.exists_mem_of_ne_nil _ hmissing
      obtain ⟨hd, habsent⟩ := List.mem_filter.mp hd
      exact .early hd fun hmem => by simp [Record.has_iff_mem_names.mpr hmem] at habsent

/-! ### Turns one after the other -/

theorem fillAllDeferred_cons (s : Schema) (f : Field) (rest : List Field) (values : Record) (calls : Calls) :
    s.fillAllDeferred (f :: rest) values calls =
      s.fillAllDeferred rest (s.fillDeferred values f calls).1 (s.fillDeferred values f calls).2 := rfl

/-- What the turns of some fields add to a record: defaults of fields that were absent, in the order of the fields. -/
structure Adds (s : Schema) (fields : List Field) (values added : Record) : Prop where
  order : added.names.Sublist (fields.map Field.name)
  new : ∀ name ∈ added.names, name ∉ values.names
  default : ∀ e ∈ added, ∃ f ∈ fields, f.name = e.1 ∧ s.Fillable f ∧ ∃ calls, (f.produce s.options true calls).1 = some e.2

theorem exists_adds (s : Schema) (fields : List Field) : ∀ (values : Record) (calls : Calls),
    ∃ added, (s.fillAllDeferred fields values calls).1 = values ++ added ∧ s.Adds fields values added := by
  induction fields with
  | nil => exact fun values _ => ⟨[], (List.append_nil values).symm, .refl _, nofun, nofun⟩
  | cons f rest ih =>
    intro values calls
    have hturn := turn_fillDeferred s values f calls
    rw [fillAllDeferred_cons]
    generalize s.fillDeferred values f calls = next at hturn ⊢
    cases hturn with
    | present | unfillable | early =>
      obtain ⟨added, hadded, hadds⟩ := ih values calls
      exact ⟨added, hadded, hadds.order.cons _, hadds.new, fun e he =>
        let ⟨g, hg, h⟩ := hadds.default e he
        ⟨g, List.mem_cons_of_mem f hg, h⟩⟩
    | @filled v calls' hname hfillable _ hv =>
      obtain ⟨added, hadded, hadds⟩ := ih (values ++ [(f.name, v)]) calls'
      refine ⟨(f.name, v) :: added, ?_, hadds.order.cons_cons _, ?_, ?_⟩
      · rw [hadded, List.append_assoc, List.singleton_append]
      · refine List.forall_mem_cons.mpr ⟨hname, fun name hmem hold => hadds.new name hmem ?_⟩
        exact List.mem_map.mpr ((List.mem_map.mp hold).imp fun e he => ⟨List.mem_append_left _ he.1, he.2⟩)
      · refine List.forall_mem_cons.mpr ⟨⟨f, List.mem_cons_self, rfl, hfillable, calls, by rw [hv]⟩, fun e he => ?_⟩
        obtain ⟨g, hg, h⟩ := hadds.default e he
        exact ⟨g, List.mem_cons_of_mem f hg, h⟩

theorem fillAllDeferred_append (s : Schema) (earlier later : List Field) : ∀ (values : Record) (calls : Calls),
    s.fillAllDeferred (earlier ++ later) values calls =
      s.fillAllDeferred later (s.fillAllDeferred earlier values calls).1 (s.fillAllDeferred earlier values calls).2 := by
  induction earlier with
  | nil => exact fun _ _ => rfl
  | cons f rest ih => exact fun values calls => ih _ _

theorem mem_names_fillAllDeferred (h : name ∈ (s.fillAllDeferred fields values calls).1.names) :
    name ∈ values.names ∨ ∃ f ∈ fields, f.name = name := by
  obtain ⟨added, heq, hadds⟩ := exists_adds s fields values calls
  rw [heq, Record.names, List.map_append, List.mem_append] at h
  exact h.imp_right fun hname => List.mem_map.mp (hadds.order.subset hname)

theorem subset_fillAllDeferred (s : Schema) (fields : List Field) (values : Record) (calls : Calls) (name : String)
    (h : name ∈ values.names) : name ∈ (s.fillAllDeferred fields values calls).1.names := by
  obtain ⟨added, heq, -⟩ := exists_adds s fields values calls
  rw [heq, Record.names, List.map_append]
  exact List.mem_append_left _ h

/-- With a field all that it depends on is there, so the turns of fields keep a record consistent. -/
theorem Compiled.consistent_fillAllDeferred (h : s.Compiled) (fields : List Field) (hfields : ∀ f ∈ fields, f ∈ s.fields) :
    ∀ {values : Record} {calls : Calls}, s.Consistent {name | name ∈ values.names} →
      s.Consistent {name | name ∈ (s.fillAllDeferred fields values calls).1.names} := by
  induction fields with
  | nil => exact id
  | cons f rest ih =>
    intro values calls hvalues
    obtain ⟨hf, hrest⟩ := List.forall_mem_cons.mp hfields
    have hturn := turn_fillDeferred s values f calls
    rw [fillAllDeferred_cons]
    generalize s.fillDeferred values f calls = next at hturn ⊢
    cases hturn with
    | present | unfillable | early => exact ih hrest hvalues
    | filled _ _ hdependencies _ =>
      refine ih hrest fun g hg hname d hd => ?_
      simp only [Record.names, List.map_append, List.map_cons, List.map_nil, Set.mem_ofPred_eq, List.mem_append,
        List.mem_singleton] at hname ⊢
      rcases hname with hname | hname
      · exact .inl (hvalues g hg hname d hd)
      · obtain rfl := h.eq_of_name hg hf hname
        exact .inl (hdependencies d hd)

/-! ### Which fields are filled in -/

/-- A name is declared before another one. -/
def Precedes (s : Schema) (d name : String) : Prop :=
  (s.fields.map Field.name).idxOf d < (s.fields.map Field.name).idxOf name

theorem Compiled.precedes_iff (h : s.Compiled) (hsplit : s.fields = earlier ++ f :: later) :
    s.Precedes d f.name ↔ d ∈ earlier.map Field.name := by
  have hnodup := h.nodup_names
  rw [Precedes]
  rw [hsplit, List.map_append, List.map_cons] at hnodup ⊢
  have hplace : (earlier.map Field.name ++ f.name :: later.map Field.name).idxOf f.name =
      (earlier.map Field.name).length := by
    rw [List.idxOf_append_of_notMem fun hmem => (List.nodup_append.mp hnodup).2.2 _ hmem _ List.mem_cons_self rfl,
      List.idxOf_cons_self, Nat.add_zero]
  rw [hplace]
  by_cases hd : d ∈ earlier.map Field.name
  · rw [List.idxOf_append_of_mem hd]
    exact iff_of_true (List.idxOf_lt_length_iff.mpr hd) hd
  · rw [List.idxOf_append_of_notMem hd]
    exact iff_of_false (by omega) hd

/-- What is present at the turn of a field is what was there, and what the fields before it have filled in. -/
theorem Compiled.mem_earlier_iff (h : s.Compiled) (hsplit : s.fields = earlier ++ f :: later) :
    d ∈ (s.fillAllDeferred earlier values calls).1.names ↔
      d ∈ values.names ∨ d ∈ (s.fillAllDeferred s.fields values calls).1.names ∧ s.Precedes d f.name := by
  rw [h.precedes_iff hsplit]
  have hnodup := h.nodup_names
  rw [hsplit, List.map_append, List.nodup_append] at hnodup
  obtain ⟨-, -, hapart⟩ := hnodup
  rw [hsplit, fillAllDeferred_append]
  constructor
  · intro hmem
    refine (mem_names_fillAllDeferred hmem).imp_right fun hfield => ⟨?_, List.mem_map.mpr hfield⟩
    exact subset_fillAllDeferred s _ _ _ d hmem
  · rintro (hmem | ⟨hmem, hearlier⟩)
    · exact subset_fillAllDeferred s _ _ _ d hmem
    · -- It is not the name of a field from the turn on, so it was there before the turn.
      refine (mem_names_fillAllDeferred hmem).resolve_right fun hfield => ?_
      exact hapart d hearlier d (List.mem_map.mpr hfield) rfl

/-- A field is present in the end if and only if it was there, or it may be filled in and all that it depends on was there
    or is filled in before. -/
theorem Compiled.mem_filled_iff (h : s.Compiled) (hf : f ∈ s.fields) :
    f.name ∈ (s.fillAllDeferred s.fields values calls).1.names ↔ f.name ∈ values.names ∨ s.Fillable f ∧
      ∀ d ∈ f.dependencies, d ∈ values.names ∨
        d ∈ (s.fillAllDeferred s.fields values calls).1.names ∧ s.Precedes d f.name := by
  obtain ⟨earlier, later, hsplit⟩ := List.append_of_mem hf
  simp only [← h.mem_earlier_iff hsplit]
  have hnodup := h.nodup_names
  rw [hsplit, List.map_append, List.map_cons, List.nodup_append] at hnodup
  obtain ⟨-, hlater, hapart⟩ := hnodup
  have hearlier : f.name ∈ (s.fillAllDeferred earlier values calls).1.names ↔ f.name ∈ values.names := by
    refine ⟨fun hmem => (mem_names_fillAllDeferred hmem).resolve_right fun hfield => ?_, subset_fillAllDeferred s _ _ _ _⟩
    exact hapart f.name (List.mem_map.mpr hfield) f.name List.mem_cons_self rfl
  have hturn := turn_fillDeferred s (s.fillAllDeferred earlier values calls).1 f (s.fillAllDeferred earlier values calls).2
  rw [← hearlier, hsplit, fillAllDeferred_append, fillAllDeferred_cons]
  generalize s.fillDeferred _ f _ = next at hturn ⊢
  have hrest : f.name ∈ (s.fillAllDeferred later next.1 next.2).1.names ↔ f.name ∈ next.1.names := by
    refine ⟨fun hmem => (mem_names_fillAllDeferred hmem).resolve_right fun hfield => ?_, subset_fillAllDeferred s _ _ _ _⟩
    exact (List.nodup_cons.mp hlater).1 (List.mem_map.mpr hfield)
  rw [hrest]
  cases hturn with
  | present hname => exact iff_of_true hname (.inl hname)
  | unfillable hnot => exact ⟨.inl, fun hor => hor.resolve_right fun hfill => hnot hfill.1⟩
  | early hd hmissing => exact ⟨.inl, fun hor => hor.resolve_right fun hfill => hmissing (hfill.2 _ hd)⟩
  | filled _ hfillable hdependencies _ =>
    exact iff_of_true (by simp [Record.names]) (.inr ⟨hfillable, hdependencies⟩)

/-! ### Passes -/

theorem withDeferred_eq (s : Schema) (values : Record) (calls : Calls) : s.withDeferred values calls =
    (s.arranged (s.fillAllDeferred s.fields values calls).1, (s.fillAllDeferred s.fields values calls).2) := rfl

theorem mem_names_withDeferred :
    name ∈ (s.withDeferred values calls).1.names ↔ name ∈ (s.fillAllDeferred s.fields values calls).1.names :=
  Record.mem_names_arranged

/-- No field is left that could be filled in. -/
def Complete (s : Schema) (values : Record) : Prop :=
  ∀ f ∈ s.fields, s.Fillable f → (∀ d ∈ f.dependencies, d ∈ values.names) → f.name ∈ values.names

theorem fillAllDeferred_of_complete (fields : List Field) (hfields : ∀ f ∈ fields, f ∈ s.fields) (h : s.Complete values)
    (calls : Calls) : s.fillAllDeferred fields values calls = (values, calls) := by
  induction fields with
  | nil => rfl
  | cons f rest ih =>
    obtain ⟨hf, hrest⟩ := List.forall_mem_cons.mp hfields
    have hturn := turn_fillDeferred s values f calls
    have hsame : s.fillDeferred values f calls = (values, calls) := by
      generalize s.fillDeferred values f calls = next at hturn
      cases hturn with
      | present | unfillable | early => rfl
      | filled hname hfillable hdependencies _ => exact absurd (h f hf hfillable hdependencies) hname
    rw [fillAllDeferred_cons, hsame]
    exact ih hrest

/-- A second pass changes nothing, whatever the defaults, if and only if the first one left no field that could be filled in. -/
theorem Compiled.withDeferred_again_iff (h : s.Compiled) (values : Record) (calls : Calls) :
    (∀ calls', s.withDeferred (s.withDeferred values calls).1 calls' = ((s.withDeferred values calls).1, calls')) ↔
      s.Complete (s.withDeferred values calls).1 := by
  constructor
  · intro hagain f hf hfillable hdependencies
    have hfilled : f.name ∈ (s.fillAllDeferred s.fields (s.withDeferred values calls).1 calls).1.names :=
      (h.mem_filled_iff hf).mpr (.inr ⟨hfillable, fun d hd => .inl (hdependencies d hd)⟩)
    rwa [← mem_names_withDeferred, hagain calls] at hfilled
  · intro hcomplete calls'
    have hsorted : s.arranged (s.withDeferred values calls).1 = (s.withDeferred values calls).1 :=
      List.mergeSort_of_pairwise ((pairwise_mergeSort _ Prod.fst _).imp decide_eq_true)
    rw [withDeferred_eq _ _ calls', fillAllDeferred_of_complete s.fields (fun _ => id) hcomplete calls', hsorted]

/-- A pass that some field is left for fills in one at least. -/
theorem Compiled.present_lt (h : s.Compiled) (hvalues : ¬ s.Complete values) (calls : Calls) :
    s.present values < s.present (s.withDeferred values calls).1 := by
  simp only [Complete, not_forall] at hvalues
  obtain ⟨f, hf, hfillable, hdependencies, habsent⟩ := hvalues
  have hfilled : f.name ∈ (s.withDeferred values calls).1.names :=
    mem_names_withDeferred.mpr ((h.mem_filled_iff hf).mpr (.inr ⟨hfillable, fun d hd => .inl (hdependencies d hd)⟩))
  have hmore (fields : List Field) : fields.countP (fun g => values.has g.name) ≤
      fields.countP fun g => (s.withDeferred values calls).1.has g.name := by
    refine List.countP_mono_left fun g _ hg => ?_
    rw [Record.has_iff_mem_names] at hg ⊢
    exact mem_names_withDeferred.mpr (subset_fillAllDeferred s s.fields values calls _ hg)
  obtain ⟨earlier, later, hsplit⟩ := List.append_of_mem hf
  have hone := hmore earlier
  have htwo := hmore later
  rw [present, present, hsplit, List.countP_append, List.countP_append, List.countP_cons_of_neg, List.countP_cons_of_pos]
  · omega
  · exact Record.has_iff_mem_names.mpr hfilled
  · rwa [Record.has_iff_mem_names]

theorem Complete.withDeferred (h : s.Complete values) (calls : Calls) : s.Complete (s.withDeferred values calls).1 := by
  rw [withDeferred_eq, fillAllDeferred_of_complete s.fields (fun _ => id) h]
  intro f hf hfillable hdependencies
  exact Record.mem_names_arranged.mpr (h f hf hfillable fun d hd => Record.mem_names_arranged.mp (hdependencies d hd))

/-- Pass after pass, from a record and the calls so far. -/
def passes (s : Schema) (n : Nat) (values : Record) (calls : Calls) : Record × Calls :=
  (fun p => s.withDeferred p.1 p.2)^[n] (values, calls)

theorem passes_succ (s : Schema) (n : Nat) (values : Record) (calls : Calls) : s.passes (n + 1) values calls =
    s.passes n (s.withDeferred values calls).1 (s.withDeferred values calls).2 := rfl

theorem Complete.passes (n : Nat) : ∀ {values : Record} {calls : Calls}, s.Complete values →
    s.Complete (s.passes n values calls).1 := by
  induction n with
  | zero => exact id
  | succ n ih => exact fun h => ih (h.withDeferred _)

/-- Each pass that is not the last one fills in a field, so there are no more of them than absent fields. -/
theorem Compiled.complete_of_passes (h : s.Compiled) (n : Nat) : ∀ {values : Record} {calls : Calls},
    s.fields.length ≤ n + s.present values → s.Complete (s.passes n values calls).1 := by
  induction n with
  | zero =>
    intro values calls hn f hf _ _
    have hall : s.present values = s.fields.length := Nat.le_antisymm List.countP_le_length (by omega)
    exact Record.has_iff_mem_names.mp (List.countP_eq_length.mp hall f hf)
  | succ n ih =>
    intro values calls hn
    by_cases hvalues : s.Complete values
    · exact hvalues.passes (n + 1)
    · have hmore := h.present_lt hvalues calls
      rw [passes_succ]
      exact ih (by omega)

/-- A pass fills in what it can in the order of declaration. Of the fields that may be filled in and have all that they
    depend on in the end, those are left whose dependencies are filled in too late, at their own turn or behind it;
    another pass changes nothing if and only if none is left, and as many passes as there are fields leave none. -/
theorem Compiled.filled_or_late (h : s.Compiled) (values : Record) (calls : Calls) :
    let r := (s.withDeferred values calls).1
    (∀ f ∈ s.fields, s.Fillable f → (∀ d ∈ f.dependencies, d ∈ r.names) →
      (f.name ∈ r.names ↔ f.name ∈ values.names ∨
        ∀ d ∈ f.dependencies, d ∈ values.names ∨ s.Precedes d f.name)) ∧
    ((∀ calls', s.withDeferred r calls' = (r, calls')) ↔ s.Complete r) ∧
    ∀ n, s.fields.length ≤ n → s.Complete (s.passes n values calls).1 := by
  intro r
  refine ⟨fun f hf hfillable hdependencies => ?_, h.withDeferred_again_iff values calls,
    fun n hn => h.complete_of_passes n (hn.trans (Nat.le_add_right _ _))⟩
  rw [mem_names_withDeferred, h.mem_filled_iff hf]
  refine or_congr_right ⟨fun hfilled d hd => (hfilled.2 d hd).imp_right And.right, fun hearlier => ⟨hfillable, fun d hd => ?_⟩⟩
  exact (hearlier d hd).imp_right fun hbefore => ⟨mem_names_withDeferred.mp (hdependencies d hd), hbefore⟩

/-- A field between two others waits for the one behind it, and that one for the one before both: the pass that fills in
    the two has left it by then, and three passes leave none. -/
theorem middle_is_late :
    let field (name : String) (dependencies : List String) : Field :=
      { name, rule := .of .int, default := some (.value (.int 0)), deferred := true, dependencies }
    let s : Schema := ⟨"Chain", [field "first" [], field "middle" ["last"], field "last" ["first"]], {}⟩
    let r := (s.withDeferred [] Calls.none).1
    s.Compiled ∧ "first" ∈ r.names ∧ "last" ∈ r.names ∧ "middle" ∉ r.names ∧ ¬ s.Complete r ∧
      s.Complete (s.passes 3 [] Calls.none).1 := by
  intro field s r
  have hs : s.Compiled := ⟨s.name, s.fields, s.options, rfl⟩
  obtain ⟨hfilled, -, hpasses⟩ := hs.filled_or_late [] Calls.none
  have hfirst : "first" ∈ r.names := mem_names_withDeferred.mpr (by decide)
  have hlast : "last" ∈ r.names := mem_names_withDeferred.mpr (by decide)
  have hmiddle : "middle" ∉ r.names := by
    have hiff := hfilled (field "middle" ["last"]) (by simp [s]) ⟨rfl, rfl⟩ (List.forall_mem_singleton.mpr hlast)
    rw [hiff]
    simp [field, s, Record.names, Precedes]
  refine ⟨hs, hfirst, hlast, hmiddle, fun hcomplete => ?_, hpasses 3 (Nat.le_refl _)⟩
  exact hmiddle (hcomplete (field "middle" ["last"]) (by simp [s]) ⟨rfl, rfl⟩ (List.forall_mem_singleton.mpr hlast))

/-- A pass leaves a field though all that it depends on is there in the end, and another pass fills it in. -/
theorem dependent_left_by_pass :
    let b : Field := { name := "b", rule := .of .int, default := some (.value (.int 2)), deferred := true }
    let a : Field := { name := "a", rule := .of .int, default := some (.value (.int 1)), deferred := true, dependencies := ["b"] }
    let s : Schema := ⟨"P", [a, b], {}⟩
    let r := (s.withDeferred [] Calls.none).1
    s.Compiled ∧ a ∈ s.fields ∧ s.Fillable a ∧ (∀ d ∈ a.dependencies, d ∈ r.names) ∧ a.name ∉ r.names ∧
      s.withDeferred r Calls.none ≠ (r, Calls.none) := by
  intro b a s r
  have hs : s.Compiled := ⟨s.name, s.fields, s.options, rfl⟩
  have hb : ∀ d ∈ a.dependencies, d ∈ r.names := List.forall_mem_singleton.mpr (mem_names_withDeferred.mpr (by decide))
  have ha : a.name ∉ r.names := fun hmem => absurd (mem_names_withDeferred.mp hmem) (by decide)
  refine ⟨hs, List.mem_cons_self, ⟨rfl, rfl⟩, hb, ha, fun hsame => ha ?_⟩
  have hagain : a.name ∈ (s.withDeferred r Calls.none).1.names := mem_names_withDeferred.mpr
    ((hs.mem_filled_iff List.mem_cons_self).mpr (.inr ⟨⟨rfl, rfl⟩, fun d hd => .inl (hb d hd)⟩))
  rwa [hsame] at hagain

/-! ### What a pass leaves of a record -/

/-- A record that has everything another one has, with defaults of fields that are seen beside it: consistent, the fields
    in the order of declaration, and behind them the keys of no field as they were. -/
structure Extends (s : Schema) (values r : Record) : Prop where
  nodup : r.names.Nodup
  kept : ∀ name ∈ values.names, r.get? name = values.get? name
  added : ∀ name ∈ r.names, name ∉ values.names → ∃ f ∈ s.fields, f.name = name ∧ s.Fillable f ∧
    ∃ calls, r.get? name = (f.produce s.options true calls).1
  consistent : s.Consistent {name | name ∈ r.names}
  order : ∃ own : Record, own.names.Sublist (s.fields.map Field.name) ∧
    r = own ++ values.filter fun e => !(s.fields.map Field.name).contains e.1

theorem Adds.nodup (h : s.Adds s.fields values added) (hs : s.Compiled) (hvalues : values.names.Nodup) :
    (values ++ added).names.Nodup := by
  rw [Record.names, List.map_append, List.nodup_append]
  refine ⟨hvalues, hs.nodup_names.sublist h.order, fun name hold other hnew heq => ?_⟩
  exact h.new other hnew (heq ▸ hold)

theorem Compiled.extends_of_consistent (h : s.Compiled) (hvalues : values.names.Nodup)
    (hclosed : s.Consistent {name | name ∈ values.names}) (calls : Calls) :
    s.Extends values (s.withDeferred values calls).1 := by
  obtain ⟨added, hadded, hadds⟩ := exists_adds s s.fields values calls
  have hnodup := hadds.nodup h hvalues
  have hget (name : String) : (s.withDeferred values calls).1.get? name = (values.get? name).or (added.get? name) := by
    rw [withDeferred_eq, hadded, arranged, Record.get?_arranged hnodup, Record.get?, List.lookup_append]
    rfl
  have hconsistent : s.Consistent {name | name ∈ (s.fillAllDeferred s.fields values calls).1.names} :=
    h.consistent_fillAllDeferred s.fields (fun _ => id) hclosed
  refine ⟨?_, fun name hname => ?_, fun name hname hnew => ?_, ?_, ?_⟩
  · rw [withDeferred_eq, hadded]
    exact Record.nodup_names_arranged hnodup _
  · obtain ⟨v, hv⟩ := Record.exists_get?_of_mem hname
    rw [hget, hv, Option.some_or]
  · have hmem : name ∈ added.names := by
      rw [mem_names_withDeferred, hadded, Record.names, List.map_append, List.mem_append] at hname
      exact hname.resolve_left hnew
    obtain ⟨v, hv⟩ := Record.exists_get?_of_mem hmem
    have hentry := (Record.get?_eq_some_iff (h.nodup_names.sublist hadds.order)).mp hv
    obtain ⟨f, hf, hname, hfillable, calls', hproduced⟩ := hadds.default _ hentry
    refine ⟨f, hf, hname, hfillable, calls', ?_⟩
    rw [hget, Record.get?_eq_none_iff.mpr hnew, Option.none_or, hv, hproduced]
  · simpa only [mem_names_withDeferred] using hconsistent
  · obtain ⟨own, hown, harranged⟩ := exists_arranged_eq h.nodup_names hnodup
    have hfields : added.filter (fun e => !(s.fields.map Field.name).contains e.1) = [] :=
      List.filter_eq_nil_iff.mpr fun e he => by simpa using hadds.order.subset (List.mem_map_of_mem he)
    refine ⟨own, hown ▸ List.filter_sublist, ?_⟩
    rw [withDeferred_eq, hadded, arranged, harranged, List.filter_append, hfields, List.append_nil]

/-- A record that is read is consistent, whatever is kept of keys of no field. -/
theorem Compiled.consistent_of_readRecord (h : s.Compiled) {E : Entities} {v : Value} {state t : ParseState} {record : Record}
    (hok : (s.readRecord E v).outcome state = (.ok record, t)) :
    record.names.Nodup ∧ s.Consistent {name | name ∈ record.names} := by
  obtain ⟨r, u, hresolve, hfinalize⟩ := Parse.outcome_bind_eq_ok hok
  have hwithin : r.Within Set.univ (s.unclaimed (givenKeys state.context.options v)) :=
    h.within_of_pass (fun _ _ _ => trivial) (fun _ _ => trivial) hresolve
  have hforeign : ∀ name ∈ r.extras.names, ∀ f ∈ s.fields, f.name ≠ name := by
    rintro name hname f hf rfl
    exact (hwithin.extras f.name hname).2 f hf (.inl (name_mem_keysOf s.options f))
  obtain rfl := outcome_of_yields (h.yields_finalize _ _ _) hfinalize
  refine ⟨Record.nodup_names_insertAll (Record.nodup_names_arranged (nodup_names_rounds s _ hwithin.nodup) _) _, ?_⟩
  intro f hf hname d hd
  obtain ⟨g, hg, rfl⟩ := h.dependency_is_field hf hd
  refine (mem_names_finalized hforeign hg).mpr ((h.isGreatest_settled r.values).1.1 f hf ?_ _ hd)
  exact (mem_names_finalized hforeign hf).mp hname

end Schema

namespace Catalog

variable {c : Catalog} {s : Schema}

/-- A pass over deferred defaults only extends a record in which no field lacks a dependency: what was there is there with
    its value, what comes in are defaults of fields that are seen, still no field lacks a dependency, and the fields stand
    in the order of declaration, the keys of no field behind them as they were. Every record that is parsed is such a one. -/
theorem extends_withDeferred (hs : s.Compiled) :
    (∀ v o calls record ws, (c.parse s v o calls).1 = .ok (record, ws) →
      record.names.Nodup ∧ s.Consistent {name | name ∈ record.names}) ∧
    ∀ values : Record, values.names.Nodup → s.Consistent {name | name ∈ values.names} → ∀ calls,
      s.Extends values (s.withDeferred values calls).1 := by
  refine ⟨fun v o calls record ws hok => ?_, fun values hvalues hclosed => hs.extends_of_consistent hvalues hclosed⟩
  obtain ⟨t, ⟨hread, -⟩, -⟩ := Parse.atRoot_concluded_eq_ok.mp hok
  obtain ⟨o', u, -, hread⟩ := Parse.outcome_bind_eq_ok hread
  exact hs.consistent_of_readRecord hread

/-- A default that was deferred goes before what was parsed, a key of no field stays behind. -/
theorem extends_withDeferred_of_note :
    let rank : Field := { name := "rank", rule := .of .int, default := some (.value (.int 1)), deferred := true,
                          dependencies := ["id"] }
    let id : Field := { name := "id", rule := .of .int }
    let user : Schema := ⟨"User", [rank, id], { addition := some .preserve }⟩
    let values : Record := [("id", .int 7), ("note", .null)]
    let r := (user.withDeferred values Calls.none).1
    user.Compiled ∧ values.names.Nodup ∧ user.Consistent {name | name ∈ values.names} ∧
      r.get? "id" = some (.int 7) ∧ "rank" ∈ r.names ∧ user.Consistent {name | name ∈ r.names} ∧
      ∃ own : Record, own.names.Sublist ["rank", "id"] ∧ r = own ++ [("note", .null)] := by
  intro rank id user values r
  have huser : user.Compiled := ⟨user.name, user.fields, user.options, rfl⟩
  have hnodup : values.names.Nodup := by decide
  have hclosed : user.Consistent {name | name ∈ values.names} := by
    simp [Schema.Consistent, user, rank, id, values, Record.names]
  obtain ⟨-, hkept, -, hconsistent, horder⟩ :=
    (extends_withDeferred (c := { schemas := [user] }) huser).2 values hnodup hclosed Calls.none
  exact ⟨huser, hnodup, hclosed, hkept "id" (by decide), Schema.mem_names_withDeferred.mpr (by decide), hconsistent, horder⟩

end Catalog

end Conform

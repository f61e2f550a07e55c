import Conform.Conformance
import Conform.Proofs.Collecting
import Conform.Proofs.Conversion.Exact
import Conform.Proofs.Schema.Dependencies
import Conform.Proofs.Schema.Unambiguous

/-! Updates. A change is read for the fields that its keys lead to and that may change, and for keys of no
    field; no default comes in, as it does where a whole record is read. What a record has under any other name stays
    as it is: fields that depend on each other alone outlive the pass over dependencies, whatever is put beside them. -/

namespace Conform

open Parse (Gives)

/-- What has been read: values of fields that may change, and of keys that belong to no field. -/
structure Resolved.Within (changed others : Set String) (r : Resolved) : Prop where
  values : ∀ name ∈ r.values.names, name ∈ changed
  nodup : r.values.names.Nodup
  extras : ∀ name ∈ r.extras.names, name ∈ others
  nodup_extras : r.extras.names.Nodup

namespace Schema

variable {s : Schema} {f : Field} {entities : Entities} {pass : Pass} {r : Resolved} {waiting : Waiting} {input : Record}
  {changed others : Set String}

/-! ### What a change reads -/

/-- What has been read, and fields that wait and may change. -/
def Pending (changed others : Set String) (p : Resolved × Waiting) : Prop :=
  p.1.Within changed others ∧ ∀ e ∈ p.2, e.1.name ∈ changed

theorem within_insert (hr : r.Within changed others) (hf : f.name ∈ changed) (w : Value) (supplied : List String) :
    Resolved.Within changed others { r with values := r.values.insert f.name w, supplied } := by
  refine ⟨fun name hname => ?_, Record.nodup_names_insert hr.nodup _ _, hr.extras, hr.nodup_extras⟩
  rcases Record.mem_names_insert.mp hname with rfl | hname
  · exact hf
  · exact hr.values name hname

/-- A default comes in only where a whole record is read. -/
theorem gives_fillIfFull (hr : r.Within changed others) (hf : pass = .full → f.name ∈ changed) :
    Gives (Resolved.Within changed others) (fillIfFull pass f r) := by
  unfold fillIfFull
  split
  case isTrue hfull =>
    refine .bind_any fun o => .bind_any fun found => ?_
    cases found with
    | some v => exact .pure (within_insert hr (hf hfull) v r.supplied)
    | none =>
      simp only
      split
      · exact .bind_any fun _ => .bind_any fun _ => .pure hr
      · exact .pure hr
  case isFalse => exact .pure hr

/-- A field that may change is read, and nothing else. -/
theorem gives_readField (hr : r.Within changed others) (hf : f.name ∈ changed) (v : Value) :
    Gives (Resolved.Within changed others) (readField entities pass f v r) := by
  refine .bind_any fun outcome => ?_
  cases outcome with
  | parsed w => exact .pure (within_insert hr hf w _)
  | preserved w => exact .pure (within_insert hr hf w _)
  | excluded => exact gives_fillIfFull hr fun _ => hf
  | collected => exact .pure hr

/-- A field that is immutable is refused where it is to change. -/
theorem gives_visitGiven (hr : Pending changed others (r, waiting)) (hfull : pass = .full → f.name ∈ changed)
    (hf : f.immutable = false → f.name ∈ changed) (v : Value) :
    Gives (Pending changed others) (visitGiven entities pass f v r waiting) := by
  refine .bind_any fun o => ?_
  by_cases hinput : f.takesNoInput o (some v) = true
  · rw [if_pos hinput]
    exact (gives_fillIfFull hr.1 hfull).bind fun r' hr' => .pure ⟨hr', hr.2⟩
  rw [if_neg hinput]
  by_cases himmutable : (decide (pass = .update) && f.immutable) = true
  · rw [if_pos himmutable]
    exact .bind_any fun _ => .bind_any fun _ => .pure hr
  rw [if_neg himmutable]
  have hname : f.name ∈ changed := by
    cases pass with
    | full => exact hfull rfl
    | update => exact hf (by simpa using himmutable)
  by_cases hwaits : f.discriminator.isSome = true
  · rw [if_pos hwaits]
    refine .pure ⟨hr.1, fun e he => ?_⟩
    rcases List.mem_append.mp he with he | he
    · exact hr.2 e he
    · obtain rfl := List.mem_singleton.mp he
      exact hname
  · rw [if_neg hwaits]
    exact (gives_readField hr.1 hname v).bind fun r' hr' => .pure ⟨hr', hr.2⟩

/-- Of a change, a field without a key that leads to it is left alone. -/
theorem gives_visitField {hits : List String} (hr : Pending changed others (r, waiting))
    (hfull : pass = .full → f.name ∈ changed) (hf : ∀ key ∈ hits, f.immutable = false → f.name ∈ changed) :
    Gives (Pending changed others) (visitField entities pass input hits f r waiting) := by
  refine .bind_any fun o => ?_
  by_cases hhidden : f.isHidden o = true
  · rw [if_pos hhidden]
    exact .pure hr
  rw [if_neg hhidden]
  cases hits with
  | nil => exact (gives_fillIfFull hr.1 hfull).bind fun r' hr' => .pure ⟨hr', hr.2⟩
  | cons key rest =>
    by_cases hconflict : (!rest.isEmpty && !o.ignoresAliasConflicts) = true
    · simp only [if_pos hconflict]
      exact .bind_any fun _ => .bind_any fun _ => .pure hr
    · simp only [if_neg hconflict]
      cases input.get? key with
      | none => exact .pure hr
      | some v => exact gives_visitGiven hr hfull (hf key List.mem_cons_self) v

theorem gives_visitFields {m : Matches} (fields : List Field) : ∀ {r : Resolved} {waiting : Waiting},
    Pending changed others (r, waiting) → (pass = .full → ∀ f ∈ fields, f.name ∈ changed) →
    (∀ f ∈ fields, ∀ key ∈ m.of f.name, f.immutable = false → f.name ∈ changed) →
    Gives (Pending changed others) (visitFields entities pass input m fields r waiting) := by
  induction fields with
  | nil => exact fun hr _ _ => .pure hr
  | cons f rest ih =>
    intro r waiting hr hfull hfields
    obtain ⟨hf, hrest⟩ := List.forall_mem_cons.mp hfields
    exact (gives_visitField hr (fun h => hfull h f List.mem_cons_self) hf).bind fun p hp =>
      ih hp (fun h g hg => hfull h g (List.mem_cons_of_mem f hg)) hrest

theorem gives_readWaiting (waiting : Waiting) : ∀ {r : Resolved}, r.Within changed others →
    (∀ e ∈ waiting, e.1.name ∈ changed) → Gives (Resolved.Within changed others) (readWaiting entities pass waiting r) := by
  induction waiting with
  | nil => exact fun hr _ => .pure hr
  | cons e rest ih =>
    intro r hr hwaiting
    obtain ⟨he, hrest⟩ := List.forall_mem_cons.mp hwaiting
    exact (gives_readField hr he e.2).bind fun r' hr' => ih hr' hrest

theorem gives_visitExcess {key : String} (hr : r.Within changed others) (hkey : key ∈ others) (v : Value) :
    Gives (fun p : Bool × Resolved => p.2.Within changed others) (visitExcess entities key v r) := by
  have hkept (w : Value) : Resolved.Within changed others { r with extras := r.extras.insert key w } := by
    refine ⟨hr.values, hr.nodup, fun name hname => ?_, Record.nodup_names_insert hr.nodup_extras _ _⟩
    rcases Record.mem_names_insert.mp hname with rfl | hname
    · exact hkey
    · exact hr.extras name hname
  refine .bind_any fun o => ?_
  cases o.additionRule with
  | some rule =>
    refine .bind_any fun outcome => ?_
    cases outcome.value? with
    | some w => exact .pure (hkept w)
    | none => exact .pure hr
  | none =>
    cases o.excessPolicy with
    | ignore => exact .pure hr
    | preserve => exact .pure (hkept v)
    | reject => exact .pure hr

theorem gives_visitExcesses (keys : List String) : ∀ {r : Resolved}, r.Within changed others →
    (∀ key ∈ keys, key ∈ others) →
    Gives (fun p : List String × Resolved => p.2.Within changed others) (visitExcesses entities input keys r) := by
  induction keys with
  | nil => exact fun hr _ => .pure hr
  | cons key rest ih =>
    intro r hr hkeys
    obtain ⟨hkey, hrest⟩ := List.forall_mem_cons.mp hkeys
    unfold visitExcesses
    cases input.get? key with
    | none => exact ih hr hrest
    | some v =>
      exact (gives_visitExcess hr hkey v).bind fun p hp => (ih hp hrest).bind fun q hq => .pure hq

/-! ### What a change may touch -/

/-- The keys that an input gives: those of the map that it is under some options. -/
def givenKeys (o : Options) (v : Value) : List String :=
  match o.convert v .map with
  | .ok (.map entries) => (Record.ofEntries entries).names
  | _ => []

/-- The record that an input spells under some options. -/
def givenRecord (o : Options) (v : Value) : Record :=
  match o.convert v .map with
  | .ok (.map entries) => Record.ofEntries entries
  | _ => []

/-- The names of the fields that some keys lead to and that may change. -/
def changeable (s : Schema) (keys : List String) : Set String :=
  {name | ∃ f ∈ s.fields, f.name = name ∧ f.immutable = false ∧ ∃ key ∈ keys, Claims s.options f key}

/-- Those of some keys that lead to no field. -/
def unclaimed (s : Schema) (keys : List String) : Set String :=
  {key | key ∈ keys ∧ ∀ f ∈ s.fields, ¬ Claims s.options f key}

theorem names_givenRecord (o : Options) (v : Value) :
    (givenRecord o v).names.Nodup ∧ (givenRecord o v).names = givenKeys o v := by
  unfold givenRecord givenKeys
  rcases o.convert v .map with cause | w
  · exact ⟨List.nodup_nil, rfl⟩
  · cases w with
    | map entries => exact ⟨Record.nodup_names_ofEntries entries, rfl⟩
    | _ => exact ⟨List.nodup_nil, rfl⟩

/-- What is read of an input at first is the record that it spells. -/
theorem eq_givenRecord {v : Value} {state t : ParseState} (h : (s.inputRecord v).outcome state = (.ok input, t)) :
    input = givenRecord state.context.options v ∧ t = state := by
  unfold inputRecord at h
  rw [Parse.outcome_bind_of_ok (Parse.outcome_options state)] at h
  unfold givenRecord
  cases hconvert : state.context.options.convert v .map with
  | error cause =>
    rw [hconvert] at h
    obtain ⟨_, _, -, h⟩ := Parse.outcome_bind_eq_ok h
    cases h
  | ok w =>
    rw [hconvert] at h
    cases w with
    | map entries =>
      cases h
      exact ⟨rfl, rfl⟩
    | _ =>
      obtain ⟨_, _, -, h⟩ := Parse.outcome_bind_eq_ok h
      cases h

/-- A map is read as it is. -/
theorem convert_map (o : Options) (entries : List (Value × Value)) : o.convert (.map entries) .map = .ok (.map entries) :=
  Registry.convert_of_isExact _ rfl

theorem givenRecord_map (o : Options) (entries : List (Value × Value)) :
    givenRecord o (.map entries) = Record.ofEntries entries := by
  rw [givenRecord, convert_map]

theorem outcome_inputRecord {v : Value} {state : ParseState} {entries : List (Value × Value)}
    (hmap : state.context.options.convert v .map = .ok (.map entries)) :
    (s.inputRecord v).outcome state = (.ok (givenRecord state.context.options v), state) := by
  rw [inputRecord, Parse.outcome_bind_of_ok (Parse.outcome_options state), givenRecord, hmap]
  rfl

/-- What is read is that of fields that a change may touch, or of all where a whole record is read. -/
theorem Compiled.within_of_pass (h : s.Compiled) {v : Value} {state t : ParseState}
    (hfull : pass = .full → ∀ f ∈ s.fields, f.name ∈ changed)
    (hchanged : s.changeable (givenKeys state.context.options v) ⊆ changed)
    (hok : (s.resolve entities pass v).outcome state = (.ok r, t)) :
    r.Within changed (s.unclaimed (givenKeys state.context.options v)) := by
  obtain ⟨input, u, hinput, hok⟩ := Parse.outcome_bind_eq_ok hok
  obtain ⟨hrecord, -⟩ := eq_givenRecord hinput
  obtain ⟨hnodup, hnames⟩ := names_givenRecord state.context.options v
  rw [← hrecord] at hnodup hnames
  rw [← hnames] at hchanged ⊢
  obtain ⟨o, u', -, hok⟩ := Parse.outcome_bind_eq_ok hok
  have hm := matchKeys_cases s o input.names
  have hstart : Pending changed (s.unclaimed input.names) (⟨[], [], []⟩, []) :=
    ⟨⟨by simp [Record.names], List.nodup_nil, by simp [Record.names], List.nodup_nil⟩, by simp⟩
  have hfields : ∀ f ∈ s.fields, ∀ key ∈ (s.matchKeys o input.names).of f.name, f.immutable = false →
      f.name ∈ changed := by
    intro f hf key hkey himmutable
    obtain ⟨hgiven, g, hg, hname, hclaim⟩ := ((h.mem_matches_iff hnodup hm).1 f.name).mp hkey
    obtain rfl := h.eq_of_name hg hf hname
    exact hchanged ⟨g, hf, rfl, himmutable, key, hgiven, hclaim⟩
  have hexcess : ∀ key ∈ (s.matchKeys o input.names).excess, key ∈ s.unclaimed input.names :=
    fun key hkey => (h.mem_matches_iff hnodup hm).2.mp hkey
  refine Parse.Gives.elim ?_ hok
  refine (gives_visitFields s.fields hstart hfull hfields).bind fun p hp => ?_
  refine (gives_readWaiting p.2 hp.1 hp.2).bind fun r hr => ?_
  refine (gives_visitExcesses _ hr hexcess).bind fun q hq => ?_
  obtain ⟨refused, r'⟩ := q
  dsimp only
  split
  · exact .pure hq
  · exact .bind_any fun _ => .bind_any fun _ => .pure hq

/-- A change is read for no more than it may touch. -/
theorem Compiled.within_of_resolve (h : s.Compiled) {v : Value} {state t : ParseState}
    (hok : (s.resolve entities .update v).outcome state = (.ok r, t)) :
    r.Within (s.changeable (givenKeys state.context.options v)) (s.unclaimed (givenKeys state.context.options v)) :=
  h.within_of_pass (fun hfull => by cases hfull) Set.Subset.rfl hok

/-! ### What a change leaves -/

/-- Under a name that a change may not touch, a record has what it had before. -/
theorem Compiled.get?_of_readUpdate (h : s.Compiled) {current result : Record} (hcurrent : current.names.Nodup)
    (hclosed : s.Consistent {name | name ∈ current.names}) {changes : Value} {state t : ParseState}
    (hok : (s.readUpdate entities current changes).outcome state = (.ok result, t)) {name : String}
    (hchanged : name ∉ s.changeable (givenKeys state.context.options changes))
    (hothers : name ∉ s.unclaimed (givenKeys state.context.options changes)) :
    result.get? name = current.get? name := by
  obtain ⟨r, u, hresolve, hfinalize⟩ := Parse.outcome_bind_eq_ok hok
  have hwithin := h.within_of_resolve hresolve
  have hvalues : (current.insertAll r.values).names.Nodup := Record.nodup_names_insertAll hcurrent _
  have hextra : r.extras.get? name = none := Record.get?_eq_none_iff.mpr fun hname => hothers (hwithin.extras name hname)
  have hvalue : (current.insertAll r.values).get? name = current.get? name := by
    have hnone : r.values.get? name = none := Record.get?_eq_none_iff.mpr fun hname => hchanged (hwithin.values name hname)
    rw [Record.get?_insertAll _ _ hwithin.nodup, hnone, Option.none_or]
  obtain rfl := outcome_of_yields (h.yields_finalize _ _ _) hfinalize
  rw [get?_finalized hvalues hwithin.nodup_extras, hextra, Option.none_or, ← hvalue]
  by_cases hname : name ∈ current.names
  · -- The names of the record are consistent, so they outlive the rounds, with whatever stands beside them.
    have hsubset : ∀ n ∈ {n | n ∈ current.names}, n ∈ (current.insertAll r.values).names := by
      intro n hn
      by_contra hgone
      rw [← Record.get?_eq_none_iff, Record.get?_insertAll _ _ hwithin.nodup, Option.or_eq_none_iff] at hgone
      exact Record.get?_eq_none_iff.mp hgone.2 hn
    exact get?_rounds s _ _ name (hclosed.subset_rounds hsubset _ name hname)
  · have hgone : name ∉ (current.insertAll r.values).names := by
      rw [← Record.get?_eq_none_iff, hvalue]
      exact Record.get?_eq_none_iff.mpr hname
    rw [Record.get?_eq_none_iff.mpr hgone, Record.get?_eq_none_iff]
    exact fun hkept => hgone (mem_names_of_rounds hkept)

end Schema

namespace Catalog

/-- What an update gives is read of the changes at the root. -/
theorem readUpdate_of_update {c : Catalog} {s : Schema} {current result : Record} {changes : Value} {o : Options}
    {calls : Calls} (hok : (c.update s current changes o calls).1 = .ok result) :
    ∃ t, (s.readUpdate (c.entities (s.options.merge o)) current changes).outcome ⟨.root (s.options.merge o), calls⟩ =
      (.ok result, t) := by
  unfold update at hok
  rw [Parse.atRoot_options, Parse.atRoot_value_eq_ok] at hok
  obtain ⟨ws, hok⟩ := hok
  obtain ⟨t, ⟨hread, -⟩, -⟩ := Parse.atRoot_concluded_eq_ok.mp hok
  exact ⟨t, hread⟩

/-- An update touches only what it is given: a field that no key of the changes leads to, a field that is
    immutable, and a key of no field that is not among those of the changes are there as they were before, or
    absent as they were before, if all dependencies of the fields that were there were there too. -/
theorem get?_update {c : Catalog} {s : Schema} (hs : s.Compiled) {current result : Record}
    (hcurrent : current.names.Nodup) (hclosed : s.Consistent {name | name ∈ current.names}) {changes : Value}
    {o : Options} {calls : Calls} (hok : (c.update s current changes o calls).1 = .ok result) :
    (∀ f ∈ s.fields, (f.immutable = true ∨
        ∀ key ∈ Schema.givenKeys (s.options.merge o) changes, ¬ Schema.Claims s.options f key) →
      result.get? f.name = current.get? f.name) ∧
    ∀ name, (∀ f ∈ s.fields, f.name ≠ name) → name ∉ Schema.givenKeys (s.options.merge o) changes →
      result.get? name = current.get? name := by
  obtain ⟨t, hread⟩ := readUpdate_of_update hok
  refine ⟨fun f hf huntouched => ?_, fun name hname hgiven => ?_⟩
  · refine hs.get?_of_readUpdate hcurrent hclosed hread ?_ ?_
    · rintro ⟨g, hg, hname, himmutable, key, hkey, hclaim⟩
      obtain rfl := hs.eq_of_name hg hf hname
      rcases huntouched with huntouched | huntouched
      · rw [huntouched] at himmutable
        cases himmutable
      · exact huntouched key hkey hclaim
    · rintro ⟨-, hnone⟩
      exact hnone f hf (.inl (Schema.name_mem_keysOf s.options f))
  · refine hs.get?_of_readUpdate hcurrent hclosed hread ?_ ?_
    · rintro ⟨f, hf, heq, -⟩
      exact hname f hf heq
    · rintro ⟨hkey, -⟩
      exact hgiven hkey

/-- One field is changed; one that is immutable, one that depends on it, one with a default, and a key of no field
    stay as they are. -/
theorem update_person :
    let person : Schema := ⟨"Person", [{ name := "id", rule := .of .int, immutable := true },
      { name := "name", rule := .of .str }, { name := "nick", rule := .of .str, dependencies := ["id"] },
      { name := "age", rule := .of .int, default := some (.value (.int 0)) }], {}⟩
    let current : Record := [("id", .int 7), ("name", .str "Ann"), ("nick", .str "A"), ("note", .null)]
    let changes : Value := .map [(.str "name", .str "Bea")]
    let result : Record := person.arranged [("id", .int 7), ("name", .str "Bea"), ("nick", .str "A"), ("note", .null)]
    let byFields : Options := { dataFirstSearch := some false }
    person.Compiled ∧ current.names.Nodup ∧ person.Consistent {name | name ∈ current.names} ∧
      (update { schemas := [person] } person current changes byFields Calls.none).1 = .ok result ∧
      result.get? "id" = some (.int 7) ∧ result.get? "nick" = some (.str "A") ∧ result.get? "age" = none ∧
      result.get? "note" = some .null := by
  intro person current changes result byFields
  have hperson : person.Compiled := ⟨person.name, person.fields, person.options, rfl⟩
  have hcurrent : current.names.Nodup := by decide
  have hclosed : person.Consistent {name | name ∈ current.names} := by
    simp [Schema.Consistent, person, current, Record.names]
  have hok : (update { schemas := [person] } person current changes byFields Calls.none).1 = .ok result := rfl
  have hgiven : Schema.givenKeys (person.options.merge byFields) changes = ["name"] := rfl
  obtain ⟨hfields, hothers⟩ := get?_update hperson hcurrent hclosed hok
  rw [hgiven] at hfields hothers
  have hunclaimed (f : Field) (hkey : "name" ∉ Schema.keysOf {} f) (hcase : f.ignoresCase {} = false) :
      ∀ key ∈ ["name"], ¬ Schema.Claims {} f key := by
    simp [Schema.Claims, hkey, hcase]
  refine ⟨hperson, hcurrent, hclosed, hok, ?_, ?_, ?_, ?_⟩
  · exact hfields { name := "id", rule := .of .int, immutable := true } (by simp [person]) (.inl rfl)
  · exact hfields { name := "nick", rule := .of .str, dependencies := ["id"] } (by simp [person])
      (.inr (hunclaimed _ (by decide) rfl))
  · exact hfields { name := "age", rule := .of .int, default := some (.value (.int 0)) } (by simp [person])
      (.inr (hunclaimed _ (by decide) rfl))
  · exact hothers "note" (by simp [person]) (by decide)

end Catalog

end Conform

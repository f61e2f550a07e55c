import Conform.Proofs.Schema.Update
import Conform.Proofs.Schema.Waiting

/-! Discriminated fields. A field with a discriminator is read by the rule for its sibling's final value, unless the
    sibling is itself among the fields that wait and not read before it: then it is read by its own rule. An update
    reads by what the changes say alone, so there a sibling that the changes leave out has no part in it, whatever
    the record has under its name. -/

namespace Conform

open Parse

namespace Schema

/-- The fields that wait where an input is read, with the values that they take from it. -/
def awaiting (s : Schema) (pass : Pass) (o : Options) (v : Value) : Waiting :=
  s.fields.filterMap fun f =>
    f.awaits? pass o (givenRecord o v) ((s.matchKeys o (givenRecord o v).names).of f.name)

variable {s : Schema} {E : Entities} {pass : Pass} {f : Field} {v w : Value} {r : Resolved} {input : Record}
  {before behind : Waiting} {state t : ParseState}

theorem gives_visitExcess_values (E : Entities) (key : String) (v : Value) (r : Resolved) :
    Gives (fun x : Bool × Resolved => x.2.values = r.values) (visitExcess E key v r) := by
  refine .bind_any fun o => ?_
  cases o.additionRule with
  | some rule =>
    refine .bind_any fun outcome => ?_
    cases outcome.value? with
    | some w => exact .pure rfl
    | none => exact .pure rfl
  | none => cases o.excessPolicy <;> exact .pure rfl

theorem gives_visitExcesses_values (E : Entities) (input : Record) (keys : List String) : ∀ r : Resolved,
    Gives (fun x : List String × Resolved => x.2.values = r.values) (visitExcesses E input keys r) := by
  induction keys with
  | nil => exact fun r => .pure rfl
  | cons key rest ih =>
    intro r
    unfold visitExcesses
    cases input.get? key with
    | none => exact ih r
    | some v =>
      refine (gives_visitExcess_values E key v r).bind fun x hx => ?_
      exact (ih x.2).bind fun y hy => .pure (hy.trans hx)

theorem Compiled.nodup_names_awaiting (h : s.Compiled) (pass : Pass) (o : Options) (v : Value) :
    (Waiting.names (s.awaiting pass o v)).Nodup := by
  have hsublist : (Waiting.names (s.awaiting pass o v)).Sublist (s.fields.map Field.name) := by
    unfold awaiting Waiting.names
    induction s.fields with
    | nil => exact .refl []
    | cons f rest ih =>
      rw [List.filterMap_cons]
      cases hawaits : f.awaits? pass o (givenRecord o v) ((s.matchKeys o (givenRecord o v).names).of f.name) with
      | none => exact ih.cons f.name
      | some e =>
        rw [List.map_cons, List.map_cons, Field.eq_of_awaits? hawaits]
        exact ih.cons_cons f.name
  exact h.nodup_names.sublist hsublist

theorem Compiled.isSome_awaits? (h : s.Compiled) {o : Options} {name : String}
    (hname : name ∈ Waiting.names (s.awaiting pass o v)) (hf : f ∈ s.fields) (heq : f.name = name) :
    (f.awaits? pass o (givenRecord o v) ((s.matchKeys o (givenRecord o v).names).of f.name)).isSome := by
  obtain ⟨e, he, rfl⟩ := List.mem_map.mp hname
  obtain ⟨g, hg, hawaits⟩ := List.mem_filterMap.mp he
  obtain rfl := h.eq_of_name hf hg (heq.trans (congrArg Field.name (Field.eq_of_awaits? hawaits)))
  exact Option.isSome_of_mem hawaits

/-- At its turn a field that waits finds the final values of all fields but itself and those that wait behind it. -/
theorem Compiled.turn_of_resolve (h : s.Compiled) (hok : (s.resolve E pass v).outcome state = (.ok r, t))
    (hsplit : s.awaiting pass state.context.options v = before ++ (f, w) :: behind) :
    ∃ found : Record, ReadBy E (f.ruleFor found) f w state.context r.values ∧
      ∀ name, found.get? name = if name ∈ Waiting.names ((f, w) :: behind) then none else r.values.get? name := by
  have hnodup := h.nodup_names_awaiting pass state.context.options v
  obtain ⟨input, u, hinput, hok⟩ := outcome_bind_eq_ok hok
  obtain ⟨rfl, rfl⟩ := eq_givenRecord hinput
  rw [outcome_bind_of_ok (outcome_options u)] at hok
  obtain ⟨x, u', hvisit, hok⟩ := outcome_bind_eq_ok hok
  obtain ⟨hplace, hwaiting, hvalues⟩ := visited_of_visitFields s.fields hvisit
  change x.2 = s.awaiting pass u.context.options v at hwaiting
  obtain ⟨q, u'', hread, hok⟩ := outcome_bind_eq_ok hok
  obtain ⟨y, _, hexcess, hok⟩ := outcome_bind_eq_ok hok
  -- Keys of no field leave the values of fields as they are.
  have hrest : r.values = q.values := by
    have hlast : r = y.2 := by
      refine Gives.elim (P := (· = y.2)) ?_ hok
      obtain ⟨refused, last⟩ := y
      simp only
      split
      · exact .pure rfl
      · exact .bind_any fun _ => .bind_any fun _ => .pure rfl
    rw [hlast]
    exact (gives_visitExcesses_values E _ _ q).elim hexcess
  rw [hwaiting, hsplit] at hread
  obtain ⟨found, hturn, hfound⟩ := turn_of_readWaiting before hread (hsplit ▸ hnodup)
  refine ⟨found.values, hturn.imp hplace fun w hw => ?_, fun name => ?_⟩
  · rw [hrest]
    exact hw
  · rw [hfound name, hrest]
    split
    · rename_i hname
      rw [hvalues name fun g hg heq => h.isSome_awaits? ?_ hg heq]
      · rfl
      · rw [hsplit, Waiting.names, List.map_append]
        exact List.mem_append_right _ hname
    · rfl

/-- A field that waits is read by the rule for the value that its sibling has in the end; but if its sibling is the
    field itself or waits behind it, by its own rule. -/
theorem Compiled.readBy_of_resolve (h : s.Compiled) (hok : (s.resolve E pass v).outcome state = (.ok r, t))
    (hsplit : s.awaiting pass state.context.options v = before ++ (f, w) :: behind) {d : Discriminator}
    (hd : f.discriminator = some d) :
    ReadBy E (if d.field ∈ Waiting.names ((f, w) :: behind) then f.rule else f.ruleFor r.values) f w state.context
      r.values := by
  obtain ⟨found, hturn, hfound⟩ := h.turn_of_resolve hok hsplit
  have hsibling := hfound d.field
  split <;> rename_i hname
  · rw [if_pos hname] at hsibling
    rwa [Field.ruleFor_of_absent hd hsibling] at hturn
  · rw [if_neg hname] at hsibling
    have hrule : f.ruleFor found = f.ruleFor r.values := by
      refine Field.ruleFor_congr fun d' hd' => ?_
      cases hd.symm.trans hd'
      exact hsibling
    rwa [hrule] at hturn

/-- A payload is read by its own rule where its kind waits behind it. -/
theorem readBy_payload :
    let payload : Field := { name := "payload", rule := .of .str, discriminator := some ⟨"kind", [(.str "count", .of .int)]⟩ }
    let kind : Field := { name := "kind", rule := .of .str, discriminator := some ⟨"family", [(.str "x", .of .str)]⟩ }
    let s : Schema := ⟨"Message", [payload, kind, { name := "family", rule := .of .str }], {}⟩
    let v : Value := .map [(.str "family", .str "x"), (.str "kind", .str "count"), (.str "payload", .str "3")]
    let state : ParseState := ⟨.root { dataFirstSearch := some false }, Calls.none⟩
    ∃ r t, s.Compiled ∧ (s.resolve (fun _ => .plain) .full v).outcome state = (.ok r, t) ∧
      s.awaiting .full state.context.options v = [] ++ (payload, .str "3") :: [(kind, .str "count")] ∧
      ReadBy (fun _ => .plain) payload.rule payload (.str "3") state.context r.values := by
  intro payload kind s v state
  have hs : s.Compiled := ⟨s.name, s.fields, s.options, rfl⟩
  have hsplit : s.awaiting .full state.context.options v = [] ++ (payload, .str "3") :: [(kind, .str "count")] := rfl
  have hreads : ((s.resolve (fun _ => .plain) .full v).outcome state).1.isOk = true := by decide +kernel
  cases hok : (s.resolve (fun _ => .plain) .full v).outcome state with
  | mk x t =>
    rw [hok] at hreads
    cases x with
    | error f => cases hreads
    | ok r =>
      have hread := hs.readBy_of_resolve hok hsplit rfl
      rw [if_pos (by decide)] at hread
      exact ⟨r, t, hs, rfl, hsplit, hread⟩

/-- Whether a value is read under a name. -/
def reads (s : Schema) (v : Value) (o : Options) (name : String) (w : Value) : Bool :=
  match ((s.resolve (fun _ => .plain) .full v).outcome ⟨.root o, Calls.none⟩).1 with
  | .ok r => (r.values.get? name).any (·.same w)
  | .error _ => false

/-- A kind that waits behind the payload has no say in how this is read, though it is the same as where it waits before
    it. -/
theorem kind_unread :
    let select : Discriminator := ⟨"kind", [(.str "count", .of .int)]⟩
    let payload : Field := { name := "payload", rule := .of .str, discriminator := some select }
    let kind : Field := { name := "kind", rule := .of .str, discriminator := some ⟨"family", [(.str "x", .of .str)]⟩ }
    let family : Field := { name := "family", rule := .of .str }
    let v : Value := .map [(.str "family", .str "x"), (.str "kind", .str "count"), (.str "payload", .str "3")]
    let o : Options := { dataFirstSearch := some false }
    let late : Schema := ⟨"Message", [payload, kind, family], {}⟩
    let early : Schema := ⟨"Message", [kind, payload, family], {}⟩
    select.select? (.str "count") = some (.of .int) ∧
      late.reads v o "kind" (.str "count") ∧ late.reads v o "payload" (.str "3") ∧
      early.reads v o "kind" (.str "count") ∧ early.reads v o "payload" (.int 3) := by
  intro select payload kind family v o late early
  have hselect : select.select? (.str "count") = some (.of .int) := by
    simp [select, Discriminator.select?, Value.equivalent, Value.same]
  exact ⟨hselect, by decide +kernel, by decide +kernel, by decide +kernel, by decide +kernel⟩

/-! ### Updates -/

/-- A field that waits in an update is read by its own rule where the changes leave its sibling out, whatever stands
    there under the sibling's name. -/
theorem Compiled.readBy_of_readUpdate (h : s.Compiled) {current result : Record} (hcurrent : current.names.Nodup)
    {changes : Value} (hok : (s.readUpdate E current changes).outcome state = (.ok result, t))
    (hf : (f, w) ∈ s.awaiting .update state.context.options changes) {d : Discriminator}
    (hd : f.discriminator = some d) (hsibling : d.field ∉ s.changeable (givenKeys state.context.options changes))
    (hkept : f.name ∈ result.names) : ReadBy E f.rule f w state.context result := by
  obtain ⟨r, u, hresolve, hfinalize⟩ := outcome_bind_eq_ok hok
  have hwithin := h.within_of_resolve hresolve
  have hread : ReadBy E f.rule f w state.context r.values := by
    obtain ⟨before, behind, hsplit⟩ := List.append_of_mem hf
    have habsent : r.values.get? d.field = none :=
      Record.get?_eq_none_iff.mpr fun hname => hsibling (hwithin.values d.field hname)
    have hturn := h.readBy_of_resolve hresolve hsplit hd
    rwa [Field.ruleFor_of_absent hd habsent, ite_self] at hturn
  refine hread.imp (.refl _) fun x hx => ?_
  obtain rfl := outcome_of_yields (h.yields_finalize _ _ _) hfinalize
  have hvalues : (current.insertAll r.values).names.Nodup := Record.nodup_names_insertAll hcurrent _
  have hextra : r.extras.get? f.name = none := by
    obtain ⟨g, hg, hawaits⟩ := List.mem_filterMap.mp hf
    obtain rfl := Field.eq_of_awaits? hawaits
    exact Record.get?_eq_none_iff.mpr fun hname => (hwithin.extras _ hname).2 _ hg (.inl (name_mem_keysOf s.options _))
  have hresult := get?_finalized (s := s) hvalues hwithin.nodup_extras f.name
  rw [hextra, Option.none_or] at hresult
  have hsettled : f.name ∈ (s.settled (current.insertAll r.values)).names := by
    rw [← Record.has_iff_mem_names, ← Record.isSome_get?] at hkept ⊢
    rwa [← hresult]
  rw [hresult, settled, get?_rounds s _ _ f.name hsettled, Record.get?_insertAll _ _ hwithin.nodup, hx, Option.some_or]

end Schema

namespace Catalog

/-- In an update a field with a discriminator is read by its own rule if no key of the changes leads to its sibling. -/
theorem readBy_of_update {c : Catalog} {s : Schema} (hs : s.Compiled) {current result : Record}
    (hcurrent : current.names.Nodup) {changes : Value} {o : Options} {calls : Calls}
    (hok : (c.update s current changes o calls).1 = .ok result) {f : Field} {w : Value}
    (hf : (f, w) ∈ s.awaiting .update (s.options.merge o) changes) {d : Discriminator}
    (hd : f.discriminator = some d)
    (hsibling : ∀ g ∈ s.fields, g.name = d.field →
      ∀ key ∈ Schema.givenKeys (s.options.merge o) changes, ¬ Schema.Claims s.options g key)
    (hkept : f.name ∈ result.names) :
    Schema.ReadBy (c.entities (s.options.merge o)) f.rule f w (.root (s.options.merge o)) result := by
  obtain ⟨t, hread⟩ := readUpdate_of_update hok
  refine hs.readBy_of_readUpdate hcurrent hread hf hd ?_ hkept
  rintro ⟨g, hg, hname, -, key, hkey, hclaim⟩
  exact hsibling g hg hname key hkey hclaim

/-- A payload is read by its own rule where its kind is that of the record. -/
theorem readBy_payload_of_update :
    let payload : Field := { name := "payload", rule := .of .str, discriminator := some ⟨"kind", [(.str "count", .of .int)]⟩ }
    let kind : Field := { name := "kind", rule := .of .str }
    let s : Schema := ⟨"Message", [kind, payload], {}⟩
    let current : Record := [("kind", .str "count"), ("payload", .int 1)]
    let changes : Value := .map [(.str "payload", .str "7")]
    let result : Record := s.arranged [("kind", .str "count"), ("payload", .str "7")]
    let o : Options := { dataFirstSearch := some false }
    s.Compiled ∧ current.names.Nodup ∧ (update {} s current changes o Calls.none).1 = .ok result ∧
      (payload, .str "7") ∈ s.awaiting .update (s.options.merge o) changes ∧
      Schema.ReadBy (entities {} (s.options.merge o)) payload.rule payload (.str "7") (.root (s.options.merge o))
        result := by
  intro payload kind s current changes result o
  have hs : s.Compiled := ⟨s.name, s.fields, s.options, rfl⟩
  have hcurrent : current.names.Nodup := by decide
  have hok : (update {} s current changes o Calls.none).1 = .ok result := rfl
  have hf : (payload, .str "7") ∈ s.awaiting .update (s.options.merge o) changes := List.mem_singleton.mpr rfl
  have hcase : kind.ignoresCase {} = false := rfl
  have hgiven : Schema.givenKeys (s.options.merge o) changes = ["payload"] := rfl
  refine ⟨hs, hcurrent, hok, hf, readBy_of_update hs hcurrent hok hf rfl ?_ ?_⟩
  · rw [hgiven]
    have hkey : "payload" ∉ Schema.keysOf {} kind := by decide
    have hunclaimed : ∀ key ∈ ["payload"], ¬ Schema.Claims {} kind key := by simp [Schema.Claims, hkey, hcase]
    intro g hg hname
    rcases List.mem_pair.mp hg with rfl | rfl
    · exact hunclaimed
    · exact absurd hname (by decide)
  · have hnames : (result.names).Perm ["kind", "payload"] := (Record.perm_arranged _ _).map Prod.fst
    exact hnames.mem_iff.mpr (by decide)

/-- An update stores a payload that the rule for the record's kind does not give. -/
theorem kind_unread_of_update :
    let select : Discriminator := ⟨"kind", [(.str "count", .of .int)]⟩
    let payload : Field := { name := "payload", rule := .of .str, discriminator := some select }
    let s : Schema := ⟨"Message", [{ name := "kind", rule := .of .str }, payload], {}⟩
    let current : Record := [("kind", .str "count"), ("payload", .int 1)]
    let o : Options := { dataFirstSearch := some false }
    s.reads (.map [(.str "kind", .str "count"), (.str "payload", .str "7")]) o "payload" (.int 7) ∧
      select.select? (.str "count") = some (.of .int) ∧
      (update {} s current (.map [(.str "payload", .str "7")]) o Calls.none).1 =
        .ok (s.arranged [("kind", .str "count"), ("payload", .str "7")]) := by
  intro select payload s current o
  have hselect : select.select? (.str "count") = some (.of .int) := by
    simp [select, Discriminator.select?, Value.equivalent, Value.same]
  exact ⟨by decide +kernel, hselect, rfl⟩

end Catalog

end Conform

import Conform.Proofs.Schema.Required

/-! Locality. A visit of a field puts what it reads beside what was read before, whatever that is, and looks at the
    input under the keys that lead to the field alone. So the other entries of an input, and the order of its keys, have no
    part in what a field without a discriminator has in the end, unless it goes with what it depends on. -/

namespace Conform

open Parse

namespace Resolved

/-- Nothing has been read. -/
def empty : Resolved := ⟨[], [], []⟩

/-- What has been read, and beside it what was read of one more field. -/
def beside (r q : Resolved) : Resolved := ⟨r.values.insertAll q.values, q.supplied ++ r.supplied, r.extras⟩

end Resolved

namespace Schema

variable {s : Schema} {E : Entities} {pass : Pass} {f : Field} {v : Value} {o : Options} {r : Resolved} {waiting : Waiting}
  {input input' : Record} {hits : List String} {m : Matches} {state t : ParseState}

/-! ### Visits apart -/

theorem fillAbsent_eq (f : Field) (r : Resolved) :
    fillAbsent f r = fillAbsent f .empty >>= fun q => pure (r.beside q) := by
  unfold fillAbsent
  rw [bind_assoc]
  refine bind_congr fun o => ?_
  rw [bind_assoc]
  refine bind_congr fun found => ?_
  cases found with
  | some v => rfl
  | none =>
    simp only
    split
    · simp only [bind_assoc, pure_bind]
      rfl
    · rfl

theorem fillIfFull_eq (pass : Pass) (f : Field) (r : Resolved) :
    fillIfFull pass f r = fillIfFull pass f .empty >>= fun q => pure (r.beside q) := by
  unfold fillIfFull
  split
  · exact fillAbsent_eq f r
  · rfl

/-- A field without a discriminator is read by the same rule beside any values. -/
theorem readField_eq (E : Entities) (pass : Pass) (hf : f.discriminator = none) (v : Value) (r : Resolved) :
    readField E pass f v r = readField E pass f v .empty >>= fun q => pure (r.beside q) := by
  have hrule : f.ruleFor r.values = f.ruleFor Resolved.empty.values := by simp [Field.ruleFor, hf]
  unfold readField Field.parseValue
  rw [hrule, bind_assoc]
  refine bind_congr fun outcome => ?_
  cases outcome with
  | parsed w | preserved w => rfl
  | excluded => exact fillIfFull_eq pass f r
  | collected => rfl

theorem visitGiven_eq (E : Entities) (pass : Pass) (f : Field) (v : Value) (r : Resolved) (waiting : Waiting) :
    visitGiven E pass f v r waiting =
      visitGiven E pass f v .empty [] >>= fun y => pure (r.beside y.1, waiting ++ y.2) := by
  unfold visitGiven
  rw [bind_assoc]
  refine bind_congr fun o => ?_
  split
  · rw [fillIfFull_eq pass f r]
    simp only [bind_assoc, pure_bind, List.append_nil]
  split
  · simp only [bind_assoc, pure_bind, List.append_nil]
    rfl
  split
  · rfl
  · next hwaits =>
    rw [readField_eq E pass (by simpa using hwaits) v r]
    simp only [bind_assoc, pure_bind, List.append_nil]

/-- What a visit of a field reads does not depend on what was read before, nor on which fields wait. -/
theorem visitField_eq (E : Entities) (pass : Pass) (input : Record) (hits : List String) (f : Field) (r : Resolved)
    (waiting : Waiting) :
    visitField E pass input hits f r waiting =
      visitField E pass input hits f .empty [] >>= fun y => pure (r.beside y.1, waiting ++ y.2) := by
  have hrest : (pure (r, waiting) : Parse (Resolved × Waiting)) =
      pure (Resolved.empty, []) >>= fun y => pure (r.beside y.1, waiting ++ y.2) := by
    rw [pure_bind, List.append_nil]
    rfl
  unfold visitField
  rw [bind_assoc]
  refine bind_congr fun o => ?_
  split
  · exact hrest
  cases hits with
  | nil =>
    rw [fillIfFull_eq pass f r]
    simp only [bind_assoc, pure_bind, List.append_nil]
  | cons key others =>
    simp only
    split
    · simp only [bind_assoc, ← hrest]
    · cases input.get? key with
      | some v => exact visitGiven_eq E pass f v r waiting
      | none => exact hrest

/-- A visit looks at no other keys than those that belong to the field. -/
theorem visitField_congr (E : Entities) (pass : Pass) (h : ∀ key ∈ hits, input.get? key = input'.get? key) (f : Field)
    (r : Resolved) (waiting : Waiting) :
    visitField E pass input hits f r waiting = visitField E pass input' hits f r waiting := by
  unfold visitField
  cases hits with
  | nil => rfl
  | cons key others => simp only [h key List.mem_cons_self]

/-! ### Runs -/

section Runs

variable (hE : Coupling.sound.AlikeEntities E E)

include hE

/-- Once all fields are visited, a field has what an accepted visit of it alone reads. -/
theorem exists_visit_of_visitFields (fields : List Field) : ∀ {r : Resolved} {waiting : Waiting} {x : Resolved × Waiting}
    {state t : ParseState}, state.context.failures = [] → (fields.map Field.name).Nodup → f ∈ fields →
    r.values.get? f.name = none → Accepts (visitFields E pass input m fields r waiting) state x t →
    ∃ state' y t', state'.context.failures = [] ∧ state.context.At state'.context ∧
      Accepts (visitField E pass input (m.of f.name) f .empty []) state' y t' ∧
      x.1.values.get? f.name = y.1.values.get? f.name := by
  induction fields with
  | nil => exact fun _ _ hf => by cases hf
  | cons g rest ih =>
    intro r waiting x state t hclean hnames hf hnone h
    obtain ⟨hg, hnames⟩ := List.nodup_cons.mp hnames
    obtain ⟨x', u, hfirst, hplace, hrest⟩ := (accepts_seq (sound_visitField hE pass input _ g r waiting)
      (fun y => sound_visitFields hE pass input m rest y.1 y.2) hclean).mp h
    rcases List.mem_cons.mp hf with rfl | hf
    · rw [visitField_eq] at hfirst
      obtain ⟨y, u', hvisit, -, hbeside⟩ :=
        (accepts_seq (sound_visitField hE pass input _ f .empty []) (fun _ => .pure trivial) hclean).mp hfirst
      obtain ⟨rfl, -⟩ := (accepts_pure hvisit.2).mp hbeside
      have hstart : Pending Set.univ Set.univ (Resolved.empty, []) :=
        ⟨⟨fun _ _ => trivial, List.nodup_nil, fun _ _ => trivial, List.nodup_nil⟩, fun _ _ => trivial⟩
      have hnodup : y.1.values.names.Nodup :=
        ((gives_visitField hstart (fun _ => trivial) fun _ _ _ => trivial).elim hvisit.1).1.nodup
      refine ⟨state, y, u', hclean, .refl _, hvisit, ?_⟩
      -- The fields behind it have other names.
      rw [(visited_of_visitFields rest hrest.1).2.2 f.name fun g' hg' heq =>
        absurd (List.mem_map.mpr ⟨g', hg', heq⟩) hg, Resolved.beside, Record.get?_insertAll _ _ hnodup, hnone, Option.or_none]
    · have hne : f.name ≠ g.name := fun heq => hg (List.mem_map.mpr ⟨f, hf, heq⟩)
      have hkept := (visited_of_visitField hfirst.1).kept f.name hne
      obtain ⟨state', y, t', hclean', hplace', hvisit, hvalue⟩ := ih hfirst.2 hnames hf (hkept.trans hnone) hrest
      exact ⟨state', y, t', hclean', hplace.trans hplace', hvisit, hvalue⟩

/-- Of an accepted input, a field that depends on nothing has what an accepted visit of it alone reads. -/
theorem Compiled.exists_visit_of_accepts (h : s.Compiled) (hclean : state.context.failures = []) {values : Record}
    (haccepts : Accepts (s.readRecord E v) state values t) (hf : f ∈ s.fields) (hdiscriminator : f.discriminator = none)
    (hdependencies : f.dependencies = []) :
    ∃ state' y t', state'.context.failures = [] ∧ state.context.At state'.context ∧
      Accepts (visitField E .full (givenRecord state.context.options v)
        ((s.matchKeys state.context.options (givenRecord state.context.options v).names).of f.name) f .empty []) state' y t' ∧
      values.get? f.name = y.1.values.get? f.name := by
  obtain ⟨r, u, hresolve, -, hfinalize⟩ := stages_of_accepts hE hclean haccepts
  obtain ⟨x, u₁, q, u₂, -, -, hvisit, hread, hexcess⟩ := parts_of_accepts hE hclean hresolve
  obtain ⟨state', y, t', hclean', hplace, hvisited, hvalue⟩ :=
    exists_visit_of_visitFields hE s.fields hclean h.nodup_names hf rfl hvisit
  refine ⟨state', y, t', hclean', hplace, hvisited, Eq.trans ?_ hvalue⟩
  -- It waits for nothing, so those that wait and the keys of no field leave its value.
  have hpassed : f.name ∉ Waiting.names x.2 := by
    rw [(visited_of_visitFields s.fields hvisit.1).2.1]
    intro hname
    obtain ⟨e, he, hname⟩ := List.mem_map.mp hname
    obtain ⟨g, hg, hawaits⟩ := List.mem_filterMap.mp he
    obtain rfl := h.eq_of_name hg hf (by rw [← Field.eq_of_awaits? hawaits, hname])
    obtain ⟨w, -, hqueued⟩ := Option.bind_eq_some_iff.mp hawaits
    simp [Field.queued?, hdiscriminator] at hqueued
  have hresolved : r.values.get? f.name = x.1.values.get? f.name := by
    rw [(gives_visitExcesses_values E _ _ q).elim hexcess.1, kept_of_readWaiting x.2 hread.1 f.name hpassed]
  have hwithin : r.Within Set.univ (s.unclaimed (givenKeys state.context.options v)) :=
    h.within_of_pass (fun _ _ _ => trivial) (Set.subset_univ _) hresolve.1
  have hextra : r.extras.get? f.name = none := Record.get?_eq_none_iff.mpr fun hname =>
    (hwithin.extras _ hname).2 f hf (.inl (name_mem_keysOf s.options f))
  obtain rfl := outcome_of_yields (h.yields_finalize _ _ _) hfinalize.1
  rw [get?_finalized hwithin.nodup hwithin.nodup_extras, hextra, Option.none_or, ← hresolved]
  by_cases hname : f.name ∈ r.values.names
  · refine get?_rounds s _ r.values f.name ((h.mem_settled_iff hf hname).mpr ?_)
    rw [hdependencies]
    exact List.forall_mem_nil _
  · rw [Record.get?_eq_none_iff.mpr hname, Record.get?_eq_none_iff]
    exact fun hsettled => hname (mem_names_of_rounds hsettled)

end Runs

/-! ### Keys -/

/-- The keys of a record that belong to a field are those of its entries that lead to it. -/
theorem Compiled.owned_names (h : s.Compiled) (hf : f ∈ s.fields) (r : Record) :
    s.owned r.names f.name = Record.names (r.filter fun e => Claims s.options f e.1) := by
  rw [owned, Record.names, List.filter_map, Record.names]
  refine congrArg (List.map Prod.fst) (List.filter_congr fun e _ => ?_)
  rw [Function.comp_apply, Bool.eq_iff_iff, beq_iff_eq, h.owner_eq_some_iff, decide_eq_true_iff]
  refine ⟨?_, fun hclaim => ⟨f, hf, rfl, hclaim⟩⟩
  rintro ⟨g, hg, hname, hclaim⟩
  rwa [← h.eq_of_name hg hf hname]

/-- Two records with the same entries under the keys that lead to a field are one to a visit of it. -/
theorem Compiled.visitField_eq_of_claimed (h : s.Compiled) (hf : f ∈ s.fields) (hinput : input.names.Nodup)
    (hinput' : input'.names.Nodup)
    (hsame : (input.filter fun e => Claims s.options f e.1) = input'.filter fun e => Claims s.options f e.1) :
    visitField E pass input ((s.matchKeys o input.names).of f.name) f r waiting =
      visitField E pass input' ((s.matchKeys o input'.names).of f.name) f r waiting := by
  have hhits : (s.matchKeys o input.names).of f.name = (s.matchKeys o input'.names).of f.name := by
    rw [h.of_matchKeys hinput, h.of_matchKeys hinput', h.owned_names hf, h.owned_names hf, hsame]
  rw [← hhits]
  refine visitField_congr E pass (fun key hkey => ?_) f r waiting
  obtain ⟨-, g, hg, hname, hclaim⟩ :=
    ((h.mem_matches_iff hinput (matchKeys_cases s o input.names)).1 f.name).mp hkey
  rw [h.eq_of_name hg hf hname] at hclaim
  have hfiltered (r : Record) : r.get? key = Record.get? (r.filter fun e => Claims s.options f e.1) key := by
    rw [Record.get?_filter r fun key => Claims s.options f key, if_pos (by simpa using hclaim)]
  rw [hfiltered, hsame, ← hfiltered]

end Schema

namespace Catalog

/-- Two inputs with the same entries under the keys that lead to a field: if both are parsed, a field that depends on nothing
    and is read by one rule is in both records with the same value or in neither, whatever else the inputs have,
    in whatever order their keys come, and however often factories were called before. -/
theorem get?_parse_eq_of_claimed {c : Catalog} {s : Schema} (hc : ∀ t ∈ c.schemas, t.Pure) (hs : s.Compiled) {f : Field}
    (hf : f ∈ s.fields) (hpure : ∀ d ∈ f.default, d.Pure) (hdependencies : f.dependencies = [])
    (hdiscriminator : f.discriminator = none) {entries entries' : List (Value × Value)}
    (hsame : ((Record.ofEntries entries).filter fun e => Schema.Claims s.options f e.1) =
      (Record.ofEntries entries').filter fun e => Schema.Claims s.options f e.1) {o : Options} {calls calls' : Calls}
    {values values' : Record} {ws ws' : List Warning} (hok : (c.parse s (.map entries) o calls).1 = .ok (values, ws))
    (hok' : (c.parse s (.map entries') o calls').1 = .ok (values', ws')) : values.get? f.name = values'.get? f.name := by
  have hE : Coupling.success.AlikeEntities (c.entities (s.options.merge o)) (c.entities (s.options.merge o)) :=
    Coupling.alike_entities (fun t ht => (hc t ht).suits_success) rfl
  have hvisit {entries : List (Value × Value)} {calls : Calls} {values : Record} {ws : List Warning}
      (hok : (c.parse s (.map entries) o calls).1 = .ok (values, ws)) :
      ∃ state y t, state.context.failures = [] ∧ (Context.root (s.options.merge o)).At state.context ∧
        Parse.Accepts (Schema.visitField (c.entities (s.options.merge o)) .full (Record.ofEntries entries)
          ((s.matchKeys (s.options.merge o) (Record.ofEntries entries).names).of f.name) f .empty []) state y t ∧
        values.get? f.name = y.1.values.get? f.name := by
    obtain ⟨t, haccepts, -⟩ := parse_eq_ok_iff.mp hok
    rw [← Schema.givenRecord_map (s.options.merge o) entries]
    exact hs.exists_visit_of_accepts (Coupling.alike_sound c _) rfl haccepts hf hdiscriminator hdependencies
  obtain ⟨state, y, t, hclean, hplace, hread, hvalue⟩ := hvisit hok
  obtain ⟨state', y', t', hclean', hplace', hread', hvalue'⟩ := hvisit hok'
  rw [hs.visitField_eq_of_claimed hf (Record.nodup_names_ofEntries _) (Record.nodup_names_ofEntries _) hsame] at hread
  -- Two accepted visits of one field give the same, whatever was called before them.
  have halike := Coupling.rel_visitField hE .full (fun p force n n' => Field.produce_fst_of_pure hpure p force n n')
    (Record.ofEntries entries') ((s.matchKeys (s.options.merge o) (Record.ofEntries entries').names).of f.name)
    .empty (List.forall_mem_nil _)
  have hboth : Parse.Clean state state' := by
    refine ⟨⟨?_, hplace.route.symm.trans hplace'.route, hplace.depth.symm.trans hplace'.depth⟩, hclean, hclean'⟩
    rw [← hplace.options, hplace'.options]
  obtain ⟨_, u, hagain, rfl, -⟩ := halike.follows state state' hboth y t hread
  cases hagain.1.symm.trans hread'.1
  rw [hvalue, hvalue']

/-- A number beside a note and an unknown key, which come before it, and alone, with the default of the note. -/
theorem get?_parse_account :
    let id : Field := { name := "id", rule := .of .int, aliases := ["key"] }
    let note : Field := { name := "note", rule := .of .str, dependencies := ["id"], default := some (.value (.str "-")) }
    let account : Schema := ⟨"Account", [note, id], { dataFirstSearch := some false }⟩
    let alone : List (Value × Value) := [(.str "key", .str "7")]
    let among : List (Value × Value) := [(.str "other", .null), (.str "note", .str "x"), (.str "key", .str "7")]
    ∃ values ws values' ws', account.Pure ∧ account.Compiled ∧ id ∈ account.fields ∧ (∀ d ∈ id.default, d.Pure) ∧
      id.dependencies = [] ∧ id.discriminator = none ∧
      ((Record.ofEntries alone).filter fun e => Schema.Claims account.options id e.1) =
        (Record.ofEntries among).filter (fun e => Schema.Claims account.options id e.1) ∧
      (parse { schemas := [account] } account (.map alone) {} Calls.none).1 = .ok (values, ws) ∧
      (parse { schemas := [account] } account (.map among) {} Calls.none).1 = .ok (values', ws') ∧
      values.get? "id" = values'.get? "id" := by
  intro id note account alone among
  have haccount : account.Compiled := ⟨account.name, account.fields, account.options, rfl⟩
  have hpure : account.Pure := by
    intro f hf d hd
    simp only [account, List.mem_cons, List.not_mem_nil, or_false] at hf
    rcases hf with rfl | rfl
    · cases hd
      trivial
    · cases hd
  have hid : id ∈ account.fields := by simp [account]
  have hdefault : ∀ d ∈ id.default, d.Pure := fun d hd => by cases hd
  have hsame : ((Record.ofEntries alone).filter fun e => Schema.Claims account.options id e.1) =
      (Record.ofEntries among).filter fun e => Schema.Claims account.options id e.1 := rfl
  obtain ⟨⟨values, ws⟩, hok⟩ :
      ∃ x, (parse { schemas := [account] } account (.map alone) {} Calls.none).1 = .ok x :=
    Parse.exists_of_isOk (by decide +kernel)
  obtain ⟨⟨values', ws'⟩, hok'⟩ :
      ∃ x, (parse { schemas := [account] } account (.map among) {} Calls.none).1 = .ok x :=
    Parse.exists_of_isOk (by decide +kernel)
  exact ⟨values, ws, values', ws', hpure, haccount, hid, hdefault, rfl, rfl, hsame, hok, hok',
    get?_parse_eq_of_claimed (c := { schemas := [account] }) (List.forall_mem_singleton.mpr hpure) haccount hid hdefault rfl rfl
      hsame hok hok'⟩

end Catalog

end Conform

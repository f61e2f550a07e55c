import Conform.Proofs.Schema.Accepted
import Conform.Proofs.Schema.Discriminated

/-! Required fields. Every way in which a required field may end up without a value while fields are read collects a
    failure, so of an accepted input every required field that is seen has a value, given or by default. Whether it
    is in the record is then a matter of the pass over dependencies alone: it is if and only if all that it
    depends on is, and a value that was given is never dropped where failures are thrown. -/

namespace Conform

open Parse

/-- A reading that goes on from another one loses nothing. -/
structure Resolved.Extends (r r' : Resolved) : Prop where
  names : ∀ name ∈ r.values.names, name ∈ r'.values.names
  supplied : ∀ name ∈ r.supplied, name ∈ r'.supplied
  extras : r'.extras = r.extras

namespace Schema

variable {s : Schema} {E : Entities} {f : Field} {v : Value} {o : Options} {r r' q : Resolved} {waiting : Waiting}
  {input : Record} {hits : List String} {m : Matches} {state t : ParseState} {x : Resolved × Waiting}
  {taken : Option Value}

/-- A field has a value; where its failures are thrown, the value was given, or it is the default in the place of
    none. -/
structure Present (o : Options) (taken : Option Value) (f : Field) (r : Resolved) : Prop where
  name : f.name ∈ r.values.names
  thrown : f.policy o = .throw → f.name ∈ r.supplied ∨ f.default.isSome ∧ taken = none

/-! ### Steps -/

theorem extends_refl (r : Resolved) : r.Extends r := ⟨fun _ => id, fun _ => id, rfl⟩

theorem extends_trans (h : r.Extends r') (h' : r'.Extends q) : r.Extends q :=
  ⟨fun name hname => h'.names name (h.names name hname), fun name hname => h'.supplied name (h.supplied name hname),
    h'.extras.trans h.extras⟩

theorem Present.mono (h : Present o taken f r) (hextends : r.Extends r') : Present o taken f r' :=
  ⟨hextends.names _ h.name, fun hpolicy => (h.thrown hpolicy).imp_left (hextends.supplied _)⟩

theorem Filled.extends (h : Filled f o r r') : r.Extends r' := by
  cases h with
  | default v _ => exact ⟨fun name hname => Record.mem_names_insert.mpr (.inr hname), fun _ => id, rfl⟩
  | nothing _ => exact extends_refl r

/-- A required field that is filled has its default. -/
theorem Filled.of_required (h : Filled f o r r') (hrequired : f.isRequired o = true) :
    f.name ∈ r'.values.names ∧ f.default.isSome := by
  cases h with
  | default v hdefault => exact ⟨Record.mem_names_insert.mpr (.inl rfl), hdefault⟩
  | nothing hoptional =>
    rw [hoptional] at hrequired
    cases hrequired

theorem Took.extends (h : Took E f v state r r') : r.Extends r' := by
  cases h with
  | value _ _ =>
    exact ⟨fun name hname => Record.mem_names_insert.mpr (.inr hname), fun name hname => List.mem_cons_of_mem _ hname, rfl⟩
  | excluded _ hfilled => exact hfilled.extends

/-- A required field that takes a value is present; it is excluded only where its failures are not thrown. -/
theorem Took.present (h : Took E f v state r r') (hrequired : f.isRequired state.context.options = true) :
    Present state.context.options taken f r' := by
  cases h with
  | value _ _ => exact ⟨Record.mem_names_insert.mpr (.inl rfl), fun _ => .inl List.mem_cons_self⟩
  | excluded hpolicy hfilled =>
    refine ⟨(hfilled.of_required hrequired).1, fun hthrow => ?_⟩
    rw [hpolicy] at hthrow
    cases hthrow

theorem Visit.extends (h : Visit E input hits f state r waiting x) :
    r.Extends x.1 ∧ ∀ e ∈ waiting, e ∈ x.2 := by
  cases h with
  | absent _ _ hfilled => exact ⟨hfilled.extends, fun _ => id⟩
  | read _ _ htook => exact ⟨htook.extends, fun _ => id⟩
  | waits _ _ => exact ⟨extends_refl r, fun e he => List.mem_append_left _ he⟩

/-- A required field that is visited is present or waits with the value that it takes. -/
theorem Visit.present (h : Visit E input hits f state r waiting x) (hrequired : f.isRequired state.context.options = true) :
    Present state.context.options (f.taken? .full state.context.options input hits) f x.1 ∨
      ∃ v, f.taken? .full state.context.options input hits = some v ∧ (f, v) ∈ x.2 := by
  cases h with
  | absent htaken _ hfilled =>
    obtain ⟨hname, hdefault⟩ := hfilled.of_required hrequired
    exact .inl ⟨hname, fun _ => .inr ⟨hdefault, htaken⟩⟩
  | read _ _ htook => exact .inl (htook.present hrequired)
  | waits htaken _ => exact .inr ⟨_, htaken, List.mem_append_right _ (List.mem_singleton_self _)⟩

/-! ### Runs -/

section Runs

variable (hE : Coupling.sound.AlikeEntities E E)

include hE

/-- After the visit of all fields, those that are required and seen are present or wait. -/
theorem present_of_visitFields (fields : List Field) : ∀ {r : Resolved} {waiting : Waiting} {x : Resolved × Waiting}
    {state t : ParseState}, state.context.failures = [] →
    (∀ f ∈ fields, ∀ key ∈ m.of f.name, key ∈ input.names) →
    Accepts (visitFields E .full input m fields r waiting) state x t →
    (r.Extends x.1 ∧ ∀ e ∈ waiting, e ∈ x.2) ∧
      ∀ f ∈ fields, f.isHidden state.context.options = false → f.isRequired state.context.options = true →
        Present state.context.options (f.taken? .full state.context.options input (m.of f.name)) f x.1 ∨
          ∃ v, f.taken? .full state.context.options input (m.of f.name) = some v ∧ (f, v) ∈ x.2 := by
  induction fields with
  | nil =>
    intro r waiting x state t hclean _ h
    obtain ⟨rfl, -⟩ := (accepts_pure hclean).mp h
    exact ⟨⟨extends_refl r, fun _ => id⟩, fun f hf => by cases hf⟩
  | cons f rest ih =>
    intro r waiting x state t hclean hkeys h
    obtain ⟨hkey, hothers⟩ := List.forall_mem_cons.mp hkeys
    obtain ⟨y, u, hfirst, hplace, hrest⟩ := (accepts_seq (sound_visitField hE .full input _ f r waiting)
      (fun y => sound_visitFields hE .full input m rest y.1 y.2) hclean).mp h
    obtain ⟨⟨hextends, hwaiting⟩, hpresent⟩ := ih hfirst.2 hothers hrest
    rw [← hplace.options] at hpresent
    -- A hidden field is passed over.
    have hvisit : (f.isHidden state.context.options = true → y = (r, waiting)) ∧
        (f.isHidden state.context.options = false → Visit E input (m.of f.name) f state r waiting y) := by
      refine ⟨fun hhidden => ?_, fun hseen => visit_of_accepts hE hclean hseen hkey hfirst⟩
      rw [visitField, accepts_options, if_pos hhidden] at hfirst
      exact ((accepts_pure hclean).mp hfirst).1
    have hstep : r.Extends y.1 ∧ ∀ e ∈ waiting, e ∈ y.2 := by
      cases hhidden : f.isHidden state.context.options with
      | true =>
        obtain rfl := hvisit.1 hhidden
        exact ⟨extends_refl r, fun _ => id⟩
      | false => exact (hvisit.2 hhidden).extends
    refine ⟨⟨extends_trans hstep.1 hextends, fun e he => hwaiting e (hstep.2 e he)⟩, ?_⟩
    refine List.forall_mem_cons.mpr ⟨fun hseen hrequired => ?_, hpresent⟩
    rcases (hvisit.2 hseen).present hrequired with hpresent | ⟨v, htaken, hmem⟩
    · exact .inl (hpresent.mono hextends)
    · exact .inr ⟨v, htaken, hwaiting _ hmem⟩

/-- Of the fields that waited, those that are required are present after their turns. -/
theorem present_of_readWaiting (waiting : Waiting) : ∀ {r r' : Resolved} {state t : ParseState},
    state.context.failures = [] → Accepts (readWaiting E .full waiting r) state r' t →
    r.Extends r' ∧ ∀ e ∈ waiting, e.1.isRequired state.context.options = true →
      Present state.context.options (some e.2) e.1 r' := by
  induction waiting with
  | nil =>
    intro r r' state t hclean h
    obtain ⟨rfl, -⟩ := (accepts_pure hclean).mp h
    exact ⟨extends_refl r', fun e he => by cases he⟩
  | cons e rest ih =>
    intro r r' state t hclean h
    obtain ⟨q, u, hfirst, hplace, hrest⟩ := (accepts_seq (sound_readField hE .full e.1 e.2 r)
      (fun q => sound_readWaiting hE .full rest q) hclean).mp h
    have htook := took_of_accepts hE hclean hfirst
    obtain ⟨hextends, hpresent⟩ := ih hfirst.2 hrest
    rw [← hplace.options] at hpresent
    exact ⟨extends_trans htook.extends hextends,
      List.forall_mem_cons.mpr ⟨fun hrequired => (htook.present hrequired).mono hextends, hpresent⟩⟩

end Runs

/-! ### Keys of no field -/

theorem gives_visitExcess_extras (E : Entities) (key : String) (v : Value) (r : Resolved) :
    Gives (fun y : Bool × Resolved => ∃ extras, y.2 = { r with extras } ∧
      ∀ name ∈ extras.names, name ∈ r.extras.names ∨ name = key) (visitExcess E key v r) := by
  have hkept (w : Value) : ∀ name ∈ (r.extras.insert key w).names, name ∈ r.extras.names ∨ name = key :=
    fun name hname => (Record.mem_names_insert.mp hname).symm
  have hsame : ∀ name ∈ r.extras.names, name ∈ r.extras.names ∨ name = key := fun name hname => .inl hname
  refine .bind_any fun o => ?_
  cases o.additionRule with
  | some rule =>
    refine .bind_any fun outcome => ?_
    cases outcome.value? with
    | some w => exact .pure ⟨_, rfl, hkept w⟩
    | none => exact .pure ⟨_, rfl, hsame⟩
  | none =>
    cases o.excessPolicy with
    | ignore => exact .pure ⟨_, rfl, hsame⟩
    | preserve => exact .pure ⟨_, rfl, hkept v⟩
    | reject => exact .pure ⟨_, rfl, hsame⟩

/-- Keys of no field change nothing that was read of the fields. -/
theorem gives_visitExcesses_extras (E : Entities) (input : Record) (keys : List String) : ∀ r : Resolved,
    Gives (fun y : List String × Resolved => ∃ extras, y.2 = { r with extras } ∧
      ∀ name ∈ extras.names, name ∈ r.extras.names ∨ name ∈ keys) (visitExcesses E input keys r) := by
  induction keys with
  | nil => exact fun r => .pure ⟨r.extras, rfl, fun name hname => .inl hname⟩
  | cons key rest ih =>
    intro r
    have hmore : ∀ name, name ∈ rest → name ∈ key :: rest := fun _ => List.mem_cons_of_mem key
    unfold visitExcesses
    cases input.get? key with
    | none =>
      intro state y t hok
      obtain ⟨extras, hy, hnames⟩ := ih r hok
      exact ⟨extras, hy, fun name hname => (hnames name hname).imp_right (hmore name)⟩
    | some v =>
      refine (gives_visitExcess_extras E key v r).bind fun y hy => ?_
      obtain ⟨refused, r'⟩ := y
      obtain ⟨extras, rfl, hnames⟩ := hy
      refine (ih { r with extras }).bind fun z hz => ?_
      obtain ⟨extras', hz, hnames'⟩ := hz
      refine .pure ⟨extras', hz, fun name hname => ?_⟩
      rcases hnames' name hname with hname | hname
      · rcases hnames name hname with hname | rfl
        · exact .inl hname
        · exact .inr List.mem_cons_self
      · exact .inr (hmore name hname)

/-! ### The pass over dependencies -/

/-- A field is settled if and only if it was there and all that it depends on is settled. -/
theorem Compiled.mem_settled_iff (h : s.Compiled) {values : Record} (hf : f ∈ s.fields) (hname : f.name ∈ values.names) :
    f.name ∈ (s.settled values).names ↔ ∀ d ∈ f.dependencies, d ∈ (s.settled values).names := by
  obtain ⟨⟨hconsistent, hkept⟩, hgreatest⟩ := h.isGreatest_settled values
  refine ⟨fun hsettled => hconsistent f hf hsettled, fun hdependencies => ?_⟩
  -- With the field itself the settled names are consistent, so they are not more than those that are settled.
  have hmore : insert f.name {name | name ∈ (s.settled values).names} ∈
      {N | s.Consistent N ∧ ∀ name ∈ N, name ∈ values.names} := by
    refine ⟨fun g hg hgname d hd => ?_, fun name hmem => ?_⟩
    · rcases hgname with hgname | hgname
      · obtain rfl := h.eq_of_name hg hf hgname
        exact .inr (hdependencies d hd)
      · exact .inr (hconsistent g hg hgname d hd)
    · rcases hmem with rfl | hmem
      · exact hname
      · exact hkept name hmem
  exact hgreatest hmore (.inl rfl)

/-- A pass that is accepted drops no field that is missed. -/
theorem Compiled.losses_of_accepts (h : s.Compiled) {values extras kept : Record} {supplied : List String}
    (hclean : state.context.failures = []) (haccepts : Accepts (s.finalize values supplied extras) state kept t) :
    s.losses supplied values (s.settled values) state.context.options = 0 := by
  have hyields := h.yields_finalize values supplied extras
  have hroom := (exists_ok_iff_of_yields hyields state).mp ⟨kept, t, haccepts.1⟩
  obtain ⟨u, hok, -, hlength⟩ := hyields.ok state hroom
  cases haccepts.1.symm.trans hok
  rw [haccepts.2, hclean, List.length_nil, Nat.zero_add] at hlength
  exact hlength.symm

/-- A field that is missed is settled, if the pass is accepted. -/
theorem Compiled.mem_settled_of_missed (h : s.Compiled) {values extras kept : Record} {supplied : List String}
    (hclean : state.context.failures = []) (haccepts : Accepts (s.finalize values supplied extras) state kept t)
    (hf : f ∈ s.fields) (hname : f.name ∈ values.names) (hmissed : missed supplied state.context.options f = true) :
    f.name ∈ (s.settled values).names := by
  by_contra hgone
  have hlost := List.countP_eq_zero.mp (h.losses_of_accepts hclean haccepts) f hf
  rw [Record.has_iff_mem_names.mpr hname, hmissed, Bool.true_and, Bool.and_true, Bool.not_eq_true',
    ← Bool.not_eq_true, not_not, Record.has_iff_mem_names] at hlost
  exact hgone hlost

/-! ### Records -/

/-- The value that a field takes from an input where a whole record is read. -/
def given? (s : Schema) (o : Options) (v : Value) (f : Field) : Option Value :=
  f.taken? .full o (givenRecord o v) ((s.matchKeys o (givenRecord o v).names).of f.name)

/-- A name that a field has is that of a value of the fields. -/
theorem mem_names_finalized {values extras : Record}
    (hextras : ∀ name ∈ extras.names, ∀ f ∈ s.fields, f.name ≠ name) (hf : f ∈ s.fields) :
    f.name ∈ ((s.arranged (s.settled values)).insertAll extras).names ↔ f.name ∈ (s.settled values).names := by
  rw [Record.mem_names_insertAll, arranged, Record.mem_names_arranged]
  exact or_iff_left fun hname => hextras f.name hname f hf rfl

theorem Compiled.dependency_is_field (h : s.Compiled) (hf : f ∈ s.fields) {d : String} (hd : d ∈ f.dependencies) :
    ∃ g ∈ s.fields, g.name = d := by
  obtain ⟨name, fields, o, hcompile⟩ := h
  obtain ⟨hunambiguous, rfl⟩ := compile_eq_ok_iff.mp hcompile
  exact List.mem_map.mp (hunambiguous.dependencies f hf d hd)

/-- Of an accepted input a required field that is seen is in the record if and only if all that it depends on is; where
    its failures are thrown, only a default that nothing was given for can be missing. -/
theorem Compiled.required_of_accepts (h : s.Compiled) (hE : Coupling.sound.AlikeEntities E E)
    (hclean : state.context.failures = []) {values : Record} (haccepts : Accepts (s.readRecord E v) state values t)
    (hf : f ∈ s.fields) (hseen : f.isHidden state.context.options = false)
    (hrequired : f.isRequired state.context.options = true) :
    (f.name ∈ values.names ↔ ∀ d ∈ f.dependencies, d ∈ values.names) ∧
      (f.name ∉ values.names → f.policy state.context.options = .throw →
        f.default.isSome ∧ s.given? state.context.options v f = none) := by
  obtain ⟨r, u, hresolve, hplace, hfinalize⟩ := stages_of_accepts hE hclean haccepts
  obtain ⟨x, u₁, q, u₂, hplace₁, -, hvisit, hread, hexcess⟩ := parts_of_accepts hE hclean hresolve
  have hnodup := (names_givenRecord state.context.options v).1
  obtain ⟨⟨hextends, -⟩, hvisited⟩ :=
    present_of_visitFields hE s.fields hclean (h.given_of_matchKeys hnodup state.context.options).1 hvisit
  obtain ⟨hextends', hwaited⟩ := present_of_readWaiting hE x.2 hvisit.2 hread
  rw [← hplace₁.options] at hwaited
  have hpresent : Present state.context.options (s.given? state.context.options v f) f q := by
    rcases hvisited f hf hseen hrequired with hpresent | ⟨w, htaken, hwaits⟩
    · exact hpresent.mono hextends'
    · have hpresent := hwaited (f, w) hwaits hrequired
      rwa [← htaken] at hpresent
  obtain ⟨extras, hr, hextras⟩ := gives_visitExcesses_extras E _ _ q hexcess.1
  obtain rfl : r = { q with extras } := hr
  have hnone : q.extras = [] := by rw [hextends'.extras, hextends.extras]
  -- What is kept of other keys has the name of no field, so it stands in for none that is gone.
  have hforeign : ∀ name ∈ extras.names, ∀ g ∈ s.fields, g.name ≠ name := by
    rintro name hname g hg rfl
    rcases hextras g.name hname with hname | hname
    · rw [hnone] at hname
      cases hname
    · have hkey := (h.mem_matches_iff hnodup (matchKeys_cases s state.context.options _)).2.mp hname
      exact hkey.2 g hg (.inl (name_mem_keysOf s.options g))
  obtain rfl := outcome_of_yields (h.yields_finalize _ _ _) hfinalize.1
  have hsettled := h.mem_settled_iff hf hpresent.name
  refine ⟨?_, fun hgone hthrow => ?_⟩
  · rw [mem_names_finalized hforeign hf, hsettled]
    refine forall₂_congr fun d hd => ?_
    obtain ⟨g, hg, rfl⟩ := h.dependency_is_field hf hd
    exact (mem_names_finalized hforeign hg).symm
  · rw [mem_names_finalized hforeign hf] at hgone
    refine (hpresent.thrown hthrow).resolve_left fun hsupplied => hgone ?_
    refine h.mem_settled_of_missed hresolve.2 hfinalize hf hpresent.name ?_
    rw [missed, ← hplace.options, hthrow]
    simpa using hsupplied

end Schema

namespace Catalog

/-- Of every input that is parsed, a required field that is seen is in the record if and only if all that it depends on
    is. It may be missing only where its policy drops it with a warning, or where nothing was given for it
    and its default was dropped. -/
theorem mem_names_parse_of_required {c : Catalog} {s : Schema} (hs : s.Compiled) {v : Value} {o : Options}
    {calls : Calls} {values : Record} {ws : List Warning} (hok : (c.parse s v o calls).1 = .ok (values, ws)) {f : Field}
    (hf : f ∈ s.fields) (hseen : f.isHidden (s.options.merge o) = false)
    (hrequired : f.isRequired (s.options.merge o) = true) :
    (f.name ∈ values.names ↔ ∀ d ∈ f.dependencies, d ∈ values.names) ∧
      (f.name ∉ values.names → f.policy (s.options.merge o) = .throw →
        f.default.isSome ∧ s.given? (s.options.merge o) v f = none) := by
  obtain ⟨t, haccepts, -⟩ := Parse.atRoot_concluded_eq_ok.mp hok
  unfold readRecord at haccepts
  rw [accepts_options] at haccepts
  exact hs.required_of_accepts (Coupling.alike_sound c _) rfl haccepts hf hseen hrequired

/-- A required field whose default goes with what it depends on, though failures are thrown. -/
theorem mem_names_parse_of_payment :
    let card : Field := { name := "card", rule := .of .str, required := some (.flag false) }
    let hint : Field := { name := "hint", rule := .of .str, dependencies := ["card"],
                          default := some (.value (.str "none")), required := some (.flag true) }
    let payment : Schema := ⟨"Payment", [card, hint], { dataFirstSearch := some false }⟩
    let o := payment.options.merge {}
    ∃ values ws, payment.Compiled ∧ (parse { schemas := [payment] } payment (.map []) {} Calls.none).1 = .ok (values, ws) ∧
      hint ∈ payment.fields ∧ hint.isHidden o = false ∧ hint.isRequired o = true ∧
      ("hint" ∈ values.names ↔ ∀ d ∈ ["card"], d ∈ values.names) ∧
      ("hint" ∉ values.names → hint.policy o = .throw →
        hint.default.isSome ∧ payment.given? o (.map []) hint = none) := by
  intro card hint payment o
  have hpayment : payment.Compiled := ⟨payment.name, payment.fields, payment.options, rfl⟩
  have hparses : (parse { schemas := [payment] } payment (.map []) {} Calls.none).1.isOk = true := by decide +kernel
  cases hok : (parse { schemas := [payment] } payment (.map []) {} Calls.none).1 with
  | error f =>
    rw [hok] at hparses
    cases hparses
  | ok x =>
    have hhint : hint ∈ payment.fields := by simp [payment]
    obtain ⟨values, ws⟩ := x
    exact ⟨values, ws, hpayment, rfl, hhint, rfl, rfl, mem_names_parse_of_required hpayment hok hhint rfl rfl⟩

/-- Required fields that are missing nevertheless: one that was given, and that its policy drops with what it depends on,
    and one with a default, which is dropped where failures are thrown. -/
theorem hint_missing :
    let card : Field := { name := "card", rule := .of .str, required := some (.flag false) }
    let dropped : Field := { name := "hint", rule := .of .str, dependencies := ["card"], onError := some .exclude }
    let standing : Field := { name := "hint", rule := .of .str, dependencies := ["card"],
                              default := some (.value (.str "none")), required := some (.flag true) }
    let payment (hint : Field) : Schema := ⟨"Payment", [card, hint], { dataFirstSearch := some false }⟩
    let o := (payment dropped).options.merge {}
    let names (hint : Field) (v : Value) : Option (List String) :=
      (parse { schemas := [payment hint] } (payment hint) v {} Calls.none).1.toOption.map (·.1.names)
    o.ignoresRequired = false ∧
      ((payment dropped).Compiled ∧ dropped.isHidden o = false ∧ dropped.isRequired o = true ∧
        names dropped (.map [(.str "hint", .str "x")]) = some []) ∧
      (payment standing).Compiled ∧ standing.isHidden o = false ∧ standing.isRequired o = true ∧
        standing.policy o = .throw ∧ names standing (.map []) = some [] := by
  intro card dropped standing payment o names
  have hcompiled (hint : Field) (h : Schema.compile "Payment" [card, hint] (payment hint).options = .ok (payment hint)) :
      (payment hint).Compiled := ⟨_, _, _, h⟩
  exact ⟨rfl, ⟨hcompiled dropped rfl, rfl, rfl, by decide +kernel⟩, hcompiled standing rfl, rfl, rfl, rfl,
    by decide +kernel⟩

end Catalog

end Conform

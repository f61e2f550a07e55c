import Conform.Proofs.Schema.RoundTrip

/-! What a record is given out as. Its entries are given out one by one, each under a name and with a value of its own, and
    what is put out under one name last counts. So nothing is lost if and only if no two entries that are given out have
    the same name then, whether a field that is renamed meets another one or a key of no field. -/

namespace Conform

open Parse

namespace Schema

variable {s : Schema} {E : Entities} {f : Field} {v w : Value} {o : Options} {c : Context} {calls calls' : Calls}
  {values given output record : Record} {state t : ParseState} {x : Option Value}

/-- The value of a field as it is given out, and the calls by then: as it is, or as the output rule reads it one step below. -/
inductive Rendered (E : Entities) (c : Context) (f : Field) (v : Value) (calls : Calls) : Value → Calls → Prop
  | plain (hrule : f.outputRule = none) : Rendered E c f v calls v calls
  | ruled {rule : Rule} {child : Context} {w : Value} {t : ParseState} (hrule : f.outputRule = some rule)
      (hchild : c.enter (.key f.name) = .ok child) (hread : Accepts ((rule.reading E).read v) ⟨child, calls⟩ w t) :
      Rendered E c f v calls w t.calls

/-- What the entries of a record are given out as, one after the other. -/
inductive GivenOut (s : Schema) (E : Entities) (c : Context) : Calls → Record → Record → Prop
  | nil {calls : Calls} : GivenOut s E c calls [] []
  | foreign {calls : Calls} {name : String} {v : Value} {values given : Record} (hname : s.fieldNamed? name = none)
      (hrest : GivenOut s E c calls values given) : GivenOut s E c calls ((name, v) :: values) ((name, v) :: given)
  | withheld {calls : Calls} {name : String} {v : Value} {f : Field} {values given : Record}
      (hname : s.fieldNamed? name = some f) (hgate : f.givesNoOutput c.options (some v) = true)
      (hrest : GivenOut s E c calls values given) : GivenOut s E c calls ((name, v) :: values) given
  | rendered {calls calls' : Calls} {name : String} {v w : Value} {f : Field} {values given : Record}
      (hname : s.fieldNamed? name = some f) (hgate : f.givesNoOutput c.options (some v) = false)
      (hvalue : Rendered E c f v calls w calls') (hrest : GivenOut s E c calls' values given) :
      GivenOut s E c calls ((name, v) :: values) ((outputName c.options f, w) :: given)

/-- Whether no field withholds an entry. -/
def isShown (s : Schema) (o : Options) (e : String × Value) : Bool :=
  (s.fieldNamed? e.1).all fun f => !f.givesNoOutput o (some e.2)

/-- The names under which the entries of a record are given out. -/
def outputKeys (s : Schema) (o : Options) (values : Record) : List String :=
  (values.filter (s.isShown o)).map fun e => s.outputKey o e.1

theorem GivenOut.names (h : s.GivenOut E c calls values given) : given.names = s.outputKeys c.options values := by
  induction h with
  | nil => rfl
  | @foreign _ name v values given hname _ ih =>
    have hshown : s.isShown c.options (name, v) = true := by simp [isShown, hname]
    have hkey : s.outputKey c.options name = name := by simp [outputKey, hname]
    rw [outputKeys, List.filter_cons_of_pos hshown, List.map_cons, hkey]
    exact congrArg (name :: ·) ih
  | @withheld _ name v f values given hname hgate _ ih =>
    have hhidden : ¬ s.isShown c.options (name, v) = true := by simp [isShown, hname, hgate]
    rw [outputKeys, List.filter_cons_of_neg hhidden]
    exact ih
  | @rendered _ _ name v w f values given hname hgate _ _ ih =>
    have hshown : s.isShown c.options (name, v) = true := by simp [isShown, hname, hgate]
    have hkey : s.outputKey c.options name = outputName c.options f := by simp [outputKey, hname]
    rw [outputKeys, List.filter_cons_of_pos hshown, List.map_cons, hkey]
    exact congrArg (outputName c.options f :: ·) ih

/-! ### Accepted output -/

section Accepted

variable (hE : Coupling.sound.AlikeEntities E E)

include hE

theorem sound_outputValue (f : Field) (v : Value) : Sound (outputValue E f v) := by
  refine .bind (.of_passes passes_options) fun o => ?_
  split
  · exact .pure trivial
  split
  · next rule _ =>
    have hcoupled := (Coupling.alike_reading hE rule).toCoupled
    exact .bind (Coupling.rel_guarded_eq hcoupled v _ .throw).left.toSound fun _ => .pure trivial
  · exact .pure trivial

theorem sound_dumpEntries (rest : Record) : ∀ output : Record, Sound (s.dumpEntries E output rest) := by
  induction rest with
  | nil => exact fun _ => .pure trivial
  | cons e rest ih =>
    intro output
    obtain ⟨name, v⟩ := e
    unfold dumpEntries
    cases s.fieldNamed? name with
    | none => exact ih _
    | some f =>
      refine .bind (sound_outputValue hE f v) fun x => ?_
      cases x with
      | none => exact ih _
      | some w => exact .bind (.of_passes passes_options) fun _ => ih _

/-- An accepted value is withheld, or given out as the field gives it out. -/
theorem rendered_of_accepts (hs : state.context.failures = []) (hplace : c.At state.context)
    (h : Accepts (outputValue E f v) state x t) :
    x = none ∧ f.givesNoOutput c.options (some v) = true ∧ t.calls = state.calls ∨
      ∃ w, x = some w ∧ f.givesNoOutput c.options (some v) = false ∧ Rendered E c f v state.calls w t.calls := by
  rw [outputValue, accepts_options, ← hplace.options] at h
  split at h
  · next hgate =>
    obtain ⟨rfl, rfl⟩ := (accepts_pure hs).mp h
    exact .inl ⟨rfl, hgate, rfl⟩
  next hgate =>
  rw [Bool.not_eq_true] at hgate
  refine .inr ?_
  cases hrule : f.outputRule with
  | none =>
    rw [hrule] at h
    obtain ⟨rfl, rfl⟩ := (accepts_pure hs).mp h
    exact ⟨v, rfl, hgate, .plain hrule⟩
  | some rule =>
    rw [hrule] at h
    have hcoupled := (Coupling.alike_reading hE rule).toCoupled
    have hguarded := (Coupling.rel_guarded_eq hcoupled v (.key f.name) .throw).left.toSound
    obtain ⟨outcome, u, houtcome, -, hvalue⟩ := (accepts_seq hguarded (fun _ => .pure trivial) hs).mp h
    obtain ⟨rfl, rfl⟩ := (accepts_pure houtcome.2).mp hvalue
    -- What an output rule refuses is thrown, so it neither stays as it was nor is left out.
    cases Reading.admitted_of_accepts (hcoupled.read v).left.toSound hs houtcome with
    | @parsed child w u hchild hread =>
      obtain ⟨-, rfl⟩ := Prod.mk.inj (houtcome.1.symm.trans (Reading.outcome_guarded hchild hread))
      exact ⟨w, rfl, hgate, .ruled (t := u) hrule ((hplace.enter _).trans hchild) hread⟩
    | preserved hpolicy => cases hpolicy
    | excluded hpolicy => cases hpolicy

/-- What is accepted of the entries is put out behind what was, as they are given out. -/
theorem givenOut_of_accepts (rest : Record) : ∀ {output : Record} {state : ParseState}, state.context.failures = [] →
    c.At state.context → Accepts (s.dumpEntries E output rest) state record t →
    ∃ given, s.GivenOut E c state.calls rest given ∧ record = output.insertAll given := by
  -- What was put out before is general: an entry is put into it, and the others behind that.
  induction rest with
  | nil =>
    intro output state hs _ h
    obtain ⟨rfl, -⟩ := (accepts_pure hs).mp h
    exact ⟨[], .nil, rfl⟩
  | cons e rest ih =>
    intro output state hs hplace h
    obtain ⟨name, v⟩ := e
    unfold dumpEntries at h
    cases hname : s.fieldNamed? name with
    | none =>
      rw [hname] at h
      obtain ⟨given, hgiven, rfl⟩ := ih hs hplace h
      exact ⟨(name, v) :: given, .foreign hname hgiven, rfl⟩
    | some f =>
      rw [hname] at h
      rw [accepts_seq (sound_outputValue hE f v) (fun x => ?_) hs] at h
      swap
      · cases x with
        | none => exact sound_dumpEntries hE rest _
        | some w => exact .bind (.of_passes passes_options) fun _ => sound_dumpEntries hE rest _
      obtain ⟨x, u, hvalue, hplace', h⟩ := h
      rcases rendered_of_accepts hE hs hplace hvalue with ⟨rfl, hgate, hcalls⟩ | ⟨w, rfl, hgate, hrendered⟩
      · obtain ⟨given, hgiven, rfl⟩ := ih hvalue.2 (hplace.trans hplace') h
        exact ⟨given, .withheld hname hgate (hcalls ▸ hgiven), rfl⟩
      · obtain ⟨given, hgiven, rfl⟩ := ih hvalue.2 (hplace.trans hplace') (accepts_options.mp h)
        refine ⟨(outputName c.options f, w) :: given, .rendered hname hgate hrendered hgiven, ?_⟩
        rw [hplace.options, hplace'.options, Record.insertAll_cons]

end Accepted

/-- What a field gives out is accepted as its value. -/
theorem Rendered.accepts (h : Rendered E c f v calls w calls') (hgate : f.givesNoOutput c.options (some v) = false)
    (hs : state.context.failures = []) (hplace : c.At state.context) (hcalls : state.calls = calls) :
    ∃ t, Accepts (outputValue E f v) state (some w) t ∧ c.At t.context ∧ t.calls = calls' := by
  subst hcalls
  rw [hplace.options] at hgate
  cases h with
  | plain hrule =>
    refine ⟨state, ?_, hplace, rfl⟩
    rw [outputValue, accepts_options, if_neg (by rw [hgate]; exact Bool.false_ne_true), hrule]
    exact (accepts_pure hs).mpr ⟨rfl, rfl⟩
  | @ruled rule child w t hrule hchild hread =>
    refine ⟨⟨state.context.takeWarnings t.context, t.calls⟩, ?_, hplace.trans ⟨rfl, rfl, rfl⟩, rfl⟩
    rw [outputValue, accepts_options, if_neg (by rw [hgate]; exact Bool.false_ne_true), hrule]
    exact ⟨outcome_bind_of_ok (Reading.outcome_guarded ((hplace.enter _).symm.trans hchild) hread), hs⟩

/-- What the entries are given out as is accepted, put out behind what was. -/
theorem GivenOut.accepts (h : s.GivenOut E c calls values given) : ∀ {output : Record} {state : ParseState},
    state.context.failures = [] → c.At state.context → state.calls = calls →
    ∃ t, Accepts (s.dumpEntries E output values) state (output.insertAll given) t := by
  induction h with
  | nil => exact fun hs _ _ => ⟨_, (accepts_pure hs).mpr ⟨rfl, rfl⟩⟩
  | foreign hname _ ih =>
    intro output state hs hplace hcalls
    unfold dumpEntries
    rw [hname]
    exact ih hs hplace hcalls
  | @withheld _ name v f values given hname hgate _ ih =>
    intro output state hs hplace hcalls
    have hnone : (outputValue E f v).outcome state = (.ok none, state) := by
      rw [outputValue, outcome_bind_of_ok (outcome_options state), ← hplace.options, if_pos hgate]
      rfl
    obtain ⟨t, hrest, hlast⟩ := ih hs hplace hcalls
    unfold dumpEntries
    rw [hname]
    exact ⟨t, (outcome_bind_of_ok hnone).trans hrest, hlast⟩
  | @rendered _ _ name v w f values given hname hgate hvalue _ ih =>
    intro output state hs hplace hcalls
    obtain ⟨u, haccepts, hplace', hcalls'⟩ := hvalue.accepts hgate hs hplace hcalls
    obtain ⟨t, hrest, hlast⟩ := ih haccepts.2 hplace' hcalls'
    unfold dumpEntries
    rw [hname]
    refine ⟨t, (outcome_bind_of_ok haccepts.1).trans ((outcome_bind_of_ok (outcome_options u)).trans ?_), hlast⟩
    rw [← hplace'.options]
    exact hrest

end Schema

namespace Catalog

variable {c : Catalog} {s : Schema} {o : Options} {record output : Record} {calls : Calls}

/-- A dump succeeds if and only if every entry that is shown can be given out. -/
theorem dump_eq_ok_iff : (c.dump s record o calls).1 = .ok output ↔
    ∃ given, s.GivenOut (c.entities (s.options.merge o)) (.root (s.options.merge o)) calls record given ∧
      output = Record.insertAll [] given := by
  unfold dump
  rw [Parse.atRoot_options, atRoot_finished_eq_ok]
  constructor
  · rintro ⟨t, haccepts⟩
    exact Schema.givenOut_of_accepts (Coupling.alike_sound c _) record rfl (.refl _) haccepts
  · rintro ⟨given, hgiven, rfl⟩
    exact hgiven.accepts rfl (.refl _) rfl

/-- Every entry of a record that no field withholds is given out, with its name or the one that is generated for it and
    with its own value; of those with one name then, the last one is in the output. So the output has as many entries
    as are given out, and is what they are, if and only if their names are all different. -/
theorem given_of_dump (h : (c.dump s record o calls).1 = .ok output) :
    let p := s.options.merge o
    ∃ given, s.GivenOut (c.entities p) (.root p) calls record given ∧ given.names = s.outputKeys p record ∧
      output.names.Nodup ∧ (∀ name, output.get? name = Record.get? given.reverse name) ∧ output.length ≤ given.length ∧
      (output.length = given.length ↔ (s.outputKeys p record).Nodup) ∧ ((s.outputKeys p record).Nodup → output = given) := by
  intro p
  obtain ⟨given, hgiven, rfl⟩ := dump_eq_ok_iff.mp h
  have hnames := hgiven.names
  obtain ⟨hle, hlength⟩ := Record.length_insertAll given (r := []) List.nodup_nil
  rw [List.length_nil, Nat.zero_add] at hle hlength
  rw [List.nil_append, hnames] at hlength
  refine ⟨given, hgiven, hnames, ?_, fun name => ?_, hle, hlength, fun hkeys => ?_⟩
  · exact Record.nodup_names_insertAll (r := []) List.nodup_nil given
  · rw [Record.get?_insertAll_reverse]
    exact Option.or_none
  · exact Record.insertAll_of_disjoint given (hnames ▸ hkeys) fun _ _ => List.not_mem_nil

/-- A field by its output rule, one that is withheld, one that is renamed and a key of no field. -/
theorem given_of_dump_account :
    let count : Field := { name := "count", rule := .of .int, outputRule := some (.of .str) }
    let secret : Field := { name := "secret", rule := .of .str, noOutput := some (.flag true) }
    let user : Field := { name := "user", rule := .of .str }
    let account : Schema := ⟨"Account", [count, secret, user], {}⟩
    let record : Record := [("count", .int 3), ("secret", .str "s"), ("user", .str "u"), ("note", .null)]
    let o : Options := { aliasTo := some fun name => "x_" ++ name }
    let output : Record := [("x_count", .str "3"), ("x_user", .str "u"), ("note", .null)]
    (dump { schemas := [account] } account record o Calls.none).1 = .ok output ∧
      account.outputKeys (account.options.merge o) record = ["x_count", "x_user", "note"] ∧
      account.GivenOut ((Catalog.mk [account] {}).entities (account.options.merge o)) (.root (account.options.merge o))
        Calls.none record output := by
  intro count secret user account record o output
  have hdump : (dump { schemas := [account] } account record o Calls.none).1 = .ok output := by with_unfolding_all rfl
  have hkeys : account.outputKeys (account.options.merge o) record = ["x_count", "x_user", "note"] := by decide +kernel
  obtain ⟨given, hgiven, -, -, -, -, -, hall⟩ := given_of_dump hdump
  obtain rfl := hall (by rw [hkeys]; decide)
  exact ⟨hdump, hkeys, hgiven⟩

/-- Two fields whose names are generated alike: both are parsed and neither is withheld, and one is left of them. -/
theorem field_overwritten :
    let strip (name : String) : String := String.ofList (name.toList.filter (· != '_'))
    let first : Field := { name := "user_id", rule := .any }
    let second : Field := { name := "userid", rule := .any }
    let user : Schema := ⟨"User", [first, second], { dataFirstSearch := some false }⟩
    let c : Catalog := { schemas := [user] }
    let o : Options := { aliasTo := some strip }
    let record : Record := [("user_id", .int 1), ("userid", .int 2)]
    user.Compiled ∧ (∃ v ws, (c.parse user v {} Calls.none).1 = .ok (record, ws)) ∧
      (∀ e ∈ record, user.isShown (user.options.merge o) e = true) ∧
      (c.dump user record o Calls.none).1 = .ok [("userid", .int 2)] := by
  intro strip first second user c o record
  have huser : user.Compiled := ⟨user.name, user.fields, user.options, rfl⟩
  let v : Value := .map [(.str "user_id", .int 1), (.str "userid", .int 2)]
  refine ⟨huser, ⟨v, ?_⟩, by decide, ?_⟩
  · let state : ParseState := ⟨.root (user.options.merge {}), Calls.none⟩
    have hresolve : (user.resolve (c.entities state.context.options) .full v).outcome state =
        (.ok ⟨record, ["userid", "user_id"], []⟩, state) := by with_unfolding_all rfl
    obtain ⟨t, hfinal, hclean⟩ : ∃ t, Accepts (user.finalize record ["userid", "user_id"] []) state (record ++ []) t :=
      huser.accepts_finalize rfl (.refl _) List.nodup_nil (fun _ => nofun) rfl
    have hread : Accepts (c.readRecord user v) state record t :=
      ⟨(outcome_bind_of_ok (outcome_options state)).trans ((outcome_bind_of_ok hresolve).trans hfinal), hclean⟩
    exact ⟨t.context.warnings, atRoot_concluded_eq_ok.mpr ⟨t, hread, rfl⟩⟩
  · have hfirst : Schema.outputName (user.options.merge o) first = "userid" := by decide +kernel
    have hsecond : Schema.outputName (user.options.merge o) second = "userid" := by decide +kernel
    have hgiven : user.GivenOut (c.entities (user.options.merge o)) (.root (user.options.merge o)) Calls.none record _ :=
      .rendered (f := first) rfl rfl (.plain rfl) (.rendered (f := second) rfl rfl (.plain rfl) .nil)
    have hdump := dump_eq_ok_iff.mpr ⟨_, hgiven, rfl⟩
    rw [Context.root, hfirst, hsecond] at hdump
    exact hdump

end Catalog

end Conform

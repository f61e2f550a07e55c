import Conform.Proofs.Parse.Accepted
import Conform.Proofs.Schema.Update
import Conform.Proofs.Schema.Waiting

/-! Accepted readings of records. Each step of an accepted reading is one of few: an absent field is filled with its
    default or is not required, a field with a value is read or excluded by its policy, and one with a
    discriminator waits. Everything else collects a failure, so it is never accepted. -/

namespace Conform

open Parse

namespace Schema

variable {s : Schema} {E : Entities} {f : Field} {v : Value} {o : Options} {r r' : Resolved} {waiting : Waiting}
  {input : Record} {hits : List String} {m : Matches} {state t : ParseState}

/-! ### Sound steps -/

section Sound

variable (hE : Coupling.sound.AlikeEntities E E)

include hE

theorem sound_readField (pass : Pass) (f : Field) (v : Value) (r : Resolved) : Parse.Sound (readField E pass f v r) :=
  (Coupling.rel_readField hE pass (fun _ _ => trivial) v r).left.toSound

theorem sound_visitField (pass : Pass) (input : Record) (hits : List String) (f : Field) (r : Resolved)
    (waiting : Waiting) : Parse.Sound (visitField E pass input hits f r waiting) :=
  (Coupling.rel_visitField hE pass (fun _ _ => trivial) input hits r fun _ _ _ _ => trivial).left.toSound

theorem sound_visitFields (pass : Pass) (input : Record) (m : Matches) (fields : List Field) (r : Resolved)
    (waiting : Waiting) : Parse.Sound (visitFields E pass input m fields r waiting) :=
  (Coupling.rel_visitFields hE pass input (fun _ => rfl) fields (fun _ _ _ _ => trivial) r waiting
    fun _ _ _ _ => trivial).left.toSound

theorem sound_readWaiting (pass : Pass) (waiting : Waiting) (r : Resolved) :
    Parse.Sound (readWaiting E pass waiting r) :=
  (Coupling.rel_readWaiting hE pass waiting (fun _ _ _ _ => trivial) r).left.toSound

theorem sound_visitExcesses (input : Record) (keys : List String) (r : Resolved) :
    Parse.Sound (visitExcesses E input keys r) :=
  (Coupling.rel_visitExcesses hE Coupling.keepsPolicy_sound input keys r).left.toSound

end Sound

theorem sound_fillIfFull (pass : Pass) (f : Field) (r : Resolved) : Parse.Sound (fillIfFull pass f r) :=
  (Coupling.rel_fillIfFull (K := Coupling.sound) pass (fun _ _ => trivial) r).left.toSound

theorem sound_finalize (s : Schema) (values : Record) (supplied : List String) (extras : Record) :
    Parse.Sound (s.finalize values supplied extras) :=
  (Coupling.rel_finalize (K := Coupling.sound) s values supplied extras).left.toSound

/-! ### Accepted steps -/

/-- What an absent field leaves where that is accepted: its default, or nothing if it is not required. -/
inductive Filled (f : Field) (o : Options) (r : Resolved) : Resolved → Prop
  | default (v : Value) : f.default.isSome → Filled f o r { r with values := r.values.insert f.name v }
  | nothing : f.isRequired o = false → Filled f o r r

theorem filled_of_accepts (hclean : state.context.failures = []) (h : Accepts (fillAbsent f r) state r' t) :
    Filled f state.context.options r r' := by
  rw [fillAbsent, accepts_options] at h
  obtain ⟨ws, calls, hstep⟩ := accepts_passes (s := state) (passes_called (f.produce state.context.options false))
  rw [hstep] at h
  cases hproduced : (f.produce state.context.options false state.calls).1 with
  | some v =>
    rw [hproduced] at h
    obtain ⟨rfl, -⟩ := (accepts_pure (by exact hclean)).mp h
    refine .default v ?_
    by_contra hnone
    rw [Option.not_isSome_iff_eq_none] at hnone
    simp [Field.produce, hnone] at hproduced
  | none =>
    rw [hproduced] at h
    by_cases hrequired : f.isRequired state.context.options = true
    · simp only [if_pos hrequired] at h
      exact absurd h (not_accepts_collect_at passes_route (fun _ => .pure trivial) (fun _ => List.cons_ne_nil _ _) hclean)
    · simp only [if_neg hrequired] at h
      obtain ⟨rfl, -⟩ := (accepts_pure (by exact hclean)).mp h
      exact .nothing (by simpa using hrequired)

/-- What a field with a value leaves where that is accepted: what is read of the value or preserved of it, or what an
    absent field leaves, if the value is excluded. -/
inductive Took (E : Entities) (f : Field) (v : Value) (state : ParseState) (r : Resolved) : Resolved → Prop
  | value {outcome : Outcome} {w : Value} :
    Reading.Admitted ((f.ruleFor r.values).reading E) v (.key f.name) (f.policy state.context.options) state outcome →
    outcome.value? = some w →
    Took E f v state r { r with values := r.values.insert f.name w, supplied := f.name :: r.supplied }
  | excluded {r' : Resolved} : f.policy state.context.options = .exclude → Filled f state.context.options r r' →
    Took E f v state r r'

theorem took_of_accepts (hE : Coupling.sound.AlikeEntities E E) (hclean : state.context.failures = [])
    (h : Accepts (readField E .full f v r) state r' t) : Took E f v state r r' := by
  have hparses : Parse.Sound (f.parseValue E v r.values) := (Coupling.rel_parseValue hE v r.values).left.toSound
  rw [readField, accepts_seq hparses ?steps hclean] at h
  case steps =>
    intro outcome
    cases outcome with
    | parsed w | preserved w => exact .pure trivial
    | excluded => exact sound_fillIfFull .full f r
    | collected => exact .pure trivial
  obtain ⟨outcome, u, hparse, hplace, hrest⟩ := h
  have hadmitted : Reading.Admitted ((f.ruleFor r.values).reading E) v (.key f.name) (f.policy state.context.options) state
      outcome := by
    have hrule : Parse.Sound (((f.ruleFor r.values).reading E).read v) :=
      ((Coupling.alike_reading hE _).read v).left.toSound
    unfold Field.parseValue at hparse
    -- The notice that a field is deprecated is a warning, which changes nothing in how its value is read.
    cases hdeprecated : f.deprecated with
    | none =>
      rw [hdeprecated] at hparse
      exact Reading.admitted_of_accepts hrule hclean (accepts_options.mp hparse)
    | some replacement =>
      rw [hdeprecated] at hparse
      have hwarn : (warn (f.deprecationMessage replacement)).outcome state =
          (.ok (), ⟨state.context.warn (f.deprecationMessage replacement), state.calls⟩) := rfl
      rw [Accepts, outcome_bind_of_ok hwarn] at hparse
      have hread := Reading.admitted_of_accepts (s := ⟨state.context.warn _, state.calls⟩) hrule hclean
        (accepts_options.mp hparse)
      cases hread with
      | parsed hchild haccepts => exact .parsed hchild haccepts
      | preserved hpolicy => exact .preserved hpolicy
      | excluded hpolicy => exact .excluded hpolicy
  cases outcome with
  | parsed w | preserved w =>
    obtain ⟨rfl, -⟩ := (accepts_pure hparse.2).mp hrest
    exact .value hadmitted rfl
  | excluded =>
    refine .excluded ?_ (hplace.options ▸ filled_of_accepts hparse.2 hrest)
    cases hadmitted
    assumption
  | collected => cases hadmitted

/-- What the visit of a field that is seen leaves where a whole record is read and the visit is accepted. -/
inductive Visit (E : Entities) (input : Record) (hits : List String) (f : Field) (state : ParseState) (r : Resolved)
    (waiting : Waiting) : Resolved × Waiting → Prop
  | absent {r' : Resolved} : f.taken? .full state.context.options input hits = none →
    (hits = [] ∨ ∃ v, f.takesNoInput state.context.options (some v) = true) → Filled f state.context.options r r' →
    Visit E input hits f state r waiting (r', waiting)
  | read {v : Value} {r' : Resolved} : f.taken? .full state.context.options input hits = some v →
    f.discriminator = none → Took E f v state r r' → Visit E input hits f state r waiting (r', waiting)
  | waits {v : Value} : f.taken? .full state.context.options input hits = some v → f.discriminator.isSome →
    Visit E input hits f state r waiting (r, waiting ++ [(f, v)])

theorem filled_of_accepts_rest {x : Resolved × Waiting} (hclean : state.context.failures = [])
    (h : Accepts (fillIfFull .full f r >>= fun r' => pure (r', waiting)) state x t) :
    ∃ r', Filled f state.context.options r r' ∧ x = (r', waiting) := by
  obtain ⟨r', u, hfill, -, hrest⟩ := (accepts_seq (sound_fillIfFull .full f r) (fun _ => .pure trivial) hclean).mp h
  obtain ⟨rfl, -⟩ := (accepts_pure hfill.2).mp hrest
  exact ⟨r', filled_of_accepts hclean hfill, rfl⟩

theorem visit_of_accepts (hE : Coupling.sound.AlikeEntities E E) (hclean : state.context.failures = [])
    (hseen : f.isHidden state.context.options = false) (hhits : ∀ key ∈ hits, key ∈ input.names)
    {x : Resolved × Waiting} (h : Accepts (visitField E .full input hits f r waiting) state x t) :
    Visit E input hits f state r waiting x := by
  rw [visitField, accepts_options, hseen, if_neg Bool.false_ne_true] at h
  cases hits with
  | nil =>
    obtain ⟨r', hfilled, rfl⟩ := filled_of_accepts_rest hclean h
    exact .absent (by simp [Field.taken?]) (.inl rfl) hfilled
  | cons key others =>
    simp only at h
    -- Several keys for one field are a failure, which no accepted visit has.
    by_cases hconflict : (!others.isEmpty && !state.context.options.ignoresAliasConflicts) = true
    · rw [if_pos hconflict] at h
      exact absurd h (not_accepts_collect_at (passes_fieldRoute f) (fun _ => .pure trivial) (fun _ => List.cons_ne_nil _ _)
        hclean)
    rw [if_neg hconflict] at h
    cases hget : input.get? key with
    | none => exact absurd (hhits key List.mem_cons_self) (Record.get?_eq_none_iff.mp hget)
    | some v =>
      have htaken : f.taken? .full state.context.options input (key :: others) =
          if f.takesNoInput state.context.options (some v) then none else some v := by
        simp only [Field.taken?, hseen, Bool.false_eq_true, if_false, if_neg hconflict, hget, Option.filter, Field.admits]
        by_cases hinput : f.takesNoInput state.context.options (some v) = true <;> simp [hinput]
      rw [hget] at h
      simp only [visitGiven] at h
      rw [accepts_options] at h
      by_cases hinput : f.takesNoInput state.context.options (some v) = true
      · rw [if_pos hinput] at h htaken
        obtain ⟨r', hfilled, rfl⟩ := filled_of_accepts_rest hclean h
        exact .absent htaken (.inr ⟨v, hinput⟩) hfilled
      rw [if_neg hinput] at h htaken
      rw [if_neg (by simp)] at h
      by_cases hwaits : f.discriminator.isSome = true
      · rw [if_pos hwaits] at h
        obtain ⟨rfl, -⟩ := (accepts_pure hclean).mp h
        exact .waits htaken hwaits
      · rw [if_neg hwaits] at h
        obtain ⟨r', u, hread, -, hrest⟩ := (accepts_seq (sound_readField hE .full f v r) (fun _ => .pure trivial) hclean).mp h
        obtain ⟨rfl, -⟩ := (accepts_pure hread.2).mp hrest
        exact .read htaken (by simpa using hwaits) (took_of_accepts hE hclean hread)

/-! ### Whole readings -/

/-- An accepted reading of a record reads the input and then arranges what was found. -/
theorem stages_of_accepts (hE : Coupling.sound.AlikeEntities E E) (hclean : state.context.failures = []) {record : Record}
    (h : Accepts (s.readRecord E v) state record t) :
    ∃ r u, Accepts (s.resolve E .full v) state r u ∧ state.context.At u.context ∧
      Accepts (s.finalize r.values r.supplied r.extras) u record t :=
  (accepts_seq (Coupling.rel_resolve hE (Coupling.suits_sound s) .full v).left.toSound
    (fun r => sound_finalize s r.values r.supplied r.extras) hclean).mp h

/-- An accepted reading of an input visits the fields, reads those that wait and then the keys of no field, of which it
    refuses none. -/
theorem parts_of_accepts (hE : Coupling.sound.AlikeEntities E E) (hclean : state.context.failures = [])
    (h : Accepts (s.resolve E .full v) state r t) :
    ∃ x u q u', state.context.At u.context ∧ u.context.At u'.context ∧
      Accepts (visitFields E .full (givenRecord state.context.options v)
        (s.matchKeys state.context.options (givenRecord state.context.options v).names) s.fields ⟨[], [], []⟩ []) state x u ∧
      Accepts (readWaiting E .full x.2 x.1) u q u' ∧
      Accepts (visitExcesses E (givenRecord state.context.options v)
        (s.matchKeys state.context.options (givenRecord state.context.options v).names).excess q) u' ([], r) t := by
  obtain ⟨hok, hlast⟩ := h
  obtain ⟨input, state', hinput, hok⟩ := outcome_bind_eq_ok hok
  obtain ⟨rfl, rfl⟩ := eq_givenRecord hinput
  rw [outcome_bind_of_ok (outcome_options state')] at hok
  -- Keys that are refused are collected in the end, so an accepted reading has none.
  have hrefuse (y : List String × Resolved) : Parse.Sound (do
      unless y.1.isEmpty do Parse.collect (.excess (← Parse.route) y.1)
      pure y.2) := by
    cases y.1 with
    | nil => exact .pure trivial
    | cons key others =>
      have hsolid (route : Route) : (Failure.excess route (key :: others)).Solid := List.cons_ne_nil _ _
      exact (Parse.Sound.of_passes passes_route).bind fun route =>
        (sound_collect (hsolid route)).bind fun _ => .pure trivial
  have hexcesses := sound_visitExcesses hE (givenRecord state'.context.options v)
    (s.matchKeys state'.context.options (givenRecord state'.context.options v).names).excess
  have hwaiting (x : Resolved × Waiting) := sound_readWaiting hE .full x.2 x.1
  obtain ⟨x, u, hvisit, hplace, hrest⟩ := (accepts_seq (sound_visitFields hE .full _ _ s.fields _ [])
    (fun x => (hwaiting x).bind fun q => (hexcesses q).bind hrefuse) hclean).mp ⟨hok, hlast⟩
  obtain ⟨q, u', hread, hplace', hrest⟩ :=
    (accepts_seq (hwaiting x) (fun q => (hexcesses q).bind hrefuse) hvisit.2).mp hrest
  obtain ⟨y, u'', hexcess, -, hrest⟩ := (accepts_seq (hexcesses q) hrefuse hread.2).mp hrest
  obtain ⟨refused, r'⟩ := y
  cases refused with
  | nil =>
    obtain ⟨rfl, rfl⟩ := (accepts_pure hexcess.2).mp hrest
    exact ⟨x, u, q, u', hplace, hplace', hvisit, hread, hexcess⟩
  | cons key others =>
    exact absurd hrest (not_accepts_collect_at passes_route (fun _ => .pure trivial) (fun _ => List.cons_ne_nil _ _)
      hexcess.2)

end Schema

/-- An input is parsed if and only if the schema accepts it at the root. -/
theorem Catalog.parse_eq_ok_iff {c : Catalog} {s : Schema} {v : Value} {o : Options} {calls : Calls} {values : Record}
    {ws : List Warning} :
    (c.parse s v o calls).1 = .ok (values, ws) ↔
      ∃ t, Accepts (s.readRecord (c.entities (s.options.merge o)) v) ⟨.root (s.options.merge o), calls⟩ values t ∧
        t.context.warnings = ws := by
  refine atRoot_concluded_eq_ok.trans (exists_congr fun t => and_congr_left fun _ => ?_)
  unfold readRecord
  exact accepts_options

end Conform

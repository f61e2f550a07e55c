import Conform.Conformance
import Conform.Proofs.Parse.Place
import Conform.Proofs.Record
import Conform.Proofs.Schema.Keys

/-! Fields that wait. A field with a discriminator waits until the fields without one are read, and those that wait
    are then read one after the other, as they were declared. So at its turn a field finds the values of all the
    fields that do not wait and of those that waited before it, and these are final; of itself and of those behind
    it there is none. -/

namespace Conform

open Parse

/-! ### Turns -/

/-- Whether a field takes a value. -/
def Field.admits (f : Field) (pass : Pass) (o : Options) (v : Value) : Bool :=
  !f.takesNoInput o (some v) && !(pass = .update && f.immutable)

/-- The value that a field takes from an input, of which some keys belong to it. -/
def Field.taken? (f : Field) (pass : Pass) (o : Options) (input : Record) (hits : List String) : Option Value :=
  if f.isHidden o then none
  else match hits with
    | [] => none
    | key :: others =>
      if !others.isEmpty && !o.ignoresAliasConflicts then none else (input.get? key).filter (f.admits pass o)

/-- A field with its value, if it is read by a discriminator. -/
def Field.queued? (f : Field) (v : Value) : Option (Field × Value) := if f.discriminator.isSome then some (f, v) else none

/-- A field with the value that it takes from an input, if it waits then. -/
def Field.awaits? (f : Field) (pass : Pass) (o : Options) (input : Record) (hits : List String) :
    Option (Field × Value) :=
  (f.taken? pass o input hits).bind f.queued?

theorem Field.eq_of_awaits? {f : Field} {pass : Pass} {o : Options} {input : Record} {hits : List String}
    {e : Field × Value} (h : f.awaits? pass o input hits = some e) : e.1 = f := by
  obtain ⟨v, -, hqueued⟩ := Option.bind_eq_some_iff.mp h
  unfold queued? at hqueued
  split at hqueued
  · cases hqueued
    rfl
  · cases hqueued

theorem Field.ruleFor_congr {f : Field} {values values' : Record}
    (h : ∀ d ∈ f.discriminator, values.get? d.field = values'.get? d.field) : f.ruleFor values = f.ruleFor values' := by
  unfold ruleFor
  cases hd : f.discriminator with
  | none => rfl
  | some d => simp only [Option.bind_eq_bind, Option.bind_some, h d hd]

theorem Field.ruleFor_of_absent {f : Field} {d : Discriminator} {values : Record} (hd : f.discriminator = some d)
    (h : values.get? d.field = none) : f.ruleFor values = f.rule := by
  simp [ruleFor, hd, h]

namespace Schema

variable {s : Schema} {E : Entities} {pass : Pass} {f : Field} {v : Value} {r r' : Resolved}
  {waiting waiting' : Waiting} {input : Record} {state t : ParseState}

/-! ### Single fields -/

/-- What has been read under other names stays. -/
def Kept (name : String) (r r' : Resolved) : Prop := ∀ n, n ≠ name → r'.values.get? n = r.values.get? n

theorem kept_insert (f : Field) (w : Value) (supplied : List String) :
    Kept f.name r { r with values := r.values.insert f.name w, supplied } := by
  intro n hn
  rw [Record.get?_insert, if_neg hn]

theorem gives_fillAbsent_kept (f : Field) (r : Resolved) : Gives (Kept f.name r) (fillAbsent f r) := by
  refine .bind_any fun o => .bind_any fun found => ?_
  cases found with
  | some v => exact .pure (kept_insert f v r.supplied)
  | none =>
    simp only
    split
    · exact .bind_any fun _ => .bind_any fun _ => .pure fun _ _ => rfl
    · exact .pure fun _ _ => rfl

theorem gives_fillIfFull_kept (pass : Pass) (f : Field) (r : Resolved) : Gives (Kept f.name r) (fillIfFull pass f r) := by
  unfold fillIfFull
  split
  · exact gives_fillAbsent_kept f r
  · exact .pure fun _ _ => rfl

theorem gives_readField_kept (E : Entities) (pass : Pass) (f : Field) (v : Value) (r : Resolved) :
    Gives (Kept f.name r) (readField E pass f v r) := by
  refine .bind_any fun outcome => ?_
  cases outcome with
  | parsed w | preserved w => exact .pure (kept_insert f w _)
  | excluded => exact gives_fillIfFull_kept pass f r
  | collected => exact .pure fun _ _ => rfl

theorem stays_called {α : Type} (draw : Calls → α × Calls) : Stays (called draw) := fun s => .refl s.context

theorem stays_fieldRoute (f : Field) : Stays (fieldRoute f) := stays_route.bind fun _ => .pure _

theorem stays_fillIfFull (pass : Pass) (f : Field) (r : Resolved) : Stays (fillIfFull pass f r) := by
  unfold fillIfFull
  split
  · refine stays_options.bind fun o => (stays_called _).bind fun found => ?_
    cases found with
    | some v => exact .pure _
    | none =>
      simp only
      split
      · exact stays_route.bind fun _ => (stays_collect _).bind fun _ => .pure r
      · exact .pure r
  · exact .pure r

theorem stays_readField (E : Entities) (pass : Pass) (f : Field) (v : Value) (r : Resolved) :
    Stays (readField E pass f v r) := by
  have hparse : Stays (f.parseValue E v r.values) := by
    have hread : Stays
        (do ((f.ruleFor r.values).reading E).guarded v (.key f.name) (f.policy (← Parse.options))) :=
      stays_options.bind fun o => Reading.stays_guarded _ v _ _
    unfold Field.parseValue
    cases f.deprecated with
    | none => exact hread
    | some replacement => exact (stays_warn _).bind fun _ => hread
  refine hparse.bind fun outcome => ?_
  cases outcome with
  | parsed w | preserved w => exact .pure _
  | excluded => exact stays_fillIfFull pass f r
  | collected => exact .pure r

/-- The value of a field is read by a rule somewhere at a place; what comes of it is what the field has. -/
def ReadBy (E : Entities) (q : Rule) (f : Field) (v : Value) (c : Context) (values : Record) : Prop :=
  ∃ (state t : ParseState) (outcome : Outcome), c.At state.context ∧
    ((q.reading E).guarded v (.key f.name) (f.policy c.options)).outcome state = (.ok outcome, t) ∧
    ∀ w, outcome.value? = some w → values.get? f.name = some w

theorem ReadBy.imp {q : Rule} {c d : Context} {values values' : Record} (h : ReadBy E q f v c values) (hplace : d.At c)
    (hvalues : ∀ w, values.get? f.name = some w → values'.get? f.name = some w) : ReadBy E q f v d values' := by
  obtain ⟨state, t, outcome, hplace', hrun, hvalue⟩ := h
  exact ⟨state, t, outcome, hplace.trans hplace', hplace.options ▸ hrun, fun w hw => hvalues w (hvalue w hw)⟩

theorem readBy_of_readField (h : (readField E pass f v r).outcome state = (.ok r', t)) :
    ReadBy E (f.ruleFor r.values) f v state.context r'.values := by
  obtain ⟨outcome, u, hparse, hrest⟩ := outcome_bind_eq_ok h
  have hread : ∃ u' : ParseState, state.context.At u'.context ∧
      (((f.ruleFor r.values).reading E).guarded v (.key f.name) (f.policy state.context.options)).outcome u' =
        (.ok outcome, u) := by
    unfold Field.parseValue at hparse
    cases hdeprecated : f.deprecated with
    | none =>
      rw [hdeprecated] at hparse
      exact ⟨state, .refl _, hparse⟩
    | some replacement =>
      rw [hdeprecated] at hparse
      exact ⟨⟨state.context.warn (f.deprecationMessage replacement), state.calls⟩, ⟨rfl, rfl, rfl⟩, hparse⟩
  obtain ⟨u', hplace, hguarded⟩ := hread
  refine ⟨u', u, outcome, hplace, hguarded, fun w hw => ?_⟩
  cases outcome with
  | parsed x | preserved x =>
    cases hw
    cases hrest
    rw [Record.get?_insert, if_pos rfl]
  | excluded | collected => cases hw

/-! ### Visits -/

/-- A field that is visited waits if it awaits, and then nothing is read; else nothing is read but itself. -/
structure Visited (f : Field) (awaited : Option (Field × Value)) (r : Resolved) (waiting : Waiting)
    (x : Resolved × Waiting) : Prop where
  waiting : x.2 = waiting ++ awaited.toList
  kept : Kept f.name r x.1
  values : awaited.isSome → x.1 = r

theorem visited_rest (f : Field) (r : Resolved) (waiting : Waiting) : Visited f none r waiting (r, waiting) :=
  ⟨(List.append_nil waiting).symm, fun _ _ => rfl, fun h => by cases h⟩

theorem gives_visited {p : Parse Resolved} (h : Gives (Kept f.name r) p) (waiting : Waiting) :
    Gives (Visited f none r waiting) (p >>= fun r' => pure (r', waiting)) :=
  h.bind fun _ hr' => .pure ⟨(List.append_nil waiting).symm, hr', fun h => by cases h⟩

theorem gives_collected {α : Type} (p : Parse α) (failure : α → Failure) (f : Field) (r : Resolved) (waiting : Waiting) :
    Gives (Visited f none r waiting) (do
      collect (failure (← p))
      pure (r, waiting)) :=
  .bind_any fun _ => .bind_any fun _ => .pure (visited_rest f r waiting)

theorem visited_of_visitGiven (E : Entities) (pass : Pass) (f : Field) (v : Value) (r : Resolved)
    (waiting : Waiting) {x : Resolved × Waiting} (h : (visitGiven E pass f v r waiting).outcome state = (.ok x, t)) :
    Visited f ((Option.filter (f.admits pass state.context.options) (some v)).bind f.queued?) r waiting x := by
  rw [visitGiven, outcome_bind_of_ok (outcome_options state)] at h
  unfold Option.filter Field.admits
  by_cases hinput : f.takesNoInput state.context.options (some v) = true
  · rw [if_pos hinput] at h
    simp only [hinput, Bool.not_true, Bool.false_and, Bool.false_eq_true, if_false, Option.bind_none]
    exact (gives_visited (gives_fillIfFull_kept pass f r) waiting).elim h
  rw [if_neg hinput] at h
  rw [Bool.not_eq_true] at hinput
  by_cases hfixed : (decide (pass = .update) && f.immutable) = true
  · rw [if_pos hfixed] at h
    simp only [hinput, hfixed, Bool.not_true, Bool.and_false, Bool.false_eq_true, if_false, Option.bind_none]
    exact (gives_collected (fieldRoute f) _ f r waiting).elim h
  rw [if_neg hfixed] at h
  rw [Bool.not_eq_true] at hfixed
  simp only [hinput, hfixed, Bool.not_false, Bool.and_self, if_true, Option.bind_some]
  unfold Field.queued?
  by_cases hwaits : f.discriminator.isSome = true
  · rw [if_pos hwaits] at h ⊢
    cases h
    exact ⟨rfl, fun _ _ => rfl, fun _ => rfl⟩
  · rw [if_neg hwaits] at h ⊢
    exact (gives_visited (gives_readField_kept E pass f v r) waiting).elim h

theorem visited_of_visitField {hits : List String} {x : Resolved × Waiting}
    (h : (visitField E pass input hits f r waiting).outcome state = (.ok x, t)) :
    Visited f (f.awaits? pass state.context.options input hits) r waiting x := by
  rw [visitField, outcome_bind_of_ok (outcome_options state)] at h
  unfold Field.awaits? Field.taken?
  by_cases hhidden : f.isHidden state.context.options = true
  · rw [if_pos hhidden] at h ⊢
    cases h
    exact visited_rest f r waiting
  rw [if_neg hhidden] at h ⊢
  cases hits with
  | nil => exact (gives_visited (gives_fillIfFull_kept pass f r) waiting).elim h
  | cons key others =>
    simp only at h ⊢
    by_cases hconflict : (!others.isEmpty && !state.context.options.ignoresAliasConflicts) = true
    · rw [if_pos hconflict] at h ⊢
      exact (gives_collected (fieldRoute f) _ f r waiting).elim h
    · rw [if_neg hconflict] at h ⊢
      cases hv : input.get? key with
      | none =>
        rw [hv] at h
        cases h
        exact visited_rest f r waiting
      | some v =>
        rw [hv] at h
        exact visited_of_visitGiven E pass f v r waiting h

theorem stays_visitGiven (E : Entities) (pass : Pass) (f : Field) (v : Value) (r : Resolved) (waiting : Waiting) :
    Stays (visitGiven E pass f v r waiting) := by
  refine stays_options.bind fun o => ?_
  split
  · exact (stays_fillIfFull pass f r).bind fun _ => .pure _
  split
  · exact (stays_fieldRoute f).bind fun _ => (stays_collect _).bind fun _ => .pure _
  split
  · exact .pure _
  · exact (stays_readField E pass f v r).bind fun _ => .pure _

theorem stays_visitField (E : Entities) (pass : Pass) (input : Record) (hits : List String) (f : Field) (r : Resolved)
    (waiting : Waiting) : Stays (visitField E pass input hits f r waiting) := by
  refine stays_options.bind fun o => ?_
  split
  · exact .pure _
  cases hits with
  | nil => exact (stays_fillIfFull pass f r).bind fun _ => .pure _
  | cons key others =>
    simp only
    split
    · exact (stays_fieldRoute f).bind fun _ => (stays_collect _).bind fun _ => .pure _
    · cases input.get? key with
      | some v => exact stays_visitGiven E pass f v r waiting
      | none => exact .pure _

/-- The fields that wait after a visit of all are those that await, in the order of declaration; and under their names
    nothing was read. -/
theorem visited_of_visitFields {m : Matches} (fields : List Field) :
    ∀ {r : Resolved} {waiting : Waiting} {x : Resolved × Waiting} {state t : ParseState},
      (visitFields E pass input m fields r waiting).outcome state = (.ok x, t) →
      state.context.At t.context ∧
        x.2 = waiting ++ fields.filterMap (fun f => f.awaits? pass state.context.options input (m.of f.name)) ∧
        ∀ name, (∀ f ∈ fields, f.name = name → (f.awaits? pass state.context.options input (m.of f.name)).isSome) →
          x.1.values.get? name = r.values.get? name := by
  induction fields with
  | nil =>
    intro r waiting x state t h
    cases h
    exact ⟨.refl _, (List.append_nil waiting).symm, fun _ _ => rfl⟩
  | cons f rest ih =>
    intro r waiting x state t h
    obtain ⟨y, u, hfirst, hrest⟩ := outcome_bind_eq_ok h
    have hplace := (stays_visitField E pass input _ f r waiting).of_ok hfirst
    have hvisited := visited_of_visitField hfirst
    obtain ⟨hplace', hwaiting, hvalues⟩ := ih hrest
    rw [← hplace.options] at hwaiting hvalues
    refine ⟨hplace.trans hplace', ?_, fun name hname => ?_⟩
    · rw [hwaiting, hvisited.waiting, List.append_assoc, List.filterMap_cons]
      cases f.awaits? pass state.context.options input (m.of f.name) <;> rfl
    · obtain ⟨hf, hothers⟩ := List.forall_mem_cons.mp hname
      rw [hvalues name hothers]
      by_cases heq : f.name = name
      · rw [hvisited.values (hf heq)]
      · exact hvisited.kept name fun h => heq h.symm

/-! ### Turns -/

/-- The names of fields that wait. -/
def Waiting.names (waiting : Waiting) : List String := waiting.map fun e => e.1.name

theorem kept_of_readWaiting (waiting : Waiting) : ∀ {r r' : Resolved} {state t : ParseState},
    (readWaiting E pass waiting r).outcome state = (.ok r', t) →
    ∀ name ∉ Waiting.names waiting, r'.values.get? name = r.values.get? name := by
  induction waiting with
  | nil =>
    intro r r' state t h name _
    cases h
    rfl
  | cons e rest ih =>
    intro r r' state t h name hname
    obtain ⟨q, u, hfirst, hrest⟩ := outcome_bind_eq_ok h
    obtain ⟨hne, hothers⟩ := not_or.mp (mt List.mem_cons.mpr hname)
    rw [ih hrest name hothers]
    exact (gives_readField_kept E pass e.1 e.2 r).elim hfirst name hne

/-- At its turn a field finds what was read before and the values of those that waited before it, as they are in the
    end; of itself and those behind it, it finds what was there before all of them. -/
theorem turn_of_readWaiting {behind : Waiting} (before : Waiting) : ∀ {r r' : Resolved} {state t : ParseState},
    (readWaiting E pass (before ++ (f, v) :: behind) r).outcome state = (.ok r', t) →
    (Waiting.names (before ++ (f, v) :: behind)).Nodup →
    ∃ found : Resolved, ReadBy E (f.ruleFor found.values) f v state.context r'.values ∧
      ∀ name, found.values.get? name =
        if name ∈ Waiting.names ((f, v) :: behind) then r.values.get? name else r'.values.get? name := by
  induction before with
  | nil =>
    -- It is its turn; those behind it have other names, so they leave its value.
    intro r r' state t h hnodup
    obtain ⟨q, u, hfirst, hrest⟩ := outcome_bind_eq_ok h
    obtain ⟨hfresh, -⟩ := List.nodup_cons.mp hnodup
    have hkept := kept_of_readWaiting behind hrest
    refine ⟨r, (readBy_of_readField hfirst).imp (.refl _) fun w hw => ?_, fun name => ?_⟩
    · rw [hkept f.name hfresh]
      exact hw
    · split
      · rfl
      · rename_i hname
        obtain ⟨hne, hothers⟩ := not_or.mp (mt List.mem_cons.mpr hname)
        rw [hkept name hothers]
        exact ((gives_readField_kept E pass f v r).elim hfirst name hne).symm
  | cons e rest ih =>
    intro r r' state t h hnodup
    obtain ⟨q, u, hfirst, hrest⟩ := outcome_bind_eq_ok h
    obtain ⟨hfresh, hothers⟩ := List.nodup_cons.mp hnodup
    have hplace := (stays_readField E pass e.1 e.2 r).of_ok hfirst
    obtain ⟨found, hread, hfound⟩ := ih hrest hothers
    refine ⟨found, hread.imp hplace fun _ => id, fun name => ?_⟩
    rw [hfound name]
    split
    · rename_i hname
      refine (gives_readField_kept E pass e.1 e.2 r).elim hfirst name ?_
      rintro rfl
      refine hfresh ?_
      rw [List.append_eq, List.map_append]
      exact List.mem_append_right _ hname
    · rfl

end Schema

end Conform

import Conform.Proofs.Ground.Reading

/-! Schemas on a ground. A schema reads its fields one step further, so where two runs of a schema concur is decided by
    the ground that such a step leads to: there the entities must be the same, and at the place of the schema itself
    nothing depends on them. -/

namespace Conform

open Parse

namespace Schema

variable {R : Route → Prop} {G H : Ground R} {E F : Entities} {s : Schema} {f : Field}

/-! ### Fields -/

theorem concur_fieldRoute (f : Field) : Parse.Concur G R (fieldRoute f) (fieldRoute f) :=
  concur_route.bind fun _ hr => Parse.Concur.pure (hr.2 _)

/-- A failure of a route within reach is collected. -/
theorem concur_collect_at {α : Type} {p : Parse Route} {failure : Route → Failure} (hp : Parse.Concur G R p p)
    (h : ∀ r, (failure r).routes = [r]) (a : α) :
    ConcurAt G (do collect (failure (← p)); pure a) (do collect (failure (← p)); pure a) := by
  refine hp.bind fun r hr => (concur_collect ?_).bind fun _ => ConcurAt.pure a
  rw [Failure.Within, h]
  exact List.forall_mem_singleton.mpr hr

theorem concur_here : Parse.Concur G R route route :=
  fun s hs hwithin => ⟨rfl, .ok (.refl s.context) hwithin (G.here hs)⟩

theorem concur_fillAbsent (f : Field) (r : Resolved) : ConcurAt G (fillAbsent f r) (fillAbsent f r) := by
  refine concur_options.bind fun o => (concur_called _).bind fun found => ?_
  cases found with
  | some v => exact ConcurAt.pure _
  | none =>
    simp only
    split
    · exact concur_collect_at concur_here (fun _ => rfl) r
    · exact ConcurAt.pure r

theorem concur_fillIfFull (pass : Pass) (f : Field) (r : Resolved) :
    ConcurAt G (fillIfFull pass f r) (fillIfFull pass f r) := by
  unfold fillIfFull
  split
  · exact concur_fillAbsent f r
  · exact ConcurAt.pure r

section Entities

variable (hG : G.Opens H) (hH : H.Opens H) (hE : E.Concur H F)

include hG hH hE

theorem concur_parseValue (f : Field) (v : Value) (siblings : Record) :
    ConcurAt G (f.parseValue E v siblings) (f.parseValue F v siblings) := by
  have hread : ConcurAt G
      (do ((f.ruleFor siblings).reading E).guarded v (.key f.name) (f.policy (← Parse.options)))
      (do ((f.ruleFor siblings).reading F).guarded v (.key f.name) (f.policy (← Parse.options))) :=
    concur_options.bind fun o => Reading.concur_guarded hG (Reading.concur_reading hH hE _) v _ _
  unfold Field.parseValue
  cases f.deprecated with
  | none => exact hread
  | some replacement => exact (concur_warn _).bind fun _ => hread

theorem concur_readField (pass : Pass) (f : Field) (v : Value) (r : Resolved) :
    ConcurAt G (readField E pass f v r) (readField F pass f v r) := by
  refine (concur_parseValue hG hH hE f v r.values).bind fun outcome => ?_
  cases outcome with
  | parsed w | preserved w => exact ConcurAt.pure _
  | excluded => exact concur_fillIfFull pass f r
  | collected => exact ConcurAt.pure r

theorem concur_visitGiven (pass : Pass) (f : Field) (v : Value) (r : Resolved) (waiting : Waiting) :
    ConcurAt G (visitGiven E pass f v r waiting) (visitGiven F pass f v r waiting) := by
  refine concur_options.bind fun o => ?_
  split
  · exact (concur_fillIfFull pass f r).bind fun _ => ConcurAt.pure _
  split
  · exact concur_collect_at (concur_fieldRoute f) (fun _ => rfl) _
  split
  · exact ConcurAt.pure _
  · exact (concur_readField hG hH hE pass f v r).bind fun _ => ConcurAt.pure _

theorem concur_visitField (pass : Pass) (input : Record) (hits : List String) (f : Field) (r : Resolved)
    (waiting : Waiting) :
    ConcurAt G (visitField E pass input hits f r waiting) (visitField F pass input hits f r waiting) := by
  refine concur_options.bind fun o => ?_
  split
  · exact ConcurAt.pure _
  cases hits with
  | nil => exact (concur_fillIfFull pass f r).bind fun _ => ConcurAt.pure _
  | cons key others =>
    simp only
    split
    · exact concur_collect_at (concur_fieldRoute f) (fun _ => rfl) _
    · cases input.get? key with
      | some v => exact concur_visitGiven hG hH hE pass f v r waiting
      | none => exact ConcurAt.pure _

theorem concur_visitFields (pass : Pass) (input : Record) (m : Matches) (fields : List Field) :
    ∀ r waiting, ConcurAt G (visitFields E pass input m fields r waiting) (visitFields F pass input m fields r waiting) := by
  induction fields with
  | nil => exact fun _ _ => ConcurAt.pure _
  | cons f rest ih =>
    intro r waiting
    exact (concur_visitField hG hH hE pass input _ f r waiting).bind fun x => ih x.1 x.2

theorem concur_readWaiting (pass : Pass) (waiting : Waiting) :
    ∀ r, ConcurAt G (readWaiting E pass waiting r) (readWaiting F pass waiting r) := by
  induction waiting with
  | nil => exact fun r => ConcurAt.pure r
  | cons e rest ih => exact fun r => (concur_readField hG hH hE pass e.1 e.2 r).bind fun r => ih r

/-! ### Keys of no field -/

theorem concur_visitExcess (key : String) (v : Value) (r : Resolved) :
    ConcurAt G (visitExcess E key v r) (visitExcess F key v r) := by
  refine concur_options.bind fun o => ?_
  cases o.additionRule with
  | some rule =>
    refine (Reading.concur_guarded hG (Reading.concur_reading hH hE rule) v (.key key) o.valuePolicy).bind fun outcome => ?_
    cases outcome.value? with
    | some w => exact ConcurAt.pure _
    | none => exact ConcurAt.pure _
  | none => cases o.excessPolicy <;> exact ConcurAt.pure _

theorem concur_visitExcesses (input : Record) (keys : List String) :
    ∀ r, ConcurAt G (visitExcesses E input keys r) (visitExcesses F input keys r) := by
  induction keys with
  | nil => exact fun _ => ConcurAt.pure _
  | cons key rest ih =>
    intro r
    unfold visitExcesses
    cases input.get? key with
    | none => exact ih r
    | some v =>
      refine (concur_visitExcess hG hH hE key v r).bind fun x => ?_
      exact (ih x.2).bind fun _ => ConcurAt.pure _

end Entities

/-! ### Records -/

theorem concur_inputRecord (s : Schema) (v : Value) : ConcurAt G (s.inputRecord v) (s.inputRecord v) := by
  have hrefuse (cause : ConversionError) : ConcurAt G
      (do throw (.coercion (← route) v s.name cause) : Parse Record) (do throw (.coercion (← route) v s.name cause)) :=
    concur_throw_here fun _ => rfl
  refine concur_options.bind fun o => ?_
  cases o.convert v .map with
  | error cause => exact hrefuse cause
  | ok w =>
    cases w with
    | map entries => exact ConcurAt.pure _
    | _ => exact hrefuse _

theorem concur_reportBroken (supplied : List String) (values : Record) (f : Field) :
    ConcurAt G (reportBroken supplied values f) (reportBroken supplied values f) := by
  unfold reportBroken
  split
  · refine concur_options.bind fun o => ?_
    cases f.policy o with
    | throw =>
      refine (concur_fieldRoute f).bind fun r hr => concur_collect ?_
      exact List.forall_mem_singleton.mpr hr
    | exclude | preserve => exact concur_warn _
  · exact ConcurAt.pure _

theorem concur_reportAll (supplied : List String) (values : Record) (fields : List Field) :
    ConcurAt G (reportAll supplied values fields) (reportAll supplied values fields) := by
  induction fields with
  | nil => exact ConcurAt.pure _
  | cons f rest ih => exact (concur_reportBroken supplied values f).bind fun _ => ih

theorem concur_dropBroken (s : Schema) (supplied : List String) (rounds : Nat) :
    ∀ values, ConcurAt G (s.dropBroken supplied rounds values) (s.dropBroken supplied rounds values) := by
  induction rounds with
  | zero => exact fun values => ConcurAt.pure values
  | succ rounds ih =>
    intro values
    unfold dropBroken
    simp only
    split
    · exact ConcurAt.pure values
    · exact (concur_reportAll supplied values _).bind fun _ => ih _

theorem concur_resolve (hG : G.Opens H) (hH : H.Opens H) (hE : E.Concur H F) (pass : Pass) (v : Value) :
    ConcurAt G (s.resolve E pass v) (s.resolve F pass v) := by
  refine (concur_inputRecord s v).bind fun input => concur_options.bind fun o => ?_
  refine (concur_visitFields hG hH hE pass input _ s.fields _ []).bind fun x => ?_
  refine (concur_readWaiting hG hH hE pass x.2 x.1).bind fun r => ?_
  refine (concur_visitExcesses hG hH hE input _ r).bind fun y => ?_
  simp only
  split
  · exact ConcurAt.pure _
  · exact concur_collect_at concur_here (fun _ => rfl) _

/-- A record is read the same where entities are, one step further. -/
theorem concur_readRecord (hG : G.Opens H) (hH : H.Opens H) (hE : E.Concur H F) (v : Value) :
    ConcurAt G (s.readRecord E v) (s.readRecord F v) := by
  refine (concur_resolve hG hH hE .full v).bind fun r => ?_
  exact (concur_dropBroken s r.supplied _ r.values).bind fun _ => ConcurAt.pure _

end Schema

/-! ### Catalogs -/

namespace Catalog

/-- What a target leads to, given what a schema is to those that read by it. -/
def lookup (c : Catalog) (make : Schema → Lookup) : Target → Lookup
  | .entity place _ => match c.schemas[place]? with
    | some s => make s
    | none => .plain
  | .reference r => match (c.references.content? r).bind (c.schemas[·]?) with
    | some s => make s
    | none => .unresolved r.name
  | _ => .plain

theorem entitiesWithin_succ (c : Catalog) (budget : Nat) :
    c.entitiesWithin (budget + 1) = c.lookup (entity (c.entitiesWithin budget)) := by
  funext t
  cases t <;> rfl

variable {R : Route → Prop} {G : Ground R} {c : Catalog}

theorem concur_lookup {make make' : Schema → Lookup} (h : ∀ s ∈ c.schemas, (make s).Concur G (make' s)) (t : Target) :
    (c.lookup make t).Concur G (c.lookup make' t) := by
  unfold lookup
  split
  · split
    · rename_i s hs
      exact h s (List.mem_of_getElem? hs)
    · exact .plain
  · split
    · rename_i s hs
      obtain ⟨place, -, hplace⟩ := Option.bind_eq_some_iff.mp hs
      exact h s (List.mem_of_getElem? hplace)
    · exact .unresolved _
  · exact .plain

/-- On a ground that neither a step nor a schema leads away from, what is known of the entities keeps to it. -/
theorem concur_entitiesWithin (hG : G.Opens G) (hmerge : ∀ s ∈ c.schemas, ∀ d, G.Holds d → G.Holds (d.speculateWith s.options))
    (budget : Nat) : (c.entitiesWithin budget).Concur G (c.entitiesWithin budget) := by
  induction budget with
  | zero => exact fun _ _ _ => .plain
  | succ budget ih =>
    intro _ _ t
    rw [entitiesWithin_succ]
    exact concur_lookup (fun s hs => .entity G rfl (hmerge s hs) (Schema.concur_readRecord hG hG ih)) t

end Catalog

end Conform

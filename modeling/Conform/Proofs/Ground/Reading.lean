import Conform.Proofs.Coupling.Reading
import Conform.Proofs.Ground.Basic
import Conform.Proofs.Rule.Constrained

/-! Readings on a ground. Readings of one rule under different knowledge of the entities concur wherever what they make
    of entities does: everything else in a rule is the same on both sides, and finds nothing out of reach. -/

namespace Conform

/-! ### What a rule says of itself -/

namespace Rule

theorem origin_reading (E : Entities) (r : Rule) : (r.reading E).origin = r.origin? := by
  obtain ⟨l⟩ := r
  rw [reading, fold_mk]
  rfl

theorem text_reading (E : Entities) (r : Rule) : (r.reading E).text = r.text := by
  refine Rule.induction (P := fun r => (r.reading E).text = r.text) (fun l ih => ?_) r
  have hparts : (l.map (Rule.reading E)).map Reading.text = l.map fun r => (r.reading E).text := by
    simp only [Layer.map, List.map_map, Option.map_map]
    congr 1
    · refine List.map_congr_left fun c _ => ?_
      obtain ⟨keyword, operand, lax⟩ := c
      cases operand <;> rfl
    · cases l.logic with
      | none => rfl
      | some logic => simp only [Option.map_some, Logic.map, List.map_map, Function.comp_def]
  rw [reading, fold_mk, text, fold_mk]
  exact congrArg layerText (hparts.trans ih.map_eq)

end Rule

open Parse

variable {R : Route → Prop}

/-- Two readings that do the same on a ground. -/
structure Reading.Concur (G : Ground R) (r s : Reading) : Prop where
  origin : r.origin = s.origin
  text : r.text = s.text
  read : ∀ v, ConcurAt G (r.read v) (s.read v)

/-- Targets that lead to the same, where an entity is read in a child on a ground of its own. -/
inductive Lookup.Concur (G : Ground R) : Lookup → Lookup → Prop
  | plain : Concur G .plain .plain
  | unresolved (name : String) : Concur G (.unresolved name) (.unresolved name)
  | entity {e e' : Entity} (H : Ground R) : e.options = e'.options →
    (∀ c, G.Holds c → H.Holds (c.speculateWith e.options)) → (∀ v, ConcurAt H (e.read v) (e'.read v)) →
    Concur G (.entity e) (.entity e')

/-- What is known of the entities is the same as far as the ground goes; nothing is asked if there is no place there. -/
def Entities.Concur (G : Ground R) (E F : Entities) : Prop := ∀ c, G.Holds c → ∀ t, (E t).Concur G (F t)

namespace Reading

variable {G H : Ground R} {r s : Reading} {ρ : Type} {f g : ρ → Reading}

/-! ### Elements -/

theorem concur_guarded (hopens : G.Opens H) (h : r.Concur H s) (v : Value) (item : RouteItem) (policy : ErrorPolicy) :
    ConcurAt G (r.guarded v item policy) (s.guarded v item policy) := by
  refine (concur_enter hopens item).bind fun child hchild => ?_
  refine ((h.read v).attempt hchild).bind fun x hx => ?_
  obtain ⟨fs | w, d⟩ := x
  · have hwarned (message : String) : (d.warn message).Within R := hx.fresh.within.warn (H.here hx.fresh.holds) message
    cases policy with
    | exclude => exact (concur_takeWarnings (hwarned _)).bind fun _ => ConcurAt.pure _
    | preserve => exact (concur_takeWarnings (hwarned _)).bind fun _ => ConcurAt.pure _
    | throw =>
      refine (concur_takeWarnings hx.fresh.within).bind fun _ => ?_
      exact (concur_collectAll (hx.failures fs rfl)).bind fun _ => ConcurAt.pure _
  · exact (concur_absorb hx.fresh.within).bind fun _ => ConcurAt.pure _

theorem concur_element (hopens : G.Opens H) (h : r.Concur H s) (v : Value) (item : RouteItem) (policy : ErrorPolicy) :
    ConcurAt G (r.element v item policy) (s.element v item policy) :=
  (concur_guarded hopens h v item policy).bind fun _ => ConcurAt.pure _

theorem concur_items (hG : G.Opens G) (h : r.Concur G s) (policy : ErrorPolicy) (vs : List Value) :
    ∀ index, ConcurAt G (r.items policy index vs) (s.items policy index vs) := by
  induction vs with
  | nil => exact fun _ => ConcurAt.pure _
  | cons v rest ih =>
    intro index
    refine (concur_element hG h v (.index index) policy).bind fun _ => ?_
    exact (ih (index + 1)).bind fun _ => ConcurAt.pure _

theorem concur_positions (hG : G.Opens G) (policy : ErrorPolicy) (as : List ρ) : (∀ a ∈ as, (f a).Concur G (g a)) →
    ∀ index vs, ConcurAt G (positions policy index (as.map f) vs) (positions policy index (as.map g) vs) := by
  induction as with
  | nil => exact fun _ _ _ => ConcurAt.pure _
  | cons a rest ih =>
    intro h index vs
    obtain ⟨ha, hrest⟩ := List.forall_mem_cons.mp h
    cases vs with
    | nil => exact ConcurAt.pure _
    | cons v vs =>
      refine (concur_element hG ha v (.index index) policy).bind fun _ => ?_
      exact (ih hrest (index + 1) vs).bind fun _ => ConcurAt.pure _

theorem concur_entries {key key' value value' : Reading} (hG : G.Opens G) (hkey : key.Concur G key')
    (hvalue : value.Concur G value') (keyPolicy valuePolicy : ErrorPolicy) (rest : List (Value × Value)) :
    ∀ kept, ConcurAt G (entries key value keyPolicy valuePolicy kept rest)
      (entries key' value' keyPolicy valuePolicy kept rest) := by
  induction rest with
  | nil => exact fun _ => ConcurAt.pure _
  | cons entry rest ih =>
    obtain ⟨k, v⟩ := entry
    intro kept
    refine (concur_element hG hkey k (.key k.key) keyPolicy).bind fun newKey => ?_
    cases newKey with
    | none => exact ih kept
    | some k' =>
      refine (concur_element hG hvalue v (.key k.key) valuePolicy).bind fun newValue => ?_
      cases newValue with
      | none => exact ih kept
      | some v' => exact ih (Value.insertEntry k' v' kept)

theorem concur_fitArity (arity : Nat) (vs : List Value) : ConcurAt G (fitArity arity vs) (fitArity arity vs) := by
  unfold fitArity
  split
  · exact concur_throw_here fun _ => rfl
  split
  · exact ConcurAt.pure _
  refine concur_options.bind fun o => ?_
  split
  · exact concur_throw_here fun _ => rfl
  · exact (concur_warn _).bind fun _ => ConcurAt.pure _

theorem concur_arguments (hG : G.Opens G) {as : List ρ} (h : ∀ a ∈ as, (f a).Concur G (g a))
    (onError : Option ErrorPolicy) (v : Value) :
    ConcurAt G (arguments (as.map f) onError v) (arguments (as.map g) onError v) := by
  refine concur_options.bind fun o => ?_
  match as with
  | [] => cases v <;> exact ConcurAt.pure _
  | a :: rest =>
    obtain ⟨ha, hrest⟩ := List.forall_mem_cons.mp h
    cases v with
    | list vs => exact (concur_items hG ha _ vs 0).bind fun _ => ConcurAt.pure _
    | set vs => exact (concur_items hG ha _ vs 0).bind fun _ => ConcurAt.pure _
    | tuple vs =>
      simp only [List.map_cons, List.length_cons, List.length_map]
      refine (concur_fitArity _ vs).bind fun us => ?_
      exact (concur_positions hG _ (a :: rest) h 0 us).bind fun _ => ConcurAt.pure _
    | map es =>
      match rest with
      | [] => exact ConcurAt.pure _
      | [b] =>
        have hb := List.forall_mem_singleton.mp hrest
        exact (concur_entries hG ha hb _ _ es []).bind fun _ => ConcurAt.pure _
      | _ :: _ :: _ => exact ConcurAt.pure _
    | _ => exact ConcurAt.pure _

/-! ### Combinators -/

theorem concur_attempted (h : r.Concur G s) (v : Value) : Parse.Concur G (Tested G) (r.attempted v) (s.attempted v) :=
  concur_context.bind fun _ hc => (h.read v).attempt (Ground.fresh_speculate hc)

theorem concur_allOf (as : List ρ) : (∀ a ∈ as, (f a).Concur G (g a)) →
    ∀ v, ConcurAt G (allOf (as.map f) v) (allOf (as.map g) v) := by
  induction as with
  | nil => exact fun _ _ => ConcurAt.pure _
  | cons a rest ih =>
    intro h v
    obtain ⟨ha, hrest⟩ := List.forall_mem_cons.mp h
    refine (concur_attempted ha v).bind fun x hx => ?_
    obtain ⟨fs | w, d⟩ := x
    · refine (concur_takeWarnings hx.fresh.within).bind fun _ => .throw ?_
      exact Failure.within_ofList.mpr (hx.failures fs rfl)
    · exact (concur_takeWarnings hx.fresh.within).bind fun _ => ih hrest w

theorem concur_noneMatched {fs : List Failure} (hfs : Failure.AllWithin R fs) (v : Value) :
    ConcurAt G (do throw (.noneMatched (← route) v fs) : Parse Value) (do throw (.noneMatched (← route) v fs)) :=
  concur_route.bind fun _ hr => .throw (Failure.within_noneMatched hr.1 v hfs)

theorem concur_firstOf (v : Value) (as : List ρ) : (∀ a ∈ as, (f a).Concur G (g a)) →
    ∀ fs, Failure.AllWithin R fs → ConcurAt G (firstOf v fs (as.map f)) (firstOf v fs (as.map g)) := by
  induction as with
  | nil => exact fun _ fs hfs => concur_noneMatched hfs v
  | cons a rest ih =>
    intro h fs hfs
    obtain ⟨ha, hrest⟩ := List.forall_mem_cons.mp h
    refine (concur_attempted ha v).bind fun x hx => ?_
    obtain ⟨more | w, d⟩ := x
    · exact ih hrest _ (hfs.append (hx.failures more rfl))
    · exact (concur_takeWarnings hx.fresh.within).bind fun _ => ConcurAt.pure w

theorem concur_anyOf {as : List ρ} (h : ∀ a ∈ as, (f a).Concur G (g a)) (v : Value) :
    ConcurAt G (anyOf (as.map f) v) (anyOf (as.map g) v) := by
  have hexact (keep : Bool → Bool) : (as.map g).filter (fun r => keep (isExact v r)) =
      (as.filter fun a => keep (isExact v (f a))).map g := by
    rw [List.filter_map]
    refine congrArg (List.map g) (List.filter_congr fun a ha => ?_)
    simp only [Function.comp_apply, isExact, (h a ha).origin]
  have hbranches (keep : Bool → Bool) : ∀ a ∈ as.filter fun a => keep (isExact v (f a)), (f a).Concur G (g a) :=
    fun a ha => h a (List.mem_of_mem_filter ha)
  have hfirst := concur_firstOf v _ (List.forall_mem_append.mpr ⟨hbranches id, hbranches not⟩) [] Failure.allWithin_nil
  rw [List.map_append, List.map_append, ← hexact id, ← hexact not] at hfirst
  rw [anyOf, anyOf, List.filter_map, List.filter_map]
  exact hfirst

theorem concur_onlyOf (v : Value) (as : List ρ) : (∀ a ∈ as, (f a).Concur G (g a)) →
    ∀ index (matched : Option (Nat × Value × Context)) fs, (∀ x ∈ matched, x.2.2.Within R) → Failure.AllWithin R fs →
      ConcurAt G (onlyOf v index matched fs (as.map f)) (onlyOf v index matched fs (as.map g)) := by
  induction as with
  | nil =>
    intro _ index matched fs hmatched hfs
    cases matched with
    | none => exact concur_noneMatched hfs v
    | some x => exact (concur_takeWarnings (hmatched x rfl)).bind fun _ => ConcurAt.pure _
  | cons a rest ih =>
    intro h index matched fs hmatched hfs
    obtain ⟨ha, hrest⟩ := List.forall_mem_cons.mp h
    rw [List.map_cons, List.map_cons, Coupling.onlyOf_cons, Coupling.onlyOf_cons]
    refine (concur_attempted ha v).bind fun x hx => ?_
    obtain ⟨more | w, d⟩ := x
    · exact ih hrest _ _ _ hmatched (hfs.append (hx.failures more rfl))
    · cases matched with
      | none =>
        refine ih hrest _ _ _ ?_ hfs
        rintro _ ⟨⟩
        exact hx.fresh.within
      | some x => exact concur_throw_here fun _ => rfl

theorem concur_noneOf (as : List ρ) (v : Value) : (∀ a ∈ as, (f a).Concur G (g a)) →
    ConcurAt G (noneOf (as.map f) v) (noneOf (as.map g) v) := by
  induction as with
  | nil => exact fun _ => ConcurAt.pure v
  | cons a rest ih =>
    intro h
    obtain ⟨ha, hrest⟩ := List.forall_mem_cons.mp h
    refine (concur_attempted ha v).bind fun x hx => ?_
    obtain ⟨more | w, d⟩ := x
    · exact ih hrest
    · exact concur_throw_here fun _ => rfl

theorem concur_combined {l : Logic ρ} (h : ∀ a ∈ l.branches, (f a).Concur G (g a)) (v : Value) :
    ConcurAt G (combined (l.map f) v) (combined (l.map g) v) := by
  obtain ⟨op, as⟩ := l
  cases op with
  | allOf => exact concur_allOf as h v
  | anyOf => exact concur_anyOf h v
  | oneOf => exact concur_onlyOf v as h 0 none [] (fun _ hx => nomatch hx) Failure.allWithin_nil
  | noneOf => exact concur_noneOf as v h

/-! ### Constraints -/

theorem concur_satisfied (h : r.Concur G s) (v : Value) : ConcurAt G (r.satisfied v) (s.satisfied v) :=
  concur_context.bind fun _ hc => ((h.read v).attempt (Ground.fresh_probe hc)).bind fun _ _ => ConcurAt.pure _

theorem concur_countSatisfied (h : r.Concur G s) (vs : List Value) :
    ConcurAt G (r.countSatisfied vs) (s.countSatisfied vs) := by
  induction vs with
  | nil => exact ConcurAt.pure 0
  | cons v rest ih => exact (concur_satisfied h v).bind fun _ => ih.bind fun _ => ConcurAt.pure _

theorem siblingCount?_map_eq (cs : List (Constraint ρ)) (keyword : Keyword) :
    siblingCount? (cs.map (·.map f)) keyword = siblingCount? (cs.map (·.map g)) keyword := by
  rw [siblingCount?, siblingCount?, Constraint.find?_count_map, Constraint.find?_count_map]

theorem concur_checkContained (siblings : List (Constraint ρ)) (h : r.Concur G s) (vs : List Value) :
    ConcurAt G (checkContained (siblings.map (·.map f)) r vs) (checkContained (siblings.map (·.map g)) s vs) := by
  unfold checkContained
  simp only [siblingCount?_map_eq (f := f) (g := g)]
  refine (concur_countSatisfied h vs).bind fun count => ?_
  split
  · refine concur_route.bind fun _ hr => ConcurAt.bind (.throw ?_) fun _ => ConcurAt.pure none
    exact List.forall_mem_singleton.mpr hr.1
  · exact ConcurAt.pure none

theorem concur_violation {c : Constraint ρ} (h : ∀ a, c.operand = .rule a → (f a).Concur G (g a)) (v : Value) :
    ConcurAt G (violation (c.map f) v) (violation (c.map g) v) := by
  have hoperand : ((c.map f).operand.map text).toValue = ((c.map g).operand.map text).toValue := by
    obtain ⟨keyword, operand, lax⟩ := c
    cases operand with
    | value | pattern => rfl
    | rule a => exact congrArg Value.str (h a rfl).text
  unfold violation
  rw [hoperand]
  exact concur_throw_here fun _ => rfl

theorem concur_verdict {c : Constraint ρ} (h : ∀ a, c.operand = .rule a → (f a).Concur G (g a)) (v : Value) : ConcurAt G
    (match (c.map f).verdict v with
      | .kept => pure none
      | .replaced w => pure (some w)
      | .violated => violation (c.map f) v)
    (match (c.map g).verdict v with
      | .kept => pure none
      | .replaced w => pure (some w)
      | .violated => violation (c.map g) v) := by
  rw [Constraint.verdict_map, Constraint.verdict_map]
  cases c.verdict v with
  | kept | replaced => exact ConcurAt.pure _
  | violated => exact concur_violation h v

theorem concur_check (siblings : List (Constraint ρ)) {c : Constraint ρ}
    (h : ∀ a, c.operand = .rule a → (f a).Concur G (g a)) (v : Value) :
    ConcurAt G (check (siblings.map (·.map f)) (c.map f) v) (check (siblings.map (·.map g)) (c.map g) v) := by
  have hverdict := concur_verdict h v
  have hviolation := concur_violation h v
  obtain ⟨keyword, operand, lax⟩ := c
  unfold check
  cases operand with
  | value | pattern => cases keyword <;> exact hverdict
  | rule a =>
    cases keyword with
    | contains =>
      simp only [Constraint.map, Operand.map]
      cases v.items? with
      | some items => exact concur_checkContained siblings (h a rfl) items
      | none => exact hviolation
    | _ => exact hverdict

theorem concur_constrained (siblings cs : List (Constraint ρ)) :
    (∀ c ∈ cs, ∀ a, c.operand = .rule a → (f a).Concur G (g a)) → ∀ v,
      ConcurAt G (constrained (siblings.map (·.map f)) (cs.map (·.map f)) v)
        (constrained (siblings.map (·.map g)) (cs.map (·.map g)) v) := by
  induction cs with
  | nil => exact fun _ v => ConcurAt.pure v
  | cons c rest ih =>
    intro h v
    obtain ⟨hc, hrest⟩ := List.forall_mem_cons.mp h
    rw [List.map_cons, List.map_cons, Coupling.constrained_cons, Coupling.constrained_cons]
    exact ((concur_check siblings hc v).recover trivial).bind fun _ _ => ih hrest _

/-! ### Rules -/

variable {E F : Entities}

theorem concur_converted (t : Target) (v : Value) : ConcurAt G (converted t v) (converted t v) := by
  refine concur_options.bind fun o => ?_
  cases o.convert v t with
  | ok w => exact ConcurAt.pure w
  | error cause => exact concur_throw_here fun _ => rfl

theorem concur_nested {e e' : Entity} (H : Ground R) (hoptions : e.options = e'.options)
    (hmerge : ∀ c, G.Holds c → H.Holds (c.speculateWith e.options)) (h : ∀ v, ConcurAt H (e.read v) (e'.read v))
    (v : Value) : ConcurAt G (nested e v) (nested e' v) := by
  rw [Coupling.nested_eq, Coupling.nested_eq, ← hoptions]
  refine concur_context.bind fun c hc => ?_
  have hfresh : H.Fresh (c.speculateWith e.options) := ⟨hmerge c hc, Context.within_of_clean rfl rfl⟩
  exact ((h v).descend hfresh).bind fun _ _ => ConcurAt.pure _

theorem concur_ofOrigin (hE : E.Concur G F) (t : Target) (v : Value) :
    ConcurAt G (ofOrigin E t v) (ofOrigin F t v) := by
  refine (concur_converted t v).bind fun w s hs => ?_
  have ht := hE s.context hs t
  revert ht s
  cases E t <;> cases F t <;> intro s hs ht <;> cases ht
  · exact ConcurAt.pure w s hs
  · exact concur_throw_here (fun _ => rfl) s hs
  · exact concur_nested _ ‹_› ‹_› ‹_› w s hs

theorem concur_readLayer (hG : G.Opens G) (hE : E.Concur G F) {l : Layer Rule}
    (h : l.All fun r => (r.reading E).Concur G (r.reading F)) (v : Value) :
    ConcurAt G (readLayer E (l.map (Rule.reading E)) v) (readLayer F (l.map (Rule.reading F)) v) := by
  rw [Coupling.readLayer_eq, Coupling.readLayer_eq]
  refine Parse.Concur.bind (P := fun _ => True) ?_ fun w _ => ?_
  · simp only [Layer.map]
    cases l.origin with
    | none => exact ConcurAt.pure _
    | some t => exact concur_ofOrigin hE t _
  refine (concur_arguments hG h.args l.onError w).bind fun w => ?_
  refine Parse.Concur.bind (P := fun _ => True) ?_ fun w _ => ?_
  · simp only [Layer.map]
    cases hlogic : l.logic with
    | none => exact ConcurAt.pure w
    | some logic => exact concur_combined (h.branches logic hlogic) w
  refine concur_options.bind fun o => ?_
  refine Parse.Concur.bind (P := fun _ => True) ?_ fun _ _ => ConcurAt.pure _
  cases o.ignoresConstraints with
  | true => exact ConcurAt.pure w
  | false => exact concur_constrained l.constraints l.constraints h.constraints w

/-- Every rule is read the same where entities are. -/
theorem concur_reading (hG : G.Opens G) (hE : E.Concur G F) (r : Rule) : (r.reading E).Concur G (r.reading F) := by
  refine Rule.induction (P := fun r => (r.reading E).Concur G (r.reading F)) (fun l ih => ?_) r
  refine ⟨?_, ?_, fun v => ?_⟩
  · rw [Rule.origin_reading, Rule.origin_reading]
  · rw [Rule.text_reading, Rule.text_reading]
  · rw [Coupling.read_reading, Coupling.read_reading]
    exact concur_readLayer hG hE ih v

end Reading

end Conform

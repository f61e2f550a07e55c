import Conform.Proofs.Coupling.Reading
import Conform.Proofs.Limit.Basic
import Conform.Proofs.Rule.Induction

/-! Levels of rules. The levels of a rule are the contexts, one in another, that may hold failures while a value is
    read by it: elements are read in contexts of their own beside what their container has found, and so are the
    branches of `all_of`, whose failures come up; the other combinators put the failures of their branches in a
    single one. -/

namespace Conform

open Parse

/-! ### Levels -/

/-- The greatest of some numbers. -/
def greatest (ns : List Nat) : Nat := ns.foldr max 0

theorem le_greatest {n : Nat} {ns : List Nat} (h : n ∈ ns) : n ≤ greatest ns := by
  induction h with
  | head ns => exact Nat.le_max_left n (greatest ns)
  | tail m _ ih => exact Nat.le_trans ih (Nat.le_max_right m _)

/-- The levels of a target that is converted to, and of elements. -/
def Layer.elementLevels (entity : Target → Nat) (l : Layer Nat) : Nat :=
  let origin := l.origin.elim 0 entity
  if l.args.isEmpty then origin else max origin (greatest l.args + 1)

/-- The levels of a combinator behind some others; what these hold makes one more level. -/
def Logic.levels (before : Nat) (l : Logic Nat) : Nat :=
  match l.op with
  | .allOf => max before (min before 1 + greatest l.branches)
  | _ => before

/-- The levels of a layer without its constraints. -/
def Layer.combinedLevels (entity : Target → Nat) (l : Layer Nat) : Nat :=
  l.logic.elim (l.elementLevels entity) (Logic.levels (l.elementLevels entity))

/-- The levels of a layer, given those of targets and those of the rules inside. -/
def Layer.levels (entity : Target → Nat) (l : Layer Nat) : Nat :=
  if l.constraints.isEmpty then l.combinedLevels entity else max (l.combinedLevels entity) 1

/-- The levels of a rule, given those of targets. -/
def Rule.levels (entity : Target → Nat) (r : Rule) : Nat := r.fold (Layer.levels entity)

namespace Layer

variable (entity : Target → Nat) (l : Layer Nat)

theorem origin_le_elementLevels : l.origin.elim 0 entity ≤ l.elementLevels entity := by
  unfold elementLevels
  split
  · exact Nat.le_refl _
  · exact Nat.le_max_left _ _

theorem greatest_lt_elementLevels (h : l.args ≠ []) : greatest l.args + 1 ≤ l.elementLevels entity := by
  unfold elementLevels
  rw [if_neg (mt List.isEmpty_iff.mp h)]
  exact Nat.le_max_right _ _

theorem elementLevels_le_combinedLevels : l.elementLevels entity ≤ l.combinedLevels entity := by
  unfold combinedLevels
  rcases l.logic with _ | ⟨op, branches⟩
  · exact Nat.le_refl _
  · cases op with
    | allOf => exact Nat.le_max_left _ _
    | _ => exact Nat.le_refl _

theorem combinedLevels_le_levels : l.combinedLevels entity ≤ l.levels entity := by
  unfold levels
  split
  · exact Nat.le_refl _
  · exact Nat.le_max_left _ _

theorem one_le_levels (h : l.constraints ≠ []) : 1 ≤ l.levels entity := by
  unfold levels
  rw [if_neg (mt List.isEmpty_iff.mp h)]
  exact Nat.le_max_right _ _

end Layer

/-- Readings that take so many levels. -/
def Reading.Fits (L : Limit) (n : Nat) (r : Reading) : Prop := ∀ v, Parse.Fits L 0 n (fun _ => True) (r.read v)

/-- Entities whose schemas keep the options in force and take so many levels. -/
def Entities.Fit (L : Limit) (entity : Target → Nat) (E : Entities) : Prop :=
  ∀ t e, E t = .entity e → 1 ≤ entity t ∧ (∀ o, L.InForce o → L.InForce (o.merge e.options)) ∧
    ∀ v, Parse.Fits L 0 (entity t) (fun _ => True) (e.read v)

theorem Reading.Fits.mono {L : Limit} {m n : Nat} {r : Reading} (h : r.Fits L m) (hmn : m ≤ n) : r.Fits L n :=
  fun v => (h v).mono (Nat.le_refl 0) hmn

namespace Reading

variable {L : Limit} {m n : Nat} {r : Reading} {rs : List Reading}

/-! ### Elements -/

/-- Reading an element takes one level more than its rule. -/
theorem fits_guarded (h : r.Fits L m) (hmn : m + 1 ≤ n) (v : Value) (item : RouteItem) (policy : ErrorPolicy) :
    Parse.FitsAt L n (r.guarded v item policy) := by
  refine (fits_enter item).bind (Nat.le_refl n) fun child hchild => ?_
  refine ((h v).attempt hchild.1 hchild.2).bind (Nat.le_refl n) fun x hx => ?_
  obtain ⟨fs | w, d⟩ := x
  · cases policy with
    | exclude => exact ((terse_takeWarnings _).bind fun _ => .pure Outcome.excluded).fitsAt
    | preserve => exact ((terse_takeWarnings _).bind fun _ => .pure (Outcome.preserved v)).fitsAt
    | throw =>
      have hcollected : Parse.FitsAt L n (collectAll fs) :=
        fits_collectAll (fun f hf => Nat.le_trans (Failure.length_flatten_le hf) hx) hmn
      exact (terse_takeWarnings d).fitsAt.bind fun _ => hcollected.bind fun _ => .pure _
  · exact ((terse_absorb hx).bind fun _ => .pure (Outcome.parsed w)).fitsAt

theorem fits_element (h : r.Fits L m) (hmn : m + 1 ≤ n) (v : Value) (item : RouteItem) (policy : ErrorPolicy) :
    Parse.FitsAt L n (r.element v item policy) :=
  (fits_guarded h hmn v item policy).bind fun _ => .pure _

theorem fits_items (h : r.Fits L m) (hmn : m + 1 ≤ n) (policy : ErrorPolicy) (vs : List Value) :
    ∀ index, Parse.FitsAt L n (r.items policy index vs) := by
  induction vs with
  | nil => exact fun _ => .pure _
  | cons v rest ih =>
    intro index
    refine (fits_element h hmn v (.index index) policy).bind fun _ => ?_
    exact (ih (index + 1)).bind fun _ => .pure _

theorem fits_positions (hmn : m + 1 ≤ n) (policy : ErrorPolicy) (rs : List Reading) :
    (∀ r ∈ rs, r.Fits L m) → ∀ (index : Nat) (vs : List Value),
      Parse.FitsAt L n (positions policy index rs vs) := by
  induction rs with
  | nil => exact fun _ _ _ => .pure _
  | cons r rest ih =>
    intro h index vs
    obtain ⟨hr, hrest⟩ := List.forall_mem_cons.mp h
    cases vs with
    | nil => exact .pure _
    | cons v vs =>
      refine (fits_element hr hmn v (.index index) policy).bind fun _ => ?_
      exact (ih hrest (index + 1) vs).bind fun _ => .pure _

theorem fits_entries {key value : Reading} (hkey : key.Fits L m) (hvalue : value.Fits L m) (hmn : m + 1 ≤ n)
    (keyPolicy valuePolicy : ErrorPolicy) (rest : List (Value × Value)) :
    ∀ kept, Parse.FitsAt L n (entries key value keyPolicy valuePolicy kept rest) := by
  induction rest with
  | nil => exact fun _ => .pure _
  | cons entry rest ih =>
    obtain ⟨k, v⟩ := entry
    intro kept
    refine (fits_element hkey hmn k (.key k.key) keyPolicy).bind fun newKey => ?_
    cases newKey with
    | none => exact ih kept
    | some k' =>
      refine (fits_element hvalue hmn v (.key k.key) valuePolicy).bind fun newValue => ?_
      cases newValue with
      | none => exact ih kept
      | some v' => exact ih (Value.insertEntry k' v' kept)

theorem terse_fitArity (arity : Nat) (vs : List Value) : Terse (fitArity arity vs) := by
  unfold fitArity
  by_cases hfew : vs.length < arity
  · simp only [if_pos hfew]
    exact terse_throw_here fun _ => Nat.le_refl 1
  · simp only [if_neg hfew]
    by_cases hall : vs.length = arity
    · simp only [if_pos hall]
      exact .pure vs
    · simp only [if_neg hall]
      refine terse_options.bind fun o => ?_
      cases o.strictness.noDataLoss
      · exact (terse_warn _).bind fun _ => .pure _
      · exact terse_throw_here fun _ => Nat.le_refl 1

theorem fits_arguments (h : ∀ r ∈ rs, r.Fits L m) (hmn : rs ≠ [] → m + 1 ≤ n) (onError : Option ErrorPolicy)
    (v : Value) : Parse.FitsAt L n (arguments rs onError v) := by
  refine terse_options.fitsAt.bind fun o => ?_
  match rs with
  | [] => cases v <;> exact .pure _
  | r :: rest =>
    have hlevel : m + 1 ≤ n := hmn (List.cons_ne_nil r rest)
    have hr := h r List.mem_cons_self
    cases v with
    | list vs => exact (fits_items hr hlevel _ vs 0).bind fun _ => .pure _
    | set vs => exact (fits_items hr hlevel _ vs 0).bind fun _ => .pure _
    | tuple vs =>
      refine (terse_fitArity _ vs).fitsAt.bind fun us => ?_
      exact (fits_positions hlevel _ _ h 0 us).bind fun _ => .pure _
    | map es =>
      match rest with
      | [] => exact .pure _
      | [value] =>
        have hvalue := h value (List.mem_cons_of_mem r List.mem_cons_self)
        exact (fits_entries hr hvalue hlevel _ _ es []).bind fun _ => .pure _
      | _ :: _ :: _ => exact .pure _
    | _ => exact .pure _

/-! ### Combinators -/

theorem terse_attempted (r : Reading) (v : Value) : Terse (r.attempted v) :=
  terse_context.bind fun c => terse_attempt c.speculate (r.read v)

theorem fits_attempted (h : r.Fits L m) (v : Value) : Parse.Fits L n n (Reported L m) (r.attempted v) :=
  fits_context_bind fun _ hc => (h v).attempt hc rfl

/-- The failures of a branch come up beside what is held already. -/
theorem fits_allOf {b : Nat} (hmn : m ≤ n) (hb : L.held m + L.report b ≤ L.report n) (rs : List Reading) :
    (∀ r ∈ rs, r.Fits L b) → ∀ v, Parse.Fits L m n (fun _ => True) (allOf rs v) := by
  induction rs with
  | nil => exact fun _ v => fits_pure trivial hmn
  | cons r rest ih =>
    intro h v
    obtain ⟨hr, hrest⟩ := List.forall_mem_cons.mp h
    refine (fits_attempted hr v).bind hmn fun x hx => ?_
    obtain ⟨fs | w, child⟩ := x
    · refine (terse_takeWarnings child).bind_fits hmn fun _ => fits_throw ?_
      rw [Failure.flatten_ofList]
      exact Nat.le_trans (Nat.add_le_add_left hx _) hb
    · exact (terse_takeWarnings child).bind_fits hmn fun _ => ih hrest w

theorem terse_firstOf (v : Value) (rs : List Reading) : ∀ fs, Terse (firstOf v fs rs) := by
  induction rs with
  | nil => exact fun _ => terse_throw_here fun _ => Nat.le_refl 1
  | cons r rest ih =>
    intro fs
    refine (terse_attempted r v).bind fun x => ?_
    obtain ⟨more | w, child⟩ := x
    · exact ih (fs ++ more)
    · exact (terse_takeWarnings child).bind fun _ => .pure w

theorem terse_onlyOf (v : Value) (rs : List Reading) : ∀ index matched fs, Terse (onlyOf v index matched fs rs) := by
  induction rs with
  | nil =>
    intro index matched fs
    cases matched with
    | none => exact terse_throw_here fun _ => Nat.le_refl 1
    | some x => exact (terse_takeWarnings x.2.2).bind fun _ => .pure x.2.1
  | cons r rest ih =>
    intro index matched fs
    rw [Coupling.onlyOf_cons]
    refine (terse_attempted r v).bind fun x => ?_
    obtain ⟨more | w, child⟩ := x
    · exact ih _ _ _
    · cases matched with
      | none => exact ih _ _ _
      | some => exact terse_throw_here fun _ => Nat.le_refl 1

theorem terse_noneOf (rs : List Reading) (v : Value) : Terse (noneOf rs v) := by
  induction rs with
  | nil => exact .pure v
  | cons r rest ih =>
    refine (terse_attempted r v).bind fun x => ?_
    obtain ⟨more | w, child⟩ := x
    · exact ih
    · exact terse_throw_here fun _ => Nat.le_refl 1

/-! ### Constraints -/

theorem terse_violation (c : Constraint Reading) (v : Value) : Terse (violation c v) :=
  terse_throw_here fun _ => Nat.le_refl 1

theorem terse_satisfied (r : Reading) (v : Value) : Terse (r.satisfied v) :=
  terse_context.bind fun _ => (terse_attempt _ _).bind fun _ => .pure _

theorem terse_countSatisfied (r : Reading) (vs : List Value) : Terse (r.countSatisfied vs) := by
  induction vs with
  | nil => exact .pure 0
  | cons v rest ih => exact (terse_satisfied r v).bind fun _ => ih.bind fun _ => .pure _

theorem terse_checkContained (siblings : List (Constraint Reading)) (r : Reading) (vs : List Value) :
    Terse (checkContained siblings r vs) := by
  refine (terse_countSatisfied r vs).bind fun count => ?_
  split
  · refine terse_route.bind fun _ => Terse.bind ?_ fun _ => .pure none
    exact .throw (Nat.le_refl 1)
  · exact .pure none

theorem terse_check (siblings : List (Constraint Reading)) (c : Constraint Reading) (v : Value) :
    Terse (check siblings c v) := by
  unfold check
  split
  · cases v.items? with
    | some items => exact terse_checkContained siblings _ items
    | none => exact terse_violation c v
  · cases c.verdict v with
    | kept | replaced => exact .pure _
    | violated => exact terse_violation c v

theorem fits_constrained (siblings cs : List (Constraint Reading)) (hn : cs ≠ [] → 1 ≤ n) :
    ∀ v, Parse.FitsAt L n (constrained siblings cs v) := by
  induction cs with
  | nil => exact fun v => .pure _
  | cons c rest ih =>
    intro v
    have hn := hn (List.cons_ne_nil c rest)
    rw [Coupling.constrained_cons]
    refine ((terse_check siblings c v).fits_recover none hn).bind fun _ => ?_
    exact ih (fun _ => hn) _

/-! ### Rules -/

variable {entity : Target → Nat} {E : Entities}

theorem terse_converted (t : Target) (v : Value) : Terse (converted t v) := by
  refine terse_options.bind fun o => ?_
  cases o.convert v t with
  | ok w => exact .pure w
  | error cause => exact terse_throw_here fun _ => Nat.le_refl 1

theorem fits_ofOrigin (hE : E.Fit L entity) (t : Target) (v : Value) :
    Parse.Fits L 0 (entity t) (fun _ => True) (ofOrigin E t v) := by
  refine (terse_converted t v).bind_fits (Nat.zero_le _) fun w => ?_
  have hentity := hE t
  cases hlookup : E t with
  | plain => exact fits_pure trivial (Nat.zero_le _)
  | unresolved name =>
    exact Terse.fits (terse_throw_here fun _ => Nat.le_refl 1) (Nat.zero_le _)
  | entity e =>
    obtain ⟨hpos, hmerge, hread⟩ := hentity e hlookup
    simp only
    rw [Coupling.nested_eq]
    refine fits_context_bind fun c hc => ?_
    exact ((hread w).descend hpos (hmerge _ hc) rfl).bind (Nat.le_refl _) fun _ _ => fits_pure trivial (Nat.le_refl _)

theorem fits_combined {l : Logic Reading} {k : Logic Nat} (hop : l.op = k.op)
    (h : ∀ r ∈ l.branches, r.Fits L (greatest k.branches)) (v : Value) :
    Parse.Fits L m (k.levels m) (fun _ => True) (combined l v) := by
  obtain ⟨op, rs⟩ := l
  obtain ⟨_, ns⟩ := k
  cases hop
  cases op with
  | allOf => exact fits_allOf (Nat.le_max_left _ _) (L.held_add_report_le m (greatest ns)) rs h v
  | anyOf => exact (terse_firstOf v _ []).fits (Nat.le_refl m)
  | oneOf => exact (terse_onlyOf v rs 0 none []).fits (Nat.le_refl m)
  | noneOf => exact (terse_noneOf rs v).fits (Nat.le_refl m)

/-- What is known of the rules inside a layer is known of them all together. -/
theorem fits_of_mem {rs : List Rule} (h : ∀ r ∈ rs, (r.reading E).Fits L (r.levels entity)) :
    ∀ q ∈ rs.map (Rule.reading E), q.Fits L (greatest (rs.map (Rule.levels entity))) := by
  refine List.forall_mem_map.mpr fun r hr => (h r hr).mono ?_
  exact le_greatest (List.mem_map_of_mem hr)

theorem fits_readLayer (hE : E.Fit L entity) {l : Layer Rule}
    (h : l.All fun r => (r.reading E).Fits L (r.levels entity)) (v : Value) :
    Parse.Fits L 0 ((l.map (Rule.levels entity)).levels entity) (fun _ => True)
      (readLayer E (l.map (Rule.reading E)) v) := by
  let k : Layer Nat := l.map (Rule.levels entity)
  have helements := k.origin_le_elementLevels entity
  have hcombined := k.elementLevels_le_combinedLevels entity
  have hlevels := k.combinedLevels_le_levels entity
  rw [Coupling.readLayer_eq]
  refine Parse.Fits.bind (m := l.origin.elim 0 entity) (P := fun _ => True) ?_
    (Nat.le_trans helements (Nat.le_trans hcombined hlevels)) fun w _ => ?_
  · simp only [Layer.map]
    cases l.origin with
    | none => exact fits_pure trivial (Nat.le_refl _)
    | some t => exact fits_ofOrigin hE t _
  refine ((fits_arguments (fits_of_mem h.args) (fun hne => ?_) l.onError w).mono helements (Nat.le_refl _)).bind
    (Nat.le_trans hcombined hlevels) fun w _ => ?_
  · refine k.greatest_lt_elementLevels entity fun hnil => hne ?_
    rw [List.map_eq_nil_iff.mp hnil, List.map_nil]
  refine Parse.Fits.bind (m := k.combinedLevels entity) (P := fun _ => True) ?_ hlevels fun w _ => ?_
  · unfold Layer.combinedLevels
    simp only [k, Layer.map]
    cases hlogic : l.logic with
    | none => exact fits_pure trivial (Nat.le_refl _)
    | some logic => exact fits_combined rfl (fits_of_mem (h.branches logic hlogic)) w
  -- The options only decide whether constraints are checked at all.
  refine terse_options.bind_fits hlevels fun o => ?_
  refine Parse.Fits.bind (m := k.levels entity) (P := fun _ => True) ?_ (Nat.le_refl _) fun w _ =>
    fits_pure trivial (Nat.le_refl _)
  cases o.ignoresConstraints with
  | true => exact fits_pure trivial hlevels
  | false =>
    refine (fits_constrained _ _ (fun hne => ?_) w).mono hlevels (Nat.le_refl _)
    refine k.one_le_levels entity fun hnil => hne ?_
    rw [Layer.map, List.map_eq_nil_iff.mp hnil, List.map_nil]

/-- Every rule takes its levels. -/
theorem fits_reading (hE : E.Fit L entity) (r : Rule) : (r.reading E).Fits L (r.levels entity) := by
  refine Rule.induction (P := fun r => (r.reading E).Fits L (r.levels entity)) (fun l ih v => ?_) r
  rw [Coupling.read_reading, Rule.levels, Rule.fold_mk]
  exact fits_readLayer hE ih v

end Reading

end Conform

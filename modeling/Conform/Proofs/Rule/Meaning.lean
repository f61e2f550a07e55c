import Conform.Proofs.Conversion.Exact
import Conform.Proofs.Parse.Computes
import Conform.Proofs.Rule.Constrained
import Conform.Proofs.Rule.Declaration

/-! The meaning of direct rules. A rule is direct if it only converts, descends and checks: it names no entity,
    combines no branches, has no hook and no lax constraint, and throws what fails. What such a rule makes of a
    value is a function of the options and of the depth, so neither the place of the value in its input nor what
    was read before plays a part in it. -/

namespace Conform

open Parse

/-! ### Direct rules -/

/-- A rule that only converts, descends and checks, and so do the rules inside. -/
inductive Rule.Direct : Rule → Prop
  | mk {l : Layer Rule} (origin : ∀ t ∈ l.origin, t.namesEntity = false) (args : ∀ r ∈ l.args, Direct r)
      (strict : ∀ c ∈ l.constraints, c.lax = false) (contained : ∀ c ∈ l.constraints, ∀ r, c.operand = .rule r → Direct r)
      (logic : l.logic = none) (before : l.before = none) (after : l.after = none)
      (onError : ∀ policy ∈ l.onError, policy = .throw) : Direct (.mk l)

namespace Rule

/-- The plain rules, of a target or of containers, are direct as soon as their arguments are. -/
theorem direct_plain {origin : Option Target} {args : List Rule} (horigin : ∀ t ∈ origin, t.namesEntity = false)
    (hargs : ∀ r ∈ args, r.Direct) : (plain origin args).Direct := by
  refine .mk horigin hargs (List.forall_mem_nil _) (List.forall_mem_nil _) rfl rfl rfl fun _ h => ?_
  cases h

theorem direct_of {t : Target} (ht : t.namesEntity = false) : (of t).Direct := by
  refine direct_plain (fun s hs => ?_) (List.forall_mem_nil _)
  cases hs
  exact ht

/-- A rule that is declared with strict constraints only, and without hooks, is direct if those inside are. -/
theorem direct_of_declare {origin : Target} {args : List Rule} {declared : List Declared} {onError : Option ErrorPolicy}
    {r : Rule} (h : declare origin args declared none none onError = .ok r) (horigin : origin.namesEntity = false)
    (hargs : ∀ a ∈ args, a.Direct) (hstrict : ∀ d ∈ declared, d.isLax = false)
    (hcontained : ∀ q, Declared.contains q ∈ declared → q.Direct) (honError : ∀ policy ∈ onError, policy = .throw) :
    r.Direct := by
  obtain ⟨cs, hcs, hr⟩ := bind_eq_ok.mp h
  cases hr
  have hfrom := exists_of_declareConstraints hcs
  refine .mk ?_ hargs ?_ ?_ rfl rfl rfl honError
  · intro t ht
    cases ht
    exact horigin
  · intro c hc
    obtain ⟨d, hd, hof⟩ := hfrom c hc
    exact (constraintOf_eq_ok hof).2.2.trans (hstrict d hd)
  · intro c hc q hq
    obtain ⟨d, hd, hof⟩ := hfrom c hc
    have hoperand := (constraintOf_eq_ok hof).2.1
    rw [hq] at hoperand
    obtain rfl := eq_contains_of_operand hoperand
    exact hcontained q hd

end Rule

/-- Whether a verdict leaves the value as it is. -/
def Verdict.isKept : Verdict → Bool
  | .kept => true
  | .replaced _ | .violated => false

/-! ### Meanings -/

/-- What a rule makes of a value under some options and so deep in the input, unless it refuses it. -/
abbrev Meaning := Options → Nat → Value → Option Value

namespace Meaning

variable (o : Options) (depth : Nat)

/-- An element of a value is one step deeper. -/
def element (m : Meaning) (v : Value) : Option Value :=
  if o.depthLimit < depth + 1 then none else m o (depth + 1) v

def positions : List Meaning → List Value → Option (List Value)
  | m :: ms, v :: vs => do
    let w ← element o depth m v
    let others ← positions ms vs
    pure (w :: others)
  | _, _ => some []

def entries (key value : Meaning) : (kept rest : List (Value × Value)) → Option (List (Value × Value))
  | kept, [] => some kept
  | kept, (k, v) :: rest => do
    let k ← element o depth key k
    let v ← element o depth value v
    entries key value (Value.insertEntry k v kept) rest

/-- As many items as there are positions, if there are not fewer and those beyond may be dropped. -/
def fitted (arity : Nat) (items : List Value) : Option (List Value) :=
  if items.length < arity then none
  else if items.length = arity then some items
  else if o.strictness.noDataLoss then none
  else some (items.take arity)

/-- A value with its elements by the arguments of a rule. -/
def arguments (args : List Meaning) (v : Value) : Option Value :=
  match v, args with
  | .list vs, m :: _ => (vs.mapM (element o depth m)).map .list
  | .set vs, m :: _ => (vs.mapM (element o depth m)).map fun ws => .set (Value.distinct ws)
  | .tuple vs, _ :: _ => ((fitted o args.length vs).bind (positions o depth args)).map .tuple
  | .map es, [key, value] => (entries o depth key value [] es).map .map
  | _, _ => some v

/-- Whether an item satisfies a rule without an explicit cast. -/
def satisfied (m : Meaning) (v : Value) : Bool := (m (o.merge { noExplicitCast := some true }) depth v).isSome

/-- The count that the constraint of a keyword compares with. -/
def count? {ρ : Type} (cs : List (Constraint ρ)) (keyword : Keyword) : Option Nat :=
  (cs.find? (·.keyword == keyword)).map Constraint.count

/-- Whether a value is kept by a constraint beside others. -/
def keeps (siblings : List (Constraint Meaning)) (v : Value) (c : Constraint Meaning) : Bool :=
  match c.keyword, c.operand with
  | .contains, .rule m => v.items?.any fun items =>
    let count := items.countP (satisfied o depth m)
    (count? siblings .minContains).getD 1 ≤ count && (count? siblings .maxContains).all (count ≤ ·)
  | _, _ => (c.verdict v).isKept

/-- What a layer makes of a value, given what the rules inside make of theirs. -/
def ofLayer (l : Layer Meaning) : Meaning := fun o depth v => do
  let v ← l.origin.elim (some v) fun t => (o.convert v t).toOption
  let v ← arguments o depth l.args v
  if o.ignoresConstraints || l.constraints.all (keeps o depth l.constraints v) then some v else none

end Meaning

/-- What a direct rule makes of a value. -/
def Rule.meaning (r : Rule) : Meaning := r.fold Meaning.ofLayer

theorem Rule.meaning_mk (l : Layer Rule) : (Rule.mk l).meaning = Meaning.ofLayer (l.map Rule.meaning) :=
  Rule.fold_mk Meaning.ofLayer l

/-- What a layer makes of a value comes of what the origin and then the arguments have made, and is kept by the
    constraints unless these are ignored. -/
theorem Meaning.ofLayer_eq_some {l : Layer Meaning} {o : Options} {depth : Nat} {v w : Value} :
    ofLayer l o depth v = some w ↔
      ∃ u, l.origin.elim (some v) (fun t => (o.convert v t).toOption) = some u ∧ arguments o depth l.args u = some w ∧
        (o.ignoresConstraints || l.constraints.all (keeps o depth l.constraints w)) = true := by
  unfold ofLayer
  simp only [Option.bind_eq_bind, Option.bind_eq_some_iff, Option.ite_none_right_eq_some, Option.some_inj]
  constructor
  · rintro ⟨u, hu, x, hx, hall, rfl⟩
    exact ⟨u, hu, hx, hall⟩
  · rintro ⟨u, hu, hw, hall⟩
    exact ⟨u, hu, w, hw, hall, rfl⟩

namespace Meaning

/-! ### Elements -/

theorem element_eq_some {o : Options} {depth : Nat} {m : Meaning} {v w : Value} :
    element o depth m v = some w ↔ ¬ o.depthLimit < depth + 1 ∧ m o (depth + 1) v = some w := by
  unfold element
  exact Option.ite_none_left_eq_some

/-- What a rule makes of a value is what its reading accepts. -/
def Reads (m : Meaning) (r : Reading) : Prop := ∀ v, Computes (fun o depth => m o depth v) (r.read v)

variable {m : Meaning} {r : Reading}

/-- A reading that computes something is like itself, as far as single runs go. -/
theorem Reads.coupled (h : Reads m r) : Coupling.sound.Coupled Eq r r where
  origin := rfl
  read v := ⟨(h v).behaves.mono fun w _ => ⟨w, rfl⟩, (h v).behaves.mono fun w _ => ⟨w, rfl⟩⟩

theorem coupled_of_reads {ms : List Meaning} {rs : List Reading} (h : List.Forall₂ Reads ms rs) :
    List.Forall₂ (Coupling.sound.Coupled Eq) rs rs := by
  induction h with
  | nil => exact .nil
  | cons hr _ ih => exact .cons hr.coupled ih

theorem computes_guarded (h : Reads m r) (v : Value) (item : RouteItem) :
    Computes (fun o depth => (element o depth m v).map Outcome.parsed) (r.guarded v item .throw) where
  behaves := (Coupling.rel_guarded_eq h.coupled v item .throw).left.mono fun _ _ => trivial
  accepts s hs ho x := by
    unfold Reading.guarded element
    -- Beyond the greatest depth no attempt is made; before it, what fails is collected and so not accepted.
    by_cases hdeep : s.context.options.depthLimit < s.context.depth + 1
    · have henter : (enter item).outcome s = (.error (.tooDeep (s.context.route ++ [item]) (s.context.depth + 1)
          s.context.options.depthLimit), s) := by
        rw [enter, outcome_ofContext, Context.enter, if_pos hdeep]
      unfold Accepts
      rw [outcome_bind_of_error henter, if_pos hdeep]
      simp
    · let child : Context := ⟨s.context.options, s.context.route ++ [item], s.context.depth + 1, [], []⟩
      have henter : (enter item).outcome s = (.ok child, s) := by
        rw [enter, outcome_ofContext, Context.enter, if_neg hdeep]
      unfold Accepts
      rw [outcome_bind_of_ok henter, if_neg hdeep]
      refine (h v).accepts_attempt (n := fun w _ _ => w.map Outcome.parsed) (c := child) (fun w d hd => ?_)
        (fun fs d hne hsolid _ => ?_) rfl ho hs ho x
      · exact .bind_step (passes_absorb hd) (.pure (Outcome.parsed w))
      · exact .bind_step (passes_takeWarnings d) ((Computes.collectAll hne hsolid).bind fun _ => .pure Outcome.collected)

theorem computes_element (h : Reads m r) (v : Value) (item : RouteItem) :
    Computes (fun o depth => (element o depth m v).map some) (r.element v item .throw) := by
  refine ((computes_guarded h v item).map (f := Outcome.value?)).congr fun o depth _ => ?_
  rw [Option.map_map]
  rfl

theorem computes_items (h : Reads m r) (vs : List Value) : ∀ index : Nat,
    Computes (fun o depth => vs.mapM (element o depth m)) (r.items .throw index vs) := by
  induction vs with
  | nil => exact fun _ => .pure []
  | cons v rest ih =>
    intro index
    refine ((computes_element h v (.index index)).bind fun kept => (ih (index + 1)).map
      (f := fun others => kept.toList ++ others)).congr fun o depth _ => ?_
    rw [List.mapM_cons]
    cases element o depth m v <;> cases rest.mapM (element o depth m) <;> rfl

theorem computes_positions {ms : List Meaning} {rs : List Reading} (h : List.Forall₂ Reads ms rs) :
    ∀ (vs : List Value) (index : Nat),
      Computes (fun o depth => positions o depth ms vs) (Reading.positions .throw index rs vs) := by
  induction h with
  | nil => exact fun _ _ => .pure []
  | @cons m r ms rs hr _ ih =>
    intro vs index
    cases vs with
    | nil => exact .pure []
    | cons v rest =>
      refine ((computes_element hr v (.index index)).bind fun kept => (ih rest (index + 1)).map
        (f := fun others => kept.toList ++ others)).congr fun o depth _ => ?_
      rw [positions]
      cases element o depth m v <;> cases positions o depth ms rest <;> rfl

theorem computes_entries {key value : Meaning} {rkey rvalue : Reading} (hkey : Reads key rkey)
    (hvalue : Reads value rvalue) (rest : List (Value × Value)) : ∀ kept : List (Value × Value),
    Computes (fun o depth => entries o depth key value kept rest) (rkey.entries rvalue .throw .throw kept rest) := by
  induction rest with
  | nil => exact fun kept => .pure kept
  | cons e rest ih =>
    intro kept
    obtain ⟨k, v⟩ := e
    -- An element that is kept is always there, so it does not matter what is said of one that is not.
    refine ((computes_element hkey k (.key k.key)).bind (n := fun k' o depth => k'.elim
      (entries o depth key value kept rest) fun k => (element o depth value v).bind fun v =>
        entries o depth key value (Value.insertEntry k v kept) rest) fun k' => ?_).congr fun o depth _ => ?_
    · cases k' with
      | none => exact ih kept
      | some k =>
        refine ((computes_element hvalue v (.key _)).bind (n := fun v' o depth => v'.elim
          (entries o depth key value kept rest) fun v => entries o depth key value (Value.insertEntry k v kept) rest)
          fun v' => ?_).congr fun o depth _ => ?_
        · cases v' with
          | none => exact ih kept
          | some v => exact ih (Value.insertEntry k v kept)
        · cases element o depth value v <;> rfl
    · rw [entries]
      cases element o depth key k <;> rfl

theorem computes_fitArity (arity : Nat) (vs : List Value) :
    Computes (fun o _ => fitted o arity vs) (Reading.fitArity arity vs) := by
  have hsolid (cause : Value → ConversionError) (route : Route) : (Reading.tupleFailure route vs cause).Solid := by
    simp [Failure.Solid, Reading.tupleFailure, Failure.flatten]
  unfold Reading.fitArity fitted
  by_cases hfew : vs.length < arity
  · simp only [if_pos hfew]
    exact .throw_here (hsolid _)
  simp only [if_neg hfew]
  by_cases heq : vs.length = arity
  · simp only [if_pos heq]
    exact .pure vs
  simp only [if_neg heq]
  refine Computes.bind_options (n := fun p _ _ => if p.strictness.noDataLoss then none else some (vs.take arity))
    fun o => ?_
  by_cases hloss : o.strictness.noDataLoss = true
  · simp only [if_pos hloss]
    exact .throw_here (hsolid _)
  · simp only [if_neg hloss]
    exact .bind_step (passes_warn _) (.pure _)

/-- The elements of a value are read by the arguments as their meanings tell. -/
theorem computes_arguments {ms : List Meaning} {rs : List Reading} (h : List.Forall₂ Reads ms rs)
    {onError : Option ErrorPolicy} (honError : ∀ policy ∈ onError, policy = .throw) (v : Value) :
    Computes (fun o depth => arguments o depth ms v) (Reading.arguments rs onError v) := by
  have hpolicy (policy : ErrorPolicy) (hthrow : policy = .throw) : onError.getD policy = .throw := by
    cases onError with
    | none => exact hthrow
    | some own => exact honError own rfl
  refine .bind_throwing (n := fun _ o depth => arguments o depth ms v)
    ((Coupling.rel_arguments Value.composed_eq (coupled_of_reads h) onError v).left.mono fun _ _ => trivial) fun o ho => ?_
  simp only [hpolicy _ ho.items, hpolicy _ ho.keys, hpolicy _ ho.values]
  cases h with
  | nil => cases v <;> exact .pure _
  | @cons m r ms rs hr hrest =>
    cases v with
    | list vs => exact (computes_items hr vs 0).map
    | set vs => exact (computes_items hr vs 0).map
    | tuple vs =>
      have hlength : (m :: ms).length = (r :: rs).length := by rw [List.length_cons, List.length_cons, hrest.length_eq]
      refine ((computes_fitArity (r :: rs).length vs).bind fun us => (computes_positions (.cons hr hrest) us 0).map
        (f := Value.tuple)).congr fun o depth _ => ?_
      rw [arguments, Option.map_bind, hlength]
      rfl
    | map es =>
      cases hrest with
      | nil => exact .pure _
      | @cons m' r' ms rs hr' hmore =>
        cases hmore with
        | nil => exact (computes_entries hr hr' es []).map
        | cons _ _ => exact .pure _
    | _ => exact .pure _

/-! ### Constraints -/

theorem computes_satisfied (h : Reads m r) (v : Value) :
    Computes (fun o depth => some (satisfied o depth m v)) (r.satisfied v) where
  behaves := (Coupling.rel_satisfied h.coupled v).left.mono fun _ _ => trivial
  accepts s hs ho x := by
    unfold Reading.satisfied Accepts
    rw [outcome_bind_of_ok (outcome_context s)]
    exact (h v).accepts_attempt (n := fun w _ _ => some w.isSome) (k := fun x => pure x.1.isOk)
      (fun w d _ => .pure true) (fun fs d _ _ _ => .pure false)
      (c := s.context.speculateWith { noExplicitCast := some true }) rfl ⟨ho.items, ho.keys, ho.values⟩ hs ho x

theorem computes_countSatisfied (h : Reads m r) (vs : List Value) :
    Computes (fun o depth => some (vs.countP (satisfied o depth m))) (r.countSatisfied vs) := by
  induction vs with
  | nil => exact .pure 0
  | cons v rest ih =>
    refine ((computes_satisfied h v).bind fun holds => ih.map (f := fun others => holds.toNat + others)).congr
      fun o depth _ => ?_
    rw [List.countP_cons, Nat.add_comm]
    cases satisfied o depth m v <;> rfl

section Constraints

variable {E : Entities} {siblings : List (Constraint Rule)} {c : Constraint Rule}

theorem siblingCount?_reading (E : Entities) (siblings : List (Constraint Rule)) (keyword : Keyword) :
    Reading.siblingCount? (siblings.map (·.map (Rule.reading E))) keyword =
      count? (siblings.map (·.map Rule.meaning)) keyword := by
  unfold Reading.siblingCount? count?
  rw [Constraint.find?_count_map, Constraint.find?_count_map]

theorem computes_violation (c : Constraint Reading) (v : Value) : Computes (fun _ _ => none) (Reading.violation c v) :=
  .throw_here fun _ => by simp [Failure.Solid, Failure.flatten]

theorem computes_checkContained {q : Rule} (h : Reads q.meaning (q.reading E)) (items : List Value) :
    Computes (fun o depth =>
        let count := items.countP (satisfied o depth q.meaning)
        if (count? (siblings.map (·.map Rule.meaning)) .minContains).getD 1 ≤ count &&
          (count? (siblings.map (·.map Rule.meaning)) .maxContains).all (count ≤ ·) then some none else none)
      (Reading.checkContained (siblings.map (·.map (Rule.reading E))) (q.reading E) items) := by
  unfold Reading.checkContained
  simp only [siblingCount?_reading]
  generalize (count? (siblings.map (·.map Rule.meaning)) .minContains).getD 1 = least
  generalize count? (siblings.map (·.map Rule.meaning)) .maxContains = most
  refine ((computes_countSatisfied h items).bind (n := fun count _ _ =>
    if least ≤ count && most.all (count ≤ ·) then some none else none) fun count => ?_).congr fun _ _ _ => rfl
  have hwithin : (least ≤ count && most.all (count ≤ ·)) = !(decide (count < least) || most.any (· < count)) := by
    cases most <;> simp [← decide_not]
  simp only [hwithin]
  cases decide (count < least) || most.any (· < count)
  · exact .pure none
  · exact .throw_here fun _ => by simp [Failure.Solid, Failure.flatten]

/-- A strict constraint is passed where it keeps the value. -/
theorem computes_check (hstrict : c.lax = false) (h : ∀ q, c.operand = .rule q → Reads q.meaning (q.reading E))
    (v : Value) :
    Computes (fun o depth =>
        if keeps o depth (siblings.map (·.map Rule.meaning)) v (c.map Rule.meaning) then some none else none)
      (Reading.check (siblings.map (·.map (Rule.reading E))) (c.map (Rule.reading E)) v) := by
  -- Only the count of items that satisfy a rule reads anything; other keywords look at the value alone.
  by_cases hcontains : c.keyword = .contains
  · obtain ⟨keyword, operand, lax⟩ := c
    obtain rfl : keyword = .contains := hcontains
    cases operand with
    | value w => exact .pure none
    | pattern p => exact .pure none
    | rule q =>
      show Computes (fun o depth => if keeps o depth _ v ⟨.contains, .rule q.meaning, lax⟩ then some none else none)
        (Reading.check _ ⟨.contains, .rule (q.reading E), lax⟩ v)
      unfold Reading.check keeps
      cases hitems : v.items? with
      | some items => exact computes_checkContained (h q rfl) items
      | none => exact computes_violation _ v
  · have hkeeps (o : Options) (depth : Nat) : keeps o depth (siblings.map (·.map Rule.meaning)) v (c.map Rule.meaning) =
        (c.verdict v).isKept := by
      rw [← Constraint.verdict_map Rule.meaning c v]
      obtain ⟨keyword, operand, lax⟩ := c
      cases keyword with
      | contains => exact absurd rfl hcontains
      | _ => cases operand <;> rfl
    rw [Reading.check_eq (c := c.map _) hcontains, Constraint.verdict_map]
    simp only [hkeeps]
    cases hverdict : c.verdict v with
    | kept => exact .pure none
    | violated => exact computes_violation _ v
    | replaced w =>
      rw [Constraint.lax_of_replaced hverdict] at hstrict
      cases hstrict

/-- Strict constraints in turn are passed where all of them keep the value, which stays as it is. -/
theorem computes_constrained {cs : List (Constraint Rule)} (hstrict : ∀ c ∈ cs, c.lax = false)
    (h : ∀ c ∈ cs, ∀ q, c.operand = .rule q → Reads q.meaning (q.reading E)) (v : Value) :
    Computes (fun o depth =>
        if (cs.map (·.map Rule.meaning)).all (keeps o depth (siblings.map (·.map Rule.meaning)) v) then some v else none)
      (Reading.constrained (siblings.map (·.map (Rule.reading E))) (cs.map (·.map (Rule.reading E))) v) := by
  induction cs generalizing v with
  | nil => exact .pure v
  | cons c rest ih =>
    obtain ⟨hc, hrest⟩ := List.forall_mem_cons.mp hstrict
    obtain ⟨hq, hqs⟩ := List.forall_mem_cons.mp h
    rw [List.map_cons, List.map_cons, Coupling.constrained_cons]
    -- A check that is passed gives nothing in the place of the value, and one that is not ends with a record.
    refine (((computes_check hc hq v).recover none).bind fun x => ih hrest hqs (x.getD v)).congr fun o depth _ => ?_
    rw [List.all_cons]
    cases keeps o depth (siblings.map (·.map Rule.meaning)) v (c.map Rule.meaning) <;> rfl

theorem computes_limited {cs : List (Constraint Rule)} (hstrict : ∀ c ∈ cs, c.lax = false)
    (h : ∀ c ∈ cs, ∀ q, c.operand = .rule q → Reads q.meaning (q.reading E)) (v : Value) :
    Computes (fun o depth =>
        if o.ignoresConstraints ||
          (cs.map (·.map Rule.meaning)).all (keeps o depth (cs.map (·.map Rule.meaning)) v) then some v else none)
      (Reading.limited (cs.map (·.map (Rule.reading E))) v) := by
  refine .bind_options (n := fun p o depth => if p.ignoresConstraints ||
    (cs.map (·.map Rule.meaning)).all (keeps o depth (cs.map (·.map Rule.meaning)) v) then some v else none) fun p => ?_
  cases p.ignoresConstraints
  · exact computes_constrained hstrict h v
  · exact .pure v

end Constraints

/-! ### Layers -/

section Layers

variable {E : Entities}

theorem computes_converted (t : Target) (v : Value) :
    Computes (fun o _ => (o.convert v t).toOption) (Reading.converted t v) := by
  refine .bind_options (n := fun p _ _ => (p.convert v t).toOption) fun o => ?_
  cases o.convert v t with
  | ok w => exact .pure w
  | error cause => exact .throw_here fun _ => by simp [Failure.Solid, Failure.flatten]

theorem computes_ofOrigin {t : Target} (hE : E t = .plain) (v : Value) :
    Computes (fun o _ => (o.convert v t).toOption) (Reading.ofOrigin E t v) := by
  unfold Reading.ofOrigin
  simp only [hE, bind_pure]
  exact computes_converted t v

/-- Without hooks and branches, a layer converts, descends and checks. -/
theorem readLayer_of_bare {l : Layer Reading} (logic : l.logic = none) (before : l.before = none) (after : l.after = none)
    (v : Value) : Reading.readLayer E l v = (do
      let v ← l.origin.elim pure (Reading.ofOrigin E) v
      let v ← Reading.arguments l.args l.onError v
      Reading.limited l.constraints v) := by
  rw [Coupling.readLayer_eq, logic, before, after]
  simp only [Option.elim_none, pure_bind, Reading.hooked, bind_pure, Reading.limited]

/-- A direct rule reads values as its meaning tells. -/
theorem reads_reading (hE : ∀ t : Target, t.namesEntity = false → E t = .plain) {r : Rule} (h : r.Direct) :
    Reads r.meaning (r.reading E) := by
  induction h with
  | @mk l origin _ strict _ logic before after onError args contained =>
    intro v
    have hlogic : (l.map (Rule.reading E)).logic = none := by rw [Layer.map, logic, Option.map_none]
    rw [Rule.meaning_mk, Coupling.read_reading, Rule.layer, readLayer_of_bare hlogic before after]
    have horigin : Computes (fun o _ => l.origin.elim (some v) fun t => (o.convert v t).toOption)
        (l.origin.elim pure (Reading.ofOrigin E) v) := by
      cases ht : l.origin with
      | none => exact .pure v
      | some t => exact computes_ofOrigin (hE t (origin t ht)) v
    have hargs : List.Forall₂ Reads (l.args.map Rule.meaning) (l.args.map (Rule.reading E)) := by
      rw [List.forall₂_map_left_iff, List.forall₂_map_right_iff, List.forall₂_same]
      exact args
    refine (horigin.bind fun v => (computes_arguments hargs onError v).bind fun v =>
      computes_limited strict contained v).congr fun o depth _ => ?_
    rfl

end Layers

end Meaning

/-! ### At the root -/

namespace Catalog

variable {c : Catalog} {r : Rule} {v w : Value} {o : Options} {calls : Calls}

theorem entities_eq_plain (c : Catalog) (o : Options) (t : Target) (ht : t.namesEntity = false) :
    c.entities o t = .plain := by
  unfold entities entitiesWithin
  cases t with
  | entity | reference => cases ht
  | _ => rfl

/-- What a direct rule makes of an input is what its meaning tells, wherever nothing that fails is passed over. -/
theorem apply_eq_ok_iff_meaning (hr : r.Direct) (ho : o.Throws) :
    (c.apply r v o calls).1 = .ok w ↔ r.meaning o 0 v = some w := by
  rw [apply_eq_ok_iff]
  exact (Meaning.reads_reading (c.entities_eq_plain o) hr v).accepts ⟨.root o, calls⟩ rfl ho w

end Catalog

end Conform

import Mathlib.Data.List.Forall2
import Conform.Proofs.Coupling.Basic
import Conform.Proofs.Rule.Induction

/-! Readings in two runs. Two readings are coupled if they convert to the same target and are coupled on every
    value, and alike if they show the same text, too. Each way of composing readings makes alike readings of alike ones, so
    the readings of one rule are alike as soon as what is known of the entities is. Texts only matter to what
    the failures of constraints say. -/

namespace Conform

/-! ### Values side by side -/

/-- Two relations between values that go along with the ways in which values are put together from what is read: the one holds
    of what is read, the other of what is put together. -/
structure Value.Composed (S T : Value → Value → Prop) : Prop where
  item (v : Value) : S v v
  refl (v : Value) : T v v
  list {us ws : List Value} : List.Forall₂ S us ws → T (.list us) (.list ws)
  tuple {us ws : List Value} : List.Forall₂ S us ws → T (.tuple us) (.tuple ws)
  set {us ws : List Value} : List.Forall₂ S us ws → T (.set (distinct us)) (.set (distinct ws))
  map {es fs : List (Value × Value)} : List.Forall₂ (fun e f => S e.1 f.1 ∧ S e.2 f.2) es fs → T (.map es) (.map fs)
  insertEntry {k k' v v' : Value} {es fs : List (Value × Value)} : S k k' → S v v' →
    List.Forall₂ (fun e f => S e.1 f.1 ∧ S e.2 f.2) es fs →
    List.Forall₂ (fun e f => S e.1 f.1 ∧ S e.2 f.2) (insertEntry k v es) (insertEntry k' v' fs)

theorem Value.composed_eq : Composed Eq Eq := by
  have hlist {us ws : List Value} (h : List.Forall₂ Eq us ws) : us = ws := by rwa [List.forall₂_eq_eq_eq] at h
  have hentries {es fs : List (Value × Value)} (h : List.Forall₂ (fun e f => e.1 = f.1 ∧ e.2 = f.2) es fs) : es = fs := by
    have heq : List.Forall₂ Eq es fs := h.imp fun _ _ hef => Prod.ext hef.1 hef.2
    rwa [List.forall₂_eq_eq_eq] at heq
  exact {
    item := fun _ => rfl
    refl := fun _ => rfl
    list := fun h => by rw [hlist h]
    tuple := fun h => by rw [hlist h]
    set := fun h => by rw [hlist h]
    map := fun h => by rw [hentries h]
    insertEntry := fun hk hv h => by
      rw [hk, hv, hentries h]
      exact List.forall₂_same.mpr fun _ _ => ⟨rfl, rfl⟩ }

/-- Two outcomes of one sort. -/
inductive Outcome.Beside (S : Value → Value → Prop) : Outcome → Outcome → Prop
  | parsed {v w : Value} (h : S v w) : Beside S (.parsed v) (.parsed w)
  | preserved {v w : Value} (h : S v w) : Beside S (.preserved v) (.preserved w)
  | excluded : Beside S .excluded .excluded
  | collected : Beside S .collected .collected

theorem Outcome.Beside.value? {S : Value → Value → Prop} {x y : Outcome} (h : Beside S x y) :
    Option.Rel S x.value? y.value? := by
  cases h with
  | parsed h | preserved h => exact .some h
  | excluded | collected => exact .none

theorem Outcome.Beside.eq {x y : Outcome} (h : Beside Eq x y) : x = y := by
  cases h with
  | parsed h | preserved h => rw [h]
  | excluded | collected => rfl

namespace Coupling

variable (K : Coupling)

/-! ### Readings side by side -/

/-- Two readings that do the same as far as the coupling tells, up to a relation between the values that they give. -/
structure Coupled (S : Value → Value → Prop) (r s : Reading) : Prop where
  origin : r.origin = s.origin
  read : ∀ v, K.Rel S (r.read v) (s.read v)

/-- Two readings that do and show the same. -/
structure Alike (r s : Reading) : Prop extends K.Coupled Eq r s where
  text : r.text = s.text

/-- Two entities with the same options whose fields are read alike. -/
structure AlikeEntity (e f : Entity) : Prop where
  options : e.options = f.options
  read : ∀ v, K.Rel Eq (e.read v) (f.read v)

/-- Two targets that lead to the same. -/
inductive AlikeLookup : Lookup → Lookup → Prop
  | plain : AlikeLookup .plain .plain
  | unresolved (name : String) : AlikeLookup (.unresolved name) (.unresolved name)
  | entity {e f : Entity} : K.AlikeEntity e f → AlikeLookup (.entity e) (.entity f)

/-- What is known of the entities is alike. -/
def AlikeEntities (E F : Entities) : Prop := ∀ t, K.AlikeLookup (E t) (F t)

/-- Two operands that are the same, up to readings that are alike. -/
inductive AlikeOperand : Operand Reading → Operand Reading → Prop
  | value (v : Value) : AlikeOperand (.value v) (.value v)
  | pattern (p : Pattern) : AlikeOperand (.pattern p) (.pattern p)
  | rule {r s : Reading} : K.Alike r s → AlikeOperand (.rule r) (.rule s)

/-- Two constraints that are the same, up to readings that are alike. -/
structure AlikeConstraint (c d : Constraint Reading) : Prop where
  keyword : c.keyword = d.keyword
  operand : K.AlikeOperand c.operand d.operand
  lax : c.lax = d.lax

/-- Two combinators of branches that are alike. -/
structure AlikeLogic (l m : Logic Reading) : Prop where
  op : l.op = m.op
  branches : List.Forall₂ K.Alike l.branches m.branches

/-- Two layers that are the same, up to readings that are alike. -/
structure AlikeLayer (l m : Layer Reading) : Prop where
  origin : l.origin = m.origin
  args : List.Forall₂ K.Alike l.args m.args
  constraints : List.Forall₂ K.AlikeConstraint l.constraints m.constraints
  logic : Option.Rel K.AlikeLogic l.logic m.logic
  before : l.before = m.before
  after : l.after = m.after
  onError : l.onError = m.onError

variable {K} {S : Value → Value → Prop} {r s : Reading} {rs ss : List Reading}

theorem Coupled.mono {R : Value → Value → Prop} (h : K.Coupled R r s) (hRS : ∀ v w, R v w → S v w) : K.Coupled S r s :=
  ⟨h.origin, fun v => K.rel_mono (h.read v) hRS⟩

/-! ### Elements -/

theorem rel_guarded (hS : ∀ v, S v v) (h : K.Coupled S r s) (v : Value) (item : RouteItem) (policy : ErrorPolicy) :
    K.Rel (Outcome.Beside S) (r.guarded v item policy) (s.guarded v item policy) := by
  refine K.rel_bind (K.rel_enter item) fun c d hcd => ?_
  refine K.rel_bind (K.rel_attempt hcd (h.read v)) fun x y hxy => ?_
  cases hxy with
  | ok hw hleft => exact K.rel_bind_same (K.rel_absorb hleft) fun _ => K.rel_pure (.parsed hw)
  | error hfails hfs hgs hleft =>
    cases policy with
    | exclude =>
      exact K.rel_bind_same (K.rel_takeWarnings (K.left_warn (fun fs => _ ++ Reading.failuresText fs) hleft hfails))
        fun _ => K.rel_pure .excluded
    | preserve =>
      exact K.rel_bind_same (K.rel_takeWarnings (K.left_warn (fun fs => _ ++ Reading.failuresText fs) hleft hfails))
        fun _ => K.rel_pure (.preserved (hS v))
    | throw =>
      refine K.rel_bind_same (K.rel_takeWarnings hleft) fun _ => ?_
      exact K.rel_bind_same (K.rel_collectAll hfails) fun _ => K.rel_pure .collected

theorem rel_guarded_eq (h : K.Coupled Eq r s) (v : Value) (item : RouteItem) (policy : ErrorPolicy) :
    K.Rel Eq (r.guarded v item policy) (s.guarded v item policy) :=
  K.rel_mono (rel_guarded (fun _ => rfl) h v item policy) fun _ _ => Outcome.Beside.eq

theorem rel_element (hS : ∀ v, S v v) (h : K.Coupled S r s) (v : Value) (item : RouteItem) (policy : ErrorPolicy) :
    K.Rel (Option.Rel S) (r.element v item policy) (s.element v item policy) :=
  K.rel_bind (rel_guarded hS h v item policy) fun _ _ hxy => K.rel_pure hxy.value?

theorem forall₂_toList {x y : Option Value} (h : Option.Rel S x y) : List.Forall₂ S x.toList y.toList := by
  cases h with
  | none => exact .nil
  | some h => exact .cons h .nil

theorem rel_items (hS : ∀ v, S v v) (h : K.Coupled S r s) (policy : ErrorPolicy) (vs : List Value) :
    ∀ index, K.Rel (List.Forall₂ S) (r.items policy index vs) (s.items policy index vs) := by
  induction vs with
  | nil => exact fun _ => K.rel_pure .nil
  | cons v rest ih =>
    intro index
    refine K.rel_bind (rel_element hS h v (.index index) policy) fun kept kept' hkept => ?_
    exact K.rel_bind (ih (index + 1)) fun _ _ hothers => K.rel_pure (List.rel_append (forall₂_toList hkept) hothers)

theorem rel_positions (hS : ∀ v, S v v) (h : List.Forall₂ (K.Coupled S) rs ss) (policy : ErrorPolicy) :
    ∀ (index : Nat) (vs : List Value),
      K.Rel (List.Forall₂ S) (Reading.positions policy index rs vs) (Reading.positions policy index ss vs) := by
  induction h with
  | nil => exact fun _ _ => K.rel_pure .nil
  | cons hr _ ih =>
    intro index vs
    cases vs with
    | nil => exact K.rel_pure .nil
    | cons v rest =>
      refine K.rel_bind (rel_element hS hr v (.index index) policy) fun kept kept' hkept => ?_
      exact K.rel_bind (ih (index + 1) rest) fun _ _ hothers => K.rel_pure (List.rel_append (forall₂_toList hkept) hothers)

theorem rel_entries {T : Value → Value → Prop} (hS : Value.Composed S T) {key key' value value' : Reading} (hkey : K.Coupled S key key')
    (hvalue : K.Coupled S value value') (keyPolicy valuePolicy : ErrorPolicy) (rest : List (Value × Value)) :
    ∀ kept kept', List.Forall₂ (fun e f => S e.1 f.1 ∧ S e.2 f.2) kept kept' →
      K.Rel (List.Forall₂ fun e f => S e.1 f.1 ∧ S e.2 f.2) (Reading.entries key value keyPolicy valuePolicy kept rest)
        (Reading.entries key' value' keyPolicy valuePolicy kept' rest) := by
  induction rest with
  | nil => exact fun _ _ hkept => K.rel_pure hkept
  | cons entry rest ih =>
    obtain ⟨k, v⟩ := entry
    intro kept kept' hkept
    refine K.rel_bind (rel_element hS.item hkey k (.key k.key) keyPolicy) fun newKey newKey' hnewKey => ?_
    cases hnewKey with
    | none => exact ih kept kept' hkept
    | some hk =>
      refine K.rel_bind (rel_element hS.item hvalue v (.key k.key) valuePolicy) fun newValue newValue' hnewValue => ?_
      cases hnewValue with
      | none => exact ih kept kept' hkept
      | some hv => exact ih _ _ (hS.insertEntry hk hv hkept)

theorem rel_fitArity (arity : Nat) (vs : List Value) :
    K.Rel Eq (Reading.fitArity arity vs) (Reading.fitArity arity vs) := by
  unfold Reading.fitArity
  by_cases hfew : vs.length < arity
  · simp only [if_pos hfew]
    exact K.rel_throw_here fun _ => by simp [Reading.tupleFailure, Failure.flatten]
  · simp only [if_neg hfew]
    by_cases hall : vs.length = arity
    · simp only [if_pos hall]
      exact K.rel_pure rfl
    · simp only [if_neg hall]
      refine K.rel_bind K.rel_options fun o p hop => ?_
      rw [K.agree Options.strictness (fun _ => rfl) hop]
      by_cases hloss : p.strictness.noDataLoss
      · simp only [if_pos hloss]
        exact K.rel_throw_here fun _ => by simp [Reading.tupleFailure, Failure.flatten]
      · simp only [if_neg hloss]
        exact K.rel_bind_same (K.rel_warn _) fun _ => K.rel_pure rfl

theorem rel_arguments {T : Value → Value → Prop} (hS : Value.Composed S T) (h : List.Forall₂ (K.Coupled S) rs ss)
    (onError : Option ErrorPolicy) (v : Value) :
    K.Rel T (Reading.arguments rs onError v) (Reading.arguments ss onError v) := by
  refine K.rel_bind K.rel_options fun o p hop => ?_
  simp only [K.agree Options.itemPolicy (fun _ => rfl) hop, K.agree Options.keyPolicy (fun _ => rfl) hop,
    K.agree Options.valuePolicy (fun _ => rfl) hop]
  cases h with
  | nil => cases v <;> exact K.rel_pure (hS.refl _)
  | cons hr hrest =>
    cases v with
    | list vs =>
      exact K.rel_bind (rel_items hS.item hr _ vs 0) fun _ _ hitems => K.rel_pure (hS.list hitems)
    | set vs =>
      exact K.rel_bind (rel_items hS.item hr _ vs 0) fun _ _ hitems => K.rel_pure (hS.set hitems)
    | tuple vs =>
      simp only [List.length_cons, hrest.length_eq]
      refine K.rel_bind_same (rel_fitArity _ vs) fun us => ?_
      exact K.rel_bind (rel_positions hS.item (.cons hr hrest) _ 0 us) fun _ _ hitems => K.rel_pure (hS.tuple hitems)
    | map es =>
      cases hrest with
      | nil => exact K.rel_pure (hS.refl _)
      | cons hs hmore =>
        cases hmore with
        | nil =>
          exact K.rel_bind (rel_entries hS hr hs _ _ es [] [] .nil) fun _ _ hentries => K.rel_pure (hS.map hentries)
        | cons _ _ => exact K.rel_pure (hS.refl _)
    | _ => exact K.rel_pure (hS.refl _)

/-! ### Combinators -/

theorem rel_attempted (h : K.Coupled S r s) (v : Value) :
    K.Rel (Parse.Tried K.Fails K.Left S) (r.attempted v) (s.attempted v) :=
  K.rel_bind K.rel_context fun _ _ hcd => K.rel_attempt (K.fresh_speculate hcd) (h.read v)

/-- Only what the last branch gives is not read on. -/
theorem rel_allOf (hS : ∀ v, S v v) (h : List.Forall₂ (K.Coupled S) rs ss)
    (hinit : ∀ p ∈ (rs.zip ss).dropLast, K.Coupled Eq p.1 p.2) :
    ∀ v, K.Rel S (Reading.allOf rs v) (Reading.allOf ss v) := by
  induction h with
  | nil => exact fun v => K.rel_pure (hS v)
  | cons hr hrest ih =>
    intro v
    cases hrest with
    | nil =>
      refine K.rel_bind (rel_attempted hr v) fun x y hxy => ?_
      cases hxy with
      | ok hw hleft => exact K.rel_bind_same (K.rel_takeWarnings hleft) fun _ => K.rel_pure hw
      | error hfails hfs hgs hleft =>
        exact K.rel_bind_same (K.rel_takeWarnings hleft) fun _ => K.rel_throw (K.fails_ofList hfails hfs hgs)
    | cons =>
      obtain ⟨hr, hinit⟩ := List.forall_mem_cons.mp hinit
      refine K.rel_bind (rel_attempted hr v) fun x y hxy => ?_
      cases hxy with
      | ok hw hleft =>
        cases hw
        exact K.rel_bind_same (K.rel_takeWarnings hleft) fun _ => ih hinit _
      | error hfails hfs hgs hleft =>
        exact K.rel_bind_same (K.rel_takeWarnings hleft) fun _ => K.rel_throw (K.fails_ofList hfails hfs hgs)

theorem rel_firstOf (h : List.Forall₂ (K.Coupled S) rs ss) (v : Value) :
    ∀ fs gs, K.Fails fs gs → K.Rel S (Reading.firstOf v fs rs) (Reading.firstOf v gs ss) := by
  induction h with
  | nil =>
    intro fs gs hfails
    refine K.rel_bind_same K.rel_route fun c => ?_
    exact K.rel_throw (K.fails_noneMatched _ v hfails)
  | cons hr _ ih =>
    intro fs gs hfails
    refine K.rel_bind (rel_attempted hr v) fun x y hxy => ?_
    cases hxy with
    | ok hw hleft => exact K.rel_bind_same (K.rel_takeWarnings hleft) fun _ => K.rel_pure hw
    | error hmore _ _ _ => exact ih _ _ (K.fails_append hfails hmore)

theorem forall₂_filter_exact (h : List.Forall₂ (K.Coupled S) rs ss) (v : Value) (keep : Bool → Bool) :
    List.Forall₂ (K.Coupled S) (rs.filter fun r => keep (Reading.isExact v r))
      (ss.filter fun r => keep (Reading.isExact v r)) := by
  induction h with
  | nil => exact .nil
  | @cons r s _ _ hr _ ih =>
    have hexact : Reading.isExact v r = Reading.isExact v s := by
      rw [Reading.isExact, hr.origin, Reading.isExact]
    cases hkeep : keep (Reading.isExact v s)
    · simpa [hexact, hkeep] using ih
    · simpa [hexact, hkeep] using ⟨hr, ih⟩

theorem rel_anyOf (h : List.Forall₂ (K.Coupled S) rs ss) (v : Value) :
    K.Rel S (Reading.anyOf rs v) (Reading.anyOf ss v) :=
  rel_firstOf (List.rel_append (forall₂_filter_exact h v id) (forall₂_filter_exact h v not)) v [] [] K.fails_nil

theorem onlyOf_cons (v : Value) (index : Nat) (matched : Option (Nat × Value × Context)) (fs : List Failure)
    (r : Reading) (rest : List Reading) :
    Reading.onlyOf v index matched fs (r :: rest) = (r.attempted v >>= fun result =>
      match result, matched with
      | (.ok _, _), some (first, _) => do throw (.severalMatched (← Parse.route) v [first, index])
      | (.ok w, child), none => Reading.onlyOf v (index + 1) (some (index, w, child)) fs rest
      | (.error more, _), _ => Reading.onlyOf v (index + 1) matched (fs ++ more) rest) := by
  cases matched <;> rfl

theorem rel_onlyOf (h : List.Forall₂ (K.Coupled S) rs ss) (v : Value) :
    ∀ index m n fs gs,
      Option.Rel (fun x y : Nat × Value × Context => x.1 = y.1 ∧ S x.2.1 y.2.1 ∧ K.Left x.2.2 y.2.2) m n →
      K.Fails fs gs → K.Rel S (Reading.onlyOf v index m fs rs) (Reading.onlyOf v index n gs ss) := by
  induction h with
  | nil =>
    intro index m n fs gs hmatched hfails
    cases hmatched with
    | none =>
      refine K.rel_bind_same K.rel_route fun c => ?_
      exact K.rel_throw (K.fails_noneMatched _ v hfails)
    | some hxy =>
      obtain ⟨-, hw, hleft⟩ := hxy
      exact K.rel_bind_same (K.rel_takeWarnings hleft) fun _ => K.rel_pure hw
  | cons hr _ ih =>
    intro index m n fs gs hmatched hfails
    rw [onlyOf_cons, onlyOf_cons]
    refine K.rel_bind (rel_attempted hr v) fun x y hxy => ?_
    cases hxy with
    | ok hw hleft =>
      cases hmatched with
      | none => exact ih _ _ _ _ _ (.some ⟨rfl, hw, hleft⟩) hfails
      | some hxy =>
        obtain ⟨hfirst, -, -⟩ := hxy
        refine K.rel_bind_same K.rel_route fun c => ?_
        simp only [hfirst]
        exact K.rel_throw_single (by simp [Failure.flatten])
    | error hmore _ _ _ => exact ih _ _ _ _ _ hmatched (K.fails_append hfails hmore)

/-- What the branches give is not read at all. -/
theorem rel_noneOf (h : List.Forall₂ (K.Coupled S) rs ss) (v : Value) :
    K.Rel Eq (Reading.noneOf rs v) (Reading.noneOf ss v) := by
  induction h with
  | nil => exact K.rel_pure rfl
  | cons hr _ ih =>
    refine K.rel_bind (rel_attempted hr v) fun x y hxy => ?_
    cases hxy with
    | ok _ _ =>
      exact K.rel_throw_here fun _ => by simp [Failure.flatten]
    | error _ _ _ _ => exact ih

theorem rel_combined {R : Value → Value → Prop} {l m : Logic Reading} (hR : ∀ v, R v v) (hop : l.op = m.op)
    (hbranches : List.Forall₂ (K.Coupled S) l.branches m.branches)
    (hinit : l.op = .allOf → ∀ p ∈ (l.branches.zip m.branches).dropLast, K.Coupled Eq p.1 p.2)
    (hgiven : l.op ≠ .noneOf → ∀ v w, S v w → R v w) (v : Value) :
    K.Rel R (Reading.combined l v) (Reading.combined m v) := by
  have hbranches' (h : l.op ≠ .noneOf) : List.Forall₂ (K.Coupled R) l.branches m.branches :=
    hbranches.imp fun _ _ hr => hr.mono (hgiven h)
  simp only [Reading.combined, ← hop]
  cases hl : l.op with
  | allOf => exact rel_allOf hR (hbranches' (by simp [hl])) (hinit hl) v
  | anyOf => exact rel_anyOf (hbranches' (by simp [hl])) v
  | oneOf => exact rel_onlyOf (hbranches' (by simp [hl])) v 0 none none [] [] .none K.fails_nil
  | noneOf =>
    refine K.rel_mono (rel_noneOf hbranches v) fun v w hvw => ?_
    rw [hvw]
    exact hR w

/-! ### Constraints -/

section Constraints

variable {c d : Constraint Reading} {cs ds : List (Constraint Reading)}

theorem AlikeOperand.toValue {o o' : Operand Reading} (h : K.AlikeOperand o o') :
    (o.map Reading.text).toValue = (o'.map Reading.text).toValue := by
  cases h with
  | value | pattern => rfl
  | rule hr => exact congrArg Value.str hr.text

theorem AlikeConstraint.scalar (h : K.AlikeConstraint c d) : c.scalar = d.scalar := by
  obtain ⟨k, o, lax⟩ := c
  obtain ⟨k', o', lax'⟩ := d
  cases h.operand <;> rfl

theorem AlikeConstraint.count (h : K.AlikeConstraint c d) : c.count = d.count := by
  obtain ⟨k, o, lax⟩ := c
  obtain ⟨k', o', lax'⟩ := d
  cases h.operand <;> rfl

theorem AlikeConstraint.verdict (h : K.AlikeConstraint c d) (v : Value) : c.verdict v = d.verdict v := by
  have hscalar := h.scalar
  have hcount := h.count
  obtain ⟨k, o, lax⟩ := c
  obtain ⟨k', o', lax'⟩ := d
  obtain ⟨rfl, hoperand, rfl⟩ := h
  simp only [Constraint.verdict, hscalar, hcount]
  cases hoperand <;> rfl

theorem rel_violation (h : K.AlikeConstraint c d) (v : Value) :
    K.Rel Eq (Reading.violation c v) (Reading.violation d v) := by
  refine K.rel_bind_same K.rel_route fun route => ?_
  rw [h.keyword, h.operand.toValue]
  exact K.rel_throw_single (by simp [Failure.flatten])

theorem rel_satisfied (h : K.Coupled S r s) (v : Value) : K.Rel Eq (r.satisfied v) (s.satisfied v) := by
  refine K.rel_bind K.rel_context fun c d hcd => ?_
  refine K.rel_bind (K.rel_attempt (K.fresh_speculateWith hcd _) (h.read v)) fun x y hxy => ?_
  cases hxy <;> exact K.rel_pure rfl

theorem rel_countSatisfied (h : K.Coupled S r s) (vs : List Value) :
    K.Rel Eq (r.countSatisfied vs) (s.countSatisfied vs) := by
  induction vs with
  | nil => exact K.rel_pure rfl
  | cons v rest ih =>
    refine K.rel_bind_same (rel_satisfied h v) fun holds => ?_
    exact K.rel_bind_same ih fun _ => K.rel_pure rfl

theorem siblingCount?_eq (h : List.Forall₂ (fun c d => c.keyword = d.keyword ∧ c.count = d.count) cs ds)
    (keyword : Keyword) : Reading.siblingCount? cs keyword = Reading.siblingCount? ds keyword := by
  induction h with
  | nil => rfl
  | @cons c d _ _ hc _ ih =>
    unfold Reading.siblingCount? at ih ⊢
    rw [List.find?_cons, List.find?_cons, hc.1]
    cases d.keyword == keyword
    · exact ih
    · exact congrArg some hc.2

theorem rel_checkContained (hcounts : ∀ keyword, Reading.siblingCount? cs keyword = Reading.siblingCount? ds keyword)
    (h : K.Coupled S r s) (vs : List Value) : K.Rel Eq (Reading.checkContained cs r vs) (Reading.checkContained ds s vs) := by
  unfold Reading.checkContained
  simp only [hcounts]
  refine K.rel_bind_same (rel_countSatisfied h vs) fun count => ?_
  split
  · refine K.rel_bind_same K.rel_route fun route => ?_
    exact K.rel_bind (R := Eq) (K.rel_throw_single (by simp [Failure.flatten])) fun _ _ _ => K.rel_pure rfl
  · exact K.rel_pure rfl

/-- Constraints that are alike act on their verdict alike. -/
theorem rel_verdict (h : K.AlikeConstraint c d) (v : Value) : K.Rel Eq
    (match c.verdict v with
      | .kept => pure none
      | .replaced w => pure (some w)
      | .violated => Reading.violation c v)
    (match d.verdict v with
      | .kept => pure none
      | .replaced w => pure (some w)
      | .violated => Reading.violation d v) := by
  rw [h.verdict v]
  cases d.verdict v with
  | kept | replaced => exact K.rel_pure rfl
  | violated => exact rel_violation h v

theorem rel_check (hcounts : ∀ keyword, Reading.siblingCount? cs keyword = Reading.siblingCount? ds keyword)
    (h : K.AlikeConstraint c d) (v : Value) : K.Rel Eq (Reading.check cs c v) (Reading.check ds d v) := by
  have hjudged := rel_verdict h v
  obtain ⟨k, o, lax⟩ := c
  obtain ⟨k', o', lax'⟩ := d
  obtain rfl : k = k' := h.keyword
  unfold Reading.check
  cases h.operand with
  | value | pattern => cases k <;> exact hjudged
  | rule hr =>
    cases k with
    | contains =>
      simp only
      cases v.items? with
      | some items => exact rel_checkContained hcounts hr.toCoupled items
      | none => exact rel_violation h v
    | _ => exact hjudged

theorem constrained_cons (siblings rest : List (Constraint Reading)) (c : Constraint Reading) (v : Value) :
    Reading.constrained siblings (c :: rest) v = (do
      let replaced ← (Reading.check siblings c v).recover none
      Reading.constrained siblings rest (replaced.getD v)) := rfl

variable {siblings siblings' : List (Constraint Reading)}

/-- Constraints in turn keep what each of them keeps between the values of the two runs. -/
theorem rel_inTurn {S : Value → Value → Prop} (h : List.Forall₂ (fun c d => ∀ v w, S v w →
      K.Rel (Option.Rel S) (Reading.check siblings c v) (Reading.check siblings' d w)) cs ds) :
    ∀ v w, S v w → K.Rel S (Reading.constrained siblings cs v) (Reading.constrained siblings' ds w) := by
  induction h with
  | nil => exact fun _ _ hvw => K.rel_pure hvw
  | cons hc _ ih =>
    intro v w hvw
    rw [constrained_cons, constrained_cons]
    refine K.rel_bind (K.rel_recover .none (hc v w hvw)) fun x y hxy => ih _ _ ?_
    cases hxy with
    | none => exact hvw
    | some hreplaced => exact hreplaced

theorem rel_constrained (hcounts : ∀ keyword, Reading.siblingCount? siblings keyword = Reading.siblingCount? siblings' keyword)
    (h : List.Forall₂ K.AlikeConstraint cs ds) (v : Value) :
    K.Rel Eq (Reading.constrained siblings cs v) (Reading.constrained siblings' ds v) := by
  refine rel_inTurn (h.imp fun c d hcd u w huw => ?_) v v rfl
  subst huw
  refine K.rel_mono (rel_check hcounts hcd u) fun x _ hxy => ?_
  cases hxy
  cases x with
  | none => exact .none
  | some w => exact .some rfl

end Constraints

/-! ### Rules -/

variable {E F : Entities}

theorem rel_converted (t : Target) (v : Value) : K.Rel Eq (Reading.converted t v) (Reading.converted t v) := by
  refine K.rel_bind K.rel_options fun o p hop => ?_
  rw [K.agree (fun o => o.convert v t) (fun _ => rfl) hop]
  cases p.convert v t with
  | ok w => exact K.rel_pure rfl
  | error cause =>
    exact K.rel_throw_here fun _ => by simp [Failure.flatten]

/-- A value is handed on to an entity by a descent into its options. -/
theorem nested_eq (e : Entity) (v : Value) :
    Reading.nested e v = (do
      let c ← Parse.context
      let fields ← (e.read v).descend (c.speculateWith e.options)
      pure (.map (fields.map fun (k, w) => (.str k, w)))) := by
  refine Parse.ext_outcome fun s => ?_
  simp only [Reading.nested, Parse.descend, Parse.outcome_bind, Parse.outcome_context, Parse.outcome_within]
  cases (Parse.outcome (Parse.absorb _) _) with
  | mk result t =>
    cases result with
    | error f => rfl
    | ok _ =>
      simp only
      split <;> simp_all

theorem rel_nested {e f : Entity} (h : K.AlikeEntity e f) (v : Value) :
    K.Rel Eq (Reading.nested e v) (Reading.nested f v) := by
  rw [nested_eq, nested_eq]
  refine K.rel_bind K.rel_context fun c d hcd => ?_
  rw [h.options]
  exact K.rel_bind_same (K.rel_descend (K.fresh_speculateWith hcd _) (h.read v)) fun _ => K.rel_pure rfl

/-- Every target leads to the same. -/
theorem rel_ofOrigin (h : K.AlikeEntities E F) (t : Target) (v : Value) :
    K.Rel Eq (Reading.ofOrigin E t v) (Reading.ofOrigin F t v) := by
  refine K.rel_bind_same (rel_converted t v) fun w => ?_
  have ht := h t
  revert ht
  cases E t <;> cases F t <;> intro ht <;> cases ht
  · exact K.rel_pure rfl
  · exact K.rel_throw_here fun _ => by simp [Failure.flatten]
  · exact rel_nested ‹_› w

/-- A rule reads by the readings of the rules right inside it. -/
theorem read_reading (E : Entities) (r : Rule) (v : Value) :
    (r.reading E).read v = Reading.readLayer E (r.layer.map (Rule.reading E)) v := by
  obtain ⟨l⟩ := r
  rw [Rule.reading, Rule.fold_mk]
  rfl

/-- A layer reads a value in five steps. -/
theorem readLayer_eq (E : Entities) (l : Layer Reading) (v : Value) :
    Reading.readLayer E l v = (do
      let v ← (l.origin.elim pure (Reading.ofOrigin E)) (Reading.hooked l.before v)
      let v ← Reading.arguments l.args l.onError v
      let v ← (l.logic.elim pure Reading.combined) v
      let o ← Parse.options
      let v ← cond o.ignoresConstraints pure (Reading.constrained l.constraints l.constraints) v
      pure (Reading.hooked l.after v)) := by
  have last (v : Value) : (do
      let o ← Parse.options
      if o.ignoresConstraints then do
        let v ← pure v
        pure (Reading.hooked l.after v)
      else do
        let v ← Reading.constrained l.constraints l.constraints v
        pure (Reading.hooked l.after v)) = (do
      let o ← Parse.options
      let v ← cond o.ignoresConstraints pure (Reading.constrained l.constraints l.constraints) v
      pure (Reading.hooked l.after v)) := by
    refine bind_congr fun o => ?_
    cases o.ignoresConstraints <;> rfl
  unfold Reading.readLayer
  cases l.origin <;> cases l.logic <;> refine bind_congr fun w => bind_congr fun w => bind_congr fun w => last w

/-- Two layers whose parts keep one by one what holds of their values. -/
theorem rel_layer {I A B C R : Value → Value → Prop} {l m : Layer Reading} (hA : Value.Composed I A)
    (horigin : l.origin = m.origin) (hE : ∀ t v, K.Rel Eq (Reading.ofOrigin E t v) (Reading.ofOrigin F t v))
    (hargs : List.Forall₂ (K.Coupled I) l.args m.args)
    (hlogic : ∀ v w, A v w → K.Rel B (l.logic.elim pure Reading.combined v) (m.logic.elim pure Reading.combined w))
    (hconstraints : ∀ v w, B v w → K.Rel C (Reading.constrained l.constraints l.constraints v)
      (Reading.constrained m.constraints m.constraints w)) (hkept : ∀ v w, B v w → C v w)
    (hbefore : l.before = m.before) (hafter : ∀ v w, C v w → R (Reading.hooked l.after v) (Reading.hooked m.after w))
    (honError : l.onError = m.onError) (v : Value) : K.Rel R (Reading.readLayer E l v) (Reading.readLayer F m v) := by
  rw [readLayer_eq, readLayer_eq, ← horigin, ← hbefore, ← honError]
  refine K.rel_bind_same ?_ fun v => ?_
  · cases l.origin with
    | none => exact K.rel_pure rfl
    | some t => exact hE t _
  refine K.rel_bind (rel_arguments hA hargs l.onError v) fun v w hvw => ?_
  refine K.rel_bind (hlogic v w hvw) fun v w hvw => ?_
  refine K.rel_bind K.rel_options fun o p hop => ?_
  rw [K.agree Options.ignoresConstraints (fun _ => rfl) hop]
  refine K.rel_bind (R := C) ?_ fun v w hvw => K.rel_pure (hafter v w hvw)
  cases p.ignoresConstraints
  · exact hconstraints v w hvw
  · exact K.rel_pure (hkept v w hvw)

theorem rel_readLayer (hE : ∀ t v, K.Rel Eq (Reading.ofOrigin E t v) (Reading.ofOrigin F t v)) {l m : Layer Reading}
    (h : K.AlikeLayer l m) (v : Value) : K.Rel Eq (Reading.readLayer E l v) (Reading.readLayer F m v) := by
  have hcounts := siblingCount?_eq (h.constraints.imp fun _ _ hc => ⟨hc.keyword, hc.count⟩)
  refine rel_layer (B := Eq) (C := Eq) Value.composed_eq h.origin hE (h.args.imp fun _ _ => Alike.toCoupled) ?_ ?_ (fun _ _ => id)
    h.before ?_ h.onError v
  · rintro v _ rfl
    have hlogic := h.logic
    generalize l.logic = a at hlogic ⊢
    generalize m.logic = b at hlogic ⊢
    cases hlogic with
    | none => exact K.rel_pure rfl
    | some hl =>
      have hbranches := hl.branches.imp fun _ _ => Alike.toCoupled
      exact rel_combined (fun _ => rfl) hl.op hbranches
        (fun _ p hp => List.forall₂_zip hbranches (List.dropLast_subset _ hp)) (fun _ _ _ => id) v
  · rintro v _ rfl
    exact rel_constrained hcounts h.constraints v
  · rintro v _ rfl
    rw [h.after]

theorem map_text (h : List.Forall₂ K.Alike rs ss) : rs.map Reading.text = ss.map Reading.text := by
  induction h with
  | nil => rfl
  | cons hr _ ih => rw [List.map_cons, List.map_cons, hr.text, ih]

theorem AlikeConstraint.map_text {c d : Constraint Reading} (h : K.AlikeConstraint c d) :
    c.map Reading.text = d.map Reading.text := by
  obtain ⟨k, o, lax⟩ := c
  obtain ⟨k', o', lax'⟩ := d
  obtain ⟨rfl, hoperand, rfl⟩ := h
  cases hoperand with
  | value | pattern => rfl
  | rule hr => simp only [Constraint.map, Operand.map, hr.text]

theorem map_constraint_text {cs ds : List (Constraint Reading)} (h : List.Forall₂ K.AlikeConstraint cs ds) :
    cs.map (·.map Reading.text) = ds.map (·.map Reading.text) := by
  induction h with
  | nil => rfl
  | cons hc _ ih => rw [List.map_cons, List.map_cons, hc.map_text, ih]

theorem AlikeLayer.map_text {l m : Layer Reading} (h : K.AlikeLayer l m) :
    l.map Reading.text = m.map Reading.text := by
  obtain ⟨origin, args, constraints, logic, before, after, onError⟩ := l
  obtain ⟨origin', args', constraints', logic', before', after', onError'⟩ := m
  obtain ⟨rfl, hargs, hconstraints, hlogic, rfl, rfl, rfl⟩ := h
  have hcs := map_constraint_text hconstraints
  have hl : logic.map (·.map Reading.text) = logic'.map (·.map Reading.text) := by
    cases hlogic with
    | none => rfl
    | some hl => simp only [Option.map_some, Logic.map, hl.op, Coupling.map_text hl.branches]
  simp only [Layer.map, Coupling.map_text hargs, hcs, hl]

theorem alikeLayer_map {f g : Rule → Reading} {l : Layer Rule} (h : l.All fun r => K.Alike (f r) (g r)) :
    K.AlikeLayer (l.map f) (l.map g) where
  origin := rfl
  args := by
    rw [Layer.map, Layer.map, List.forall₂_map_left_iff, List.forall₂_map_right_iff, List.forall₂_same]
    exact h.args
  constraints := by
    rw [Layer.map, Layer.map, List.forall₂_map_left_iff, List.forall₂_map_right_iff, List.forall₂_same]
    intro c hc
    refine ⟨rfl, ?_, rfl⟩
    have hrule := h.constraints c hc
    simp only [Constraint.map]
    cases ho : c.operand with
    | value v => exact .value v
    | pattern p => exact .pattern p
    | rule r => exact .rule (hrule r ho)
  logic := by
    have hbranches := h.branches
    simp only [Layer.map]
    cases hl : l.logic with
    | none => exact .none
    | some logic =>
      refine .some ⟨rfl, ?_⟩
      show List.Forall₂ K.Alike (logic.branches.map f) (logic.branches.map g)
      rw [List.forall₂_map_left_iff, List.forall₂_map_right_iff, List.forall₂_same]
      exact hbranches logic hl
  before := rfl
  after := rfl
  onError := rfl

theorem alike_ofLayer (hE : ∀ t v, K.Rel Eq (Reading.ofOrigin E t v) (Reading.ofOrigin F t v)) {l m : Layer Reading}
    (h : K.AlikeLayer l m) : K.Alike (Reading.ofLayer E l) (Reading.ofLayer F m) where
  origin := h.origin
  text := congrArg Rule.layerText h.map_text
  read := rel_readLayer hE h

/-- Every rule is read alike where every target leads to the same. -/
theorem alike_reading_of_origin (hE : ∀ t v, K.Rel Eq (Reading.ofOrigin E t v) (Reading.ofOrigin F t v)) (r : Rule) :
    K.Alike (r.reading E) (r.reading F) := by
  refine Rule.induction (P := fun r => K.Alike (r.reading E) (r.reading F)) (fun l ih => ?_) r
  rw [Rule.reading, Rule.fold_mk, Rule.reading, Rule.fold_mk]
  exact alike_ofLayer hE (alikeLayer_map ih)

theorem alike_reading (hE : K.AlikeEntities E F) (r : Rule) : K.Alike (r.reading E) (r.reading F) :=
  alike_reading_of_origin (rel_ofOrigin hE) r

end Coupling

end Conform

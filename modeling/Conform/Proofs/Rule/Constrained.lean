import Conform.Proofs.Constraint.Disturbance
import Conform.Proofs.Rule.Contained

/-! Constraints in turn. Constraints that accept a value mend it one after another, each having passed what stood
    there at its turn. A property that held at some turn is lost only where a later constraint replaces the
    value. -/

namespace Conform

open Parse

/-! ### Values in turn -/

namespace Constraint

variable {ρ : Type}

/-- The value behind a constraint: what is put in its place, or else the value itself. -/
def mended (c : Constraint ρ) (v : Value) : Value :=
  match c.verdict v with
  | .replaced u => u
  | _ => v

/-- The value behind constraints in turn. -/
def mendedAll (cs : List (Constraint ρ)) (v : Value) : Value := cs.foldl (fun v c => c.mended v) v

variable {cs : List (Constraint ρ)} {c : Constraint ρ} {v : Value}

theorem mended_of_kept (h : c.verdict v = .kept) : c.mended v = v := by rw [mended, h]

theorem mended_of_replaced {u : Value} (h : c.verdict v = .replaced u) : c.mended v = u := by rw [mended, h]

theorem mended_of_strict (h : c.lax = false) (v : Value) : c.mended v = v := by
  unfold mended
  cases hverdict : c.verdict v with
  | replaced u =>
    rw [lax_of_replaced hverdict] at h
    cases h
  | kept | violated => rfl

theorem mendedAll_append (bs cs : List (Constraint ρ)) (v : Value) :
    mendedAll (bs ++ cs) v = mendedAll cs (mendedAll bs v) := List.foldl_append

/-- A property is kept by constraints in turn, or lost where one of them replaces a value. -/
theorem holds_or_lost {P : Value → Prop} : ∀ {cs : List (Constraint ρ)} {v : Value}, P v →
    P (mendedAll cs v) ∨ ∃ before l after u, cs = before ++ l :: after ∧ P (mendedAll before v) ∧
      l.verdict (mendedAll before v) = .replaced u ∧ ¬ P u
  | [], _, h => .inl h
  | c :: rest, v, h => by
    by_cases hc : P (c.mended v)
    · have hrest : P (mendedAll rest (c.mended v)) ∨ _ := holds_or_lost hc
      rcases hrest with hall | ⟨before, l, after, u, rfl, hbefore, hl, hu⟩
      · exact .inl hall
      · exact .inr ⟨c :: before, l, after, u, rfl, hbefore, hl, hu⟩
    · refine .inr ⟨[], c, rest, c.mended v, rfl, h, ?_, hc⟩
      show c.verdict v = .replaced (c.mended v)
      cases hverdict : c.verdict v with
      | replaced u => rw [mended_of_replaced hverdict]
      | kept =>
        rw [mended_of_kept hverdict] at hc
        exact absurd h hc
      | violated =>
        rw [mended, hverdict] at hc
        exact absurd h hc

theorem scalar_map {σ : Type} (f : ρ → σ) (c : Constraint ρ) : (c.map f).scalar = c.scalar := by
  obtain ⟨k, o, lax⟩ := c
  cases o <;> rfl

theorem count_map {σ : Type} (f : ρ → σ) (c : Constraint ρ) : (c.map f).count = c.count := by
  obtain ⟨k, o, lax⟩ := c
  cases o with
  | value v => cases v <;> rfl
  | pattern | rule => rfl

theorem find?_count_map {σ : Type} (f : ρ → σ) (cs : List (Constraint ρ)) (keyword : Keyword) :
    ((cs.map (·.map f)).find? (·.keyword == keyword)).map count = (cs.find? (·.keyword == keyword)).map count := by
  rw [List.find?_map, Option.map_map]
  exact congrFun (congrArg Option.map (funext fun c => count_map f c)) _

/-- What a constraint makes of a value does not depend on the rules that it speaks of. -/
theorem verdict_map {σ : Type} (f : ρ → σ) (c : Constraint ρ) (v : Value) : (c.map f).verdict v = c.verdict v := by
  unfold verdict
  rw [scalar_map, count_map]
  obtain ⟨k, o, lax⟩ := c
  cases k <;> cases o <;> rfl

theorem mendedAll_map {σ : Type} (f : ρ → σ) (cs : List (Constraint ρ)) (v : Value) :
    mendedAll (cs.map (·.map f)) v = mendedAll cs v := by
  unfold mendedAll
  rw [List.foldl_map]
  simp only [mended, verdict_map]

end Constraint

/-! ### Checks -/

namespace Reading

variable {siblings cs : List (Constraint Reading)} {c : Constraint Reading} {v : Value} {s t : ParseState}

theorem outcome_violation_ne_ok {x : Option Value} : (violation c v).outcome s ≠ (.ok x, t) := by
  intro h
  unfold violation at h
  obtain ⟨_, _, -, hthrow⟩ := outcome_bind_eq_ok h
  cases hthrow

/-- A check that is passed keeps the value or replaces it, as the verdict says. -/
theorem accepts_check_cases {x : Option Value} (h : Accepts (check siblings c v) s x t) :
    x = none ∧ c.verdict v = .kept ∨ ∃ u, x = some u ∧ c.verdict v = .replaced u := by
  unfold check at h
  split at h
  case h_1 r hkeyword _ =>
    refine .inl ⟨?_, Constraint.verdict_contained (by simp [hkeyword]) v⟩
    split at h
    case h_1 items _ => exact (checkContained_eq_ok.mp h.1).1
    case h_2 => exact absurd h.1 outcome_violation_ne_ok
  case h_2 =>
    cases hverdict : c.verdict v with
    | kept =>
      rw [hverdict] at h
      cases h.1
      exact .inl ⟨rfl, rfl⟩
    | replaced u =>
      rw [hverdict] at h
      cases h.1
      exact .inr ⟨u, rfl, rfl⟩
    | violated =>
      rw [hverdict] at h
      exact absurd h.1 outcome_violation_ne_ok

theorem getD_of_accepts_check {x : Option Value} (h : Accepts (check siblings c v) s x t) : x.getD v = c.mended v := by
  rcases accepts_check_cases h with ⟨rfl, hkept⟩ | ⟨u, rfl, hreplaced⟩
  · rw [Constraint.mended_of_kept hkept]
    rfl
  · rw [Constraint.mended_of_replaced hreplaced]
    rfl

theorem eq_none_of_accepts_check {x : Option Value} (hstrict : c.lax = false)
    (h : Accepts (check siblings c v) s x t) : x = none := by
  rcases accepts_check_cases h with ⟨hx, -⟩ | ⟨u, -, hreplaced⟩
  · exact hx
  · rw [Constraint.lax_of_replaced hreplaced] at hstrict
    cases hstrict

/-- Any constraint but one on the items that satisfy a rule is checked by its verdict. -/
theorem check_eq (h : c.keyword ≠ .contains) (v : Value) :
    check siblings c v = match c.verdict v with
      | .kept => pure none
      | .replaced w => pure (some w)
      | .violated => violation c v := by
  obtain ⟨k, o, lax⟩ := c
  cases k with
  | contains => exact absurd rfl h
  | _ => cases o <;> rfl

theorem accepts_check_iff (h : c.keyword ≠ .contains) (hs : s.context.failures = []) :
    (∃ t, Accepts (check siblings c v) s none t) ↔ c.verdict v = .kept := by
  rw [check_eq h]
  cases hverdict : c.verdict v with
  | kept => exact iff_of_true ⟨s, rfl, hs⟩ rfl
  | replaced w => exact iff_of_false (fun ⟨t, hok, _⟩ => nomatch hok) (fun heq => nomatch heq)
  | violated => exact iff_of_false (fun ⟨t, hok, _⟩ => outcome_violation_ne_ok hok) (fun heq => nomatch heq)

/-- A check records nothing. -/
theorem context_check {x : Option Value} {t : ParseState} (h : (check siblings c v).outcome s = (.ok x, t)) :
    t.context = s.context := by
  by_cases hcontains : c.keyword = .contains
  · unfold check at h
    split at h
    case h_1 =>
      split at h
      · obtain ⟨-, n, hcount, -⟩ := checkContained_eq_ok.mp h
        exact context_countSatisfied hcount
      · exact absurd h outcome_violation_ne_ok
    case h_2 =>
      rw [Constraint.verdict_contained (by simp [hcontains])] at h
      cases h
      rfl
  · rw [check_eq hcontains] at h
    split at h
    · cases h
      rfl
    · cases h
      rfl
    · exact absurd h outcome_violation_ne_ok

/-! ### Runs -/

/-- Constraints that accept a value have each passed what stood there at its turn. -/
theorem accepts_constrained (hcs : List.Forall₂ Coupling.sound.AlikeConstraint cs cs) :
    ∀ {v w : Value} {s t : ParseState}, s.context.failures = [] → Accepts (constrained siblings cs v) s w t →
      w = Constraint.mendedAll cs v ∧ ∀ before c after, cs = before ++ c :: after →
        ∃ s' x t', s.context.Leads s'.context ∧ s'.context.failures = [] ∧
          Accepts (check siblings c (Constraint.mendedAll before v)) s' x t' := by
  induction cs with
  | nil =>
    intro v w s t hs h
    cases h.1
    exact ⟨rfl, fun before c after hsplit => absurd hsplit (by simp)⟩
  | cons c rest ih =>
    intro v w s t hs h
    obtain ⟨hc, hrest⟩ := List.forall₂_cons.mp hcs
    rw [Coupling.constrained_cons] at h
    have hsolid := Context.solid_of_clean hs
    have hcheck := (Coupling.rel_check (fun keyword => Eq.refl (siblingCount? siblings keyword)) hc v).left
    obtain ⟨x, s', hx, -, hleads, hrun⟩ :=
      (accepts_bind (hcheck.recover ⟨none, rfl⟩)
        (fun x _ => (Coupling.rel_constrained (fun _ => rfl) hrest (x.getD v)).left) hsolid).mp h
    -- Nothing is recorded by the end, so the check was not collected in place of a value.
    have hpassed := accepts_of_recover hcheck hsolid hx
    rw [getD_of_accepts_check hpassed] at hrun
    obtain ⟨hw, hturns⟩ := ih hrest hx.2 hrun
    refine ⟨hw, fun before d after hsplit => ?_⟩
    cases before with
    | nil =>
      obtain ⟨rfl, -⟩ := List.cons.inj hsplit
      exact ⟨s, x, s', .refl _, hs, hpassed⟩
    | cons b before =>
      obtain ⟨rfl, hsplit'⟩ := List.cons.inj hsplit
      obtain ⟨s'', x', t', hleads', hs'', hpassed'⟩ := hturns before d after hsplit'
      exact ⟨s'', x', t', hleads.trans hleads', hs'', hpassed'⟩

/-! ### Layers without constraints -/

/-- The constraints of a layer on a value, where they are not ignored. -/
def limited (cs : List (Constraint Reading)) (v : Value) : Parse Value := do
  cond (← Parse.options).ignoresConstraints pure (constrained cs cs) v

theorem limited_nil (v : Value) : limited [] v = pure v := by
  refine Parse.ext_outcome fun s => ?_
  unfold limited
  rw [outcome_bind_of_ok (outcome_options s)]
  cases s.context.options.ignoresConstraints <;> rfl

/-- A layer without a last hook reads a value as it does without constraints, and then by these. -/
theorem readLayer_eq_limited (E : Entities) {l : Layer Reading} (hafter : l.after = none) (v : Value) :
    readLayer E l v = readLayer E { l with constraints := [] } v >>= limited l.constraints := by
  have hlimited (cs : List (Constraint Reading)) (v : Value) : (do
      let o ← Parse.options
      let v ← cond o.ignoresConstraints pure (constrained cs cs) v
      pure (hooked none v)) = limited cs v := by
    unfold limited
    exact bind_congr fun o => bind_pure _
  rw [Coupling.readLayer_eq, Coupling.readLayer_eq]
  simp only [bind_assoc, hafter, hlimited, limited_nil, pure_bind]

theorem rel_limited {K : Coupling} {cs : List (Constraint Reading)} (h : List.Forall₂ K.AlikeConstraint cs cs)
    (v : Value) : K.Rel Eq (limited cs v) (limited cs v) := by
  refine K.rel_bind K.rel_options fun o p hop => ?_
  rw [K.agree Options.ignoresConstraints (fun _ => rfl) hop]
  cases p.ignoresConstraints
  · exact Coupling.rel_constrained (fun _ => rfl) h v
  · exact K.rel_pure rfl

end Reading

end Conform

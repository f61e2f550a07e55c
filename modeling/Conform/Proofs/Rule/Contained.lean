import Conform.Proofs.Collecting

/-! Items that satisfy a rule. Whether an item does is found out in an attempt, which leaves nothing behind; of a
    rule that reads alike whenever it is asked, the items that satisfy it are always the same. -/

namespace Conform

open Parse

/-! ### The start of a parse -/

/-- A parse is at the root under the options that say nothing, and has recorded nothing so far. -/
structure ParseState.AtStart (s : ParseState) : Prop where
  leads : (Context.root {}).Leads s.context
  clean : s.context.failures = []

theorem ParseState.AtStart.root (calls : Calls) : (ParseState.mk (.root {}) calls).AtStart := ⟨.refl _, rfl⟩

theorem ParseState.AtStart.beside {s t : ParseState} (hs : s.AtStart) (ht : t.AtStart) : Clean s t :=
  ⟨⟨by rw [hs.leads.options, ht.leads.options], hs.leads.route.trans ht.leads.route.symm,
    hs.leads.depth.trans ht.leads.depth.symm⟩, hs.clean, ht.clean⟩

/-! ### Items -/

namespace Reading

variable {r : Reading} {s : ParseState}

theorem outcome_satisfied (r : Reading) (v : Value) (s : ParseState) :
    ∃ holds calls, (r.satisfied v).outcome s = (.ok holds, ⟨s.context, calls⟩) := by
  unfold satisfied
  rw [outcome_bind_of_ok (outcome_context s)]
  rw [outcome_bind_of_ok (outcome_attempt _ _ s)]
  exact ⟨_, _, rfl⟩

/-- Whether an item satisfies a rule at the root, where no default was made before. -/
def satisfies (r : Reading) (v : Value) : Bool :=
  ((r.satisfied v).outcome ⟨.root {}, Calls.none⟩).1.toOption.getD false

theorem context_countSatisfied {items : List Value} {n : Nat} {t : ParseState} :
    ∀ {s : ParseState}, (r.countSatisfied items).outcome s = (.ok n, t) → t.context = s.context := by
  induction items generalizing n with
  | nil =>
    intro s h
    cases h
    rfl
  | cons v rest ih =>
    intro s h
    unfold countSatisfied at h
    obtain ⟨holds, calls, hv⟩ := outcome_satisfied r v s
    rw [outcome_bind_of_ok hv] at h
    obtain ⟨others, u, hrest, hsum⟩ := outcome_bind_eq_ok h
    cases hsum
    have hcontext := ih hrest
    exact hcontext

/-- A rule that reads alike whenever it is asked is satisfied by an item always or never. -/
theorem outcome_satisfied_of_success (h : Coupling.success.Coupled Eq r r) (v : Value) (hs : s.AtStart) :
    ∃ calls, (r.satisfied v).outcome s = (.ok (r.satisfies v), ⟨s.context, calls⟩) := by
  obtain ⟨holds, calls, hsatisfied⟩ := outcome_satisfied r v s
  obtain ⟨holds', calls', hsatisfied'⟩ := outcome_satisfied r v ⟨.root {}, Calls.none⟩
  obtain ⟨_, _, ⟨hother, -⟩, heq⟩ :=
    (Coupling.rel_satisfied h v).follows _ _ (hs.beside (.root Calls.none)) holds _ ⟨hsatisfied, hs.clean⟩
  cases heq
  have hsame : r.satisfies v = holds := by
    rw [satisfies, hother]
    rfl
  exact ⟨calls, hsame ▸ hsatisfied⟩

theorem outcome_countSatisfied (h : Coupling.success.Coupled Eq r r) (items : List Value) :
    ∀ {s : ParseState}, s.AtStart →
      ∃ calls, (r.countSatisfied items).outcome s = (.ok (items.countP r.satisfies), ⟨s.context, calls⟩) := by
  induction items with
  | nil => exact fun _ => ⟨_, rfl⟩
  | cons v rest ih =>
    intro s hs
    obtain ⟨calls, hv⟩ := outcome_satisfied_of_success h v hs
    obtain ⟨calls', hrest⟩ := ih (s := ⟨s.context, calls⟩) ⟨hs.leads, hs.clean⟩
    refine ⟨calls', ?_⟩
    unfold countSatisfied
    rw [outcome_bind_of_ok hv, outcome_bind_of_ok hrest, List.countP_cons, Nat.add_comm]
    cases r.satisfies v <;> rfl

section Counts

variable {siblings : List (Constraint Reading)} {items : List Value} {t : ParseState}

/-- The number of items that satisfy a rule passes where it is neither too small nor too great. -/
theorem checkContained_eq_ok {x : Option Value} :
    (checkContained siblings r items).outcome s = (.ok x, t) ↔
      x = none ∧ ∃ n, (r.countSatisfied items).outcome s = (.ok n, t) ∧
        (siblingCount? siblings .minContains).getD 1 ≤ n ∧ ∀ most ∈ siblingCount? siblings .maxContains, n ≤ most := by
  have hwithin (least n : Nat) : (least ≤ n ∧ ∀ most ∈ siblingCount? siblings .maxContains, n ≤ most) ↔
      ¬ (decide (n < least) || (siblingCount? siblings .maxContains).any (· < n)) = true := by
    cases siblingCount? siblings .maxContains <;> simp
  simp only [hwithin]
  unfold checkContained
  constructor
  · intro h
    obtain ⟨n, u, hcount, h⟩ := outcome_bind_eq_ok h
    split at h
    case isTrue =>
      obtain ⟨_, _, -, h⟩ := outcome_bind_eq_ok h
      obtain ⟨_, _, hthrow, -⟩ := outcome_bind_eq_ok h
      cases hthrow
    case isFalse hin =>
      cases h
      exact ⟨rfl, n, hcount, hin⟩
  · rintro ⟨rfl, n, hcount, hin⟩
    rw [outcome_bind_of_ok hcount, if_neg hin]
    rfl

theorem accepts_checkContained_iff (h : Coupling.success.Coupled Eq r r) (hs : s.AtStart) :
    (∃ t, Accepts (checkContained siblings r items) s none t) ↔
      (siblingCount? siblings .minContains).getD 1 ≤ items.countP r.satisfies ∧
        ∀ most ∈ siblingCount? siblings .maxContains, items.countP r.satisfies ≤ most := by
  obtain ⟨calls, hcount⟩ := outcome_countSatisfied h items hs
  constructor
  · rintro ⟨t, hok, -⟩
    obtain ⟨-, n, hcount', hin⟩ := checkContained_eq_ok.mp hok
    rw [hcount] at hcount'
    cases hcount'
    exact hin
  · intro hin
    exact ⟨_, checkContained_eq_ok.mpr ⟨rfl, _, hcount, hin⟩, hs.clean⟩

end Counts

end Reading

end Conform

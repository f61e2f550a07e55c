import Conform.Proofs.Coupling.Sound

/-! What runs come to. A run that meets failures may collect them and go on, or end with them; which of the two it does
    depends on the options in force and on what was recorded before. What it comes to where it does not end does not: a
    value, some warnings, some failures on record, and calls of factories. These add up along a sequence. -/

namespace Conform

namespace Context

variable {c d : Context} {f : Failure} {fs : List Failure}

/-- The context with more warnings and failures. -/
def finding (c : Context) (ws : List Warning) (fs : List Failure) : Context :=
  { c with warnings := c.warnings ++ ws, failures := c.failures ++ fs }

theorem finding_nil (c : Context) : c.finding [] [] = c := by
  rw [finding, List.append_nil, List.append_nil]

theorem finding_finding (c : Context) (ws ws' : List Warning) (fs fs' : List Failure) :
    (c.finding ws fs).finding ws' fs' = c.finding (ws ++ ws') (fs ++ fs') := by
  simp only [finding, List.append_assoc]

theorem failures_finding_iff (ws : List Warning) : (c.finding ws fs).failures = c.failures ↔ fs = [] :=
  List.append_right_eq_self

theorem takeWarnings_eq (c d : Context) : c.takeWarnings d = c.finding d.warnings [] := by
  rw [takeWarnings, finding, List.append_nil]

/-- A failure that is collected without ending the run is recorded. -/
theorem collect_eq_ok (h : c.collect f = (.ok (), d)) : d = c.finding [] f.flatten := by
  unfold collect at h
  split at h
  · cases h
  simp only at h
  split at h
  · cases h
  · cases h
    rw [finding, List.append_nil]

theorem collectAll_eq_ok (fs : List Failure) : ∀ {c : Context}, c.collectAll fs = (.ok (), d) →
    d = c.finding [] (Failure.flattenAll fs) := by
  induction fs with
  | nil =>
    intro c h
    cases h
    exact (Context.finding_nil _).symm
  | cons f rest ih =>
    intro c h
    rw [collectAll] at h
    rcases hcollect : c.collect f with ⟨g | _, e⟩ <;> rw [hcollect] at h
    · cases h
    · rw [ih h, collect_eq_ok hcollect, finding_finding, List.append_nil, Failure.flattenAll]

end Context

namespace Parse

variable {α β : Type} {p q : Parse α} {k : α → Parse β} {s : ParseState} {a : α} {b : β} {ws ws' : List Warning}
  {fs fs' : List Failure} {calls calls' : Calls}

/-- What a run comes to unless it ends early, which it does only with failures. -/
structure ComesTo (p : Parse α) (s : ParseState) (a : α) (ws : List Warning) (fs : List Failure) (calls : Calls) : Prop where
  of_nil : fs = [] → p.outcome s = (.ok a, ⟨s.context.finding ws [], calls⟩)
  of_ok {a' : α} {t : ParseState} : p.outcome s = (.ok a', t) → a' = a ∧ t = ⟨s.context.finding ws fs, calls⟩

/-- A run that goes through comes to what it gives. -/
theorem ComesTo.of_outcome (h : p.outcome s = (.ok a, ⟨s.context.finding ws fs, calls⟩)) : ComesTo p s a ws fs calls where
  of_nil hnil := by rw [h, hnil]
  of_ok hok := by
    cases h.symm.trans hok
    exact ⟨rfl, rfl⟩

/-- A run that goes on like another one in the same context. -/
theorem ComesTo.of_step {u : ParseState} (h : ComesTo q u a ws fs calls) (heq : p.outcome s = q.outcome u)
    (hcontext : u.context = s.context) : ComesTo p s a ws fs calls :=
  ⟨fun hnil => heq.trans (hcontext ▸ h.of_nil hnil), fun hok => hcontext ▸ h.of_ok (heq ▸ hok)⟩

theorem comesTo_pure (a : α) (s : ParseState) : ComesTo (pure a) s a [] [] s.calls :=
  .of_outcome (by rw [outcome_pure, Context.finding_nil])

theorem ComesTo.bind (h : ComesTo p s a ws fs calls) (hk : ComesTo (k a) ⟨s.context.finding ws fs, calls⟩ b ws' fs' calls') :
    ComesTo (p >>= k) s b (ws ++ ws') (fs ++ fs') calls' where
  of_nil hnil := by
    obtain ⟨rfl, rfl⟩ := List.append_eq_nil_iff.mp hnil
    rw [outcome_bind_of_ok (h.of_nil rfl), hk.of_nil rfl, Context.finding_finding, List.append_nil]
  of_ok hok := by
    obtain ⟨a', t, hp, hrest⟩ := outcome_bind_eq_ok hok
    obtain ⟨rfl, rfl⟩ := h.of_ok hp
    obtain ⟨rfl, rfl⟩ := hk.of_ok hrest
    exact ⟨rfl, by rw [Context.finding_finding]⟩

theorem ComesTo.map (h : ComesTo p s a ws fs calls) (f : α → β) : ComesTo (do pure (f (← p))) s (f a) ws fs calls := by
  rw [← List.append_nil ws, ← List.append_nil fs]
  exact h.bind (comesTo_pure (f a) _)

/-- A run goes through without a new failure on record if and only if it comes to none. -/
theorem ComesTo.succeeds_iff (h : ComesTo p s a ws fs calls) :
    (∃ b, (p.outcome s).1 = .ok b ∧ (p.outcome s).2.context.failures = s.context.failures) ↔ fs = [] := by
  constructor
  · rintro ⟨b, hok, hclean⟩
    have hleft : (p.outcome s).2 = _ := (h.of_ok (Prod.ext hok rfl)).2
    rw [hleft] at hclean
    exact (Context.failures_finding_iff ws).mp hclean
  · intro hnil
    rw [h.of_nil hnil]
    exact ⟨a, rfl, (Context.failures_finding_iff ws).mpr rfl⟩

theorem comesTo_takeWarnings (d : Context) (s : ParseState) : ComesTo (takeWarnings d) s () d.warnings [] s.calls :=
  .of_outcome (by rw [takeWarnings, outcome_ofContext, Context.takeWarnings_eq])

/-- What a child warns of is taken over from one that has recorded no failure. -/
theorem comesTo_absorb {d : Context} (h : d.failures = []) (s : ParseState) : ComesTo (absorb d) s () d.warnings [] s.calls :=
  .of_outcome (by rw [absorb, outcome_ofContext, Context.absorb_of_clean h, Context.takeWarnings_eq])

theorem comesTo_collectAll (hsolid : ∀ f ∈ fs, f.Solid) (s : ParseState) :
    ComesTo (collectAll fs) s () [] (Failure.flattenAll fs) s.calls where
  of_nil hnil := by
    have hfs : fs = [] := Classical.byContradiction fun hne => Failure.flattenAll_ne_nil hne hsolid hnil
    rw [hfs, collectAll, outcome_ofContext, Context.collectAll, Context.finding_nil]
  of_ok hok := by
    rw [collectAll, outcome_ofContext] at hok
    obtain ⟨hok, rfl⟩ := Prod.ext_iff.mp hok
    exact ⟨rfl, by rw [← Context.collectAll_eq_ok fs (Prod.ext hok rfl)]⟩

end Parse

end Conform

import Conform.Proofs.Ground.Basic
import Conform.Proofs.Parse.Accepted

/-! Runs that collect. Where failures are collected without a limit, recording one ends nothing: a run goes on behind
    it, and what it leaves is what it found together with the single failures that it recorded, in order. A
    value under a policy that does not raise leaves none, and one under a policy that does leaves some, all of them
    at its own step or further on. -/

namespace Conform

/-- Failures are collected, however many there are. -/
structure Options.Collecting (o : Options) : Prop where
  collects : o.collects = true
  unlimited : o.maxErrors = none

namespace Context

variable {c : Context}

theorem collect_of_collecting (h : c.options.Collecting) (f : Failure) :
    c.collect f = (.ok (), { c with failures := c.failures ++ f.flatten }) := by
  simp [collect, h.collects, h.unlimited]

theorem collectAll_of_collecting (fs : List Failure) : ∀ {c : Context}, c.options.Collecting →
    c.collectAll fs = (.ok (), { c with failures := c.failures ++ Failure.flattenAll fs }) := by
  induction fs with
  | nil =>
    intro c _
    rw [collectAll, Failure.flattenAll, List.append_nil]
  | cons f rest ih =>
    intro c h
    have hrest := ih (c := { c with failures := c.failures ++ f.flatten }) h
    simp only [collectAll, collect_of_collecting h, hrest, Failure.flattenAll, List.append_assoc]

end Context

namespace Parse

variable {α β : Type} {p : Parse α} {k : α → Parse β} {s t u : ParseState} {a : α} {b : β} {fs gs : List Failure}

/-- A run that gives a value where it began, and has recorded some failures by then. -/
structure Records (p : Parse α) (s : ParseState) (a : α) (fs : List Failure) (t : ParseState) : Prop where
  outcome : p.outcome s = (.ok a, t)
  place : s.context.At t.context
  failures : t.context.failures = s.context.failures ++ fs

theorem Records.bind (h : Records p s a fs t) (hk : Records (k a) t b gs u) : Records (p >>= k) s b (fs ++ gs) u where
  outcome := (outcome_bind_of_ok h.outcome).trans hk.outcome
  place := h.place.trans hk.place
  failures := by rw [hk.failures, h.failures, List.append_assoc]

/-- A run that goes on from another state at the same place with the same record of failures. -/
theorem Records.of_outcome {q : Parse α} (h : Records q u a fs t) (heq : p.outcome s = q.outcome u)
    (hplace : s.context.At u.context) (hfailures : u.context.failures = s.context.failures) : Records p s a fs t :=
  ⟨heq.trans h.outcome, hplace.trans h.place, hfailures ▸ h.failures⟩

theorem records_pure (a : α) (s : ParseState) : Records (pure a) s a [] s :=
  ⟨rfl, .refl s.context, (List.append_nil _).symm⟩

theorem Records.map (h : Records p s a fs t) (f : α → β) : Records (do pure (f (← p))) s (f a) fs t := by
  rw [← List.append_nil fs]
  exact h.bind (records_pure (f a) t)

theorem records_options_bind {k : Options → Parse β} (h : Records (k s.context.options) s b fs t) :
    Records (options >>= k) s b fs t :=
  h.of_outcome (outcome_bind_of_ok (outcome_options s)) (.refl s.context) rfl

/-- A step that cannot fail records nothing. -/
theorem records_of_passes {value : ParseState → α} (h : Passes value p) (s : ParseState) :
    ∃ t, Records p s (value s) [] t := by
  obtain ⟨ws, calls, hstep⟩ := h s
  exact ⟨_, hstep, ⟨rfl, rfl, rfl⟩, (List.append_nil _).symm⟩

theorem records_collectAll (h : s.context.options.Collecting) (fs : List Failure) :
    ∃ t, Records (collectAll fs) s () (Failure.flattenAll fs) t := by
  refine ⟨⟨{ s.context with failures := s.context.failures ++ Failure.flattenAll fs }, s.calls⟩, ?_, ⟨rfl, rfl, rfl⟩, rfl⟩
  rw [collectAll, outcome_ofContext, Context.collectAll_of_collecting fs h]

theorem records_collect (h : s.context.options.Collecting) (f : Failure) : ∃ t, Records (collect f) s () f.flatten t := by
  rw [collect_eq_collectAll, ← List.append_nil f.flatten]
  exact records_collectAll h [f]

/-- A single failure of a place is recorded, and the run goes on with a value. -/
theorem records_collect_at (failure : Route → Failure) {place : Parse Route} {value : ParseState → Route}
    (hplace : Passes value place) (hsingle : ∀ r, (failure r).flatten = [failure r])
    (h : s.context.options.Collecting) (a : α) :
    ∃ t, Records (do collect (failure (← place)); pure a) s a [failure (value s)] t := by
  obtain ⟨t, hstep⟩ := records_of_passes hplace s
  obtain ⟨u, hcollect⟩ := records_collect (hstep.place.options ▸ h) (failure (value s))
  rw [hsingle] at hcollect
  exact ⟨u, hstep.bind (hcollect.bind (records_pure a u))⟩

/-- At the root a run ends with what it gives, or with all failures that it has recorded. -/
theorem atRoot_concluded_of_records {o : Options} {calls : Calls} (h : Records p ⟨.root o, calls⟩ a fs t) :
    (atRoot o calls p.concluded).1 = if fs = [] then .ok (a, t.context.warnings) else .error (.together fs) := by
  have hfailures : t.context.failures = fs := h.failures
  have hcaught : (tryCatch p raised).outcome ⟨.root o, calls⟩ = (.ok a, t) := by rw [outcome_tryCatch, h.outcome]
  unfold atRoot concluded
  rw [outcome_bind_of_ok hcaught]
  by_cases hnone : fs = []
  · rw [outcome_bind_of_ok (outcome_finish_of_clean (hfailures.trans hnone)), if_pos hnone]
    rfl
  · rw [outcome_bind_of_error (outcome_finish_of_failures (hfailures ▸ hnone)), if_neg hnone, hfailures]

/-- At the root a run that fails with no failure on record ends with what it raised. -/
theorem atRoot_concluded_of_error {o : Options} {calls : Calls} {f : Failure}
    (h : p.outcome ⟨.root o, calls⟩ = (.error f, t)) (hclean : t.context.failures = []) :
    (atRoot o calls p.concluded).1 = .error f := by
  have hcaught : (tryCatch p raised).outcome ⟨.root o, calls⟩ = (.error f, t) := by
    rw [outcome_tryCatch, h]
    simp [raised, outcome_ofContext, hclean]
  rw [atRoot, concluded, outcome_bind_of_error hcaught]

end Parse

/-! ### Values under a policy -/

namespace Reading

open Parse

variable {r : Reading} {v : Value} {item : RouteItem} {s : ParseState} {child : Context}

/-- What a policy makes of a value that is read in a child, and the failures that it records. -/
inductive Judged (r : Reading) (v : Value) (child : Context) (calls : Calls) (policy : ErrorPolicy) :
    Outcome → List Failure → Prop
  | parsed {w : Value} {t : ParseState} : Accepts (r.read v) ⟨child, calls⟩ w t → Judged r v child calls policy (.parsed w) []
  | preserved : (∀ w t, ¬ Accepts (r.read v) ⟨child, calls⟩ w t) → policy = .preserve →
    Judged r v child calls policy (.preserved v) []
  | excluded : (∀ w t, ¬ Accepts (r.read v) ⟨child, calls⟩ w t) → policy = .exclude →
    Judged r v child calls policy .excluded []
  | collected {fs : List Failure} : (∀ w t, ¬ Accepts (r.read v) ⟨child, calls⟩ w t) → policy = .throw → fs ≠ [] →
    (∀ g ∈ fs, ∃ route, g.route? = some route ∧ child.route <+: route) → Judged r v child calls policy .collected fs

/-- A value is read one step further without ending the run, whatever is found in it. -/
theorem records_guarded (policy : ErrorPolicy) (hread : Sound (r.read v))
    (hsettled : Settled (child.route <+: ·) (fun _ => True) child ((r.read v).outcome ⟨child, s.calls⟩))
    (hchild : s.context.enter item = .ok child) (ho : s.context.options.Collecting) :
    ∃ outcome fs t, Records (r.guarded v item policy) s outcome fs t ∧ Judged r v child s.calls policy outcome fs := by
  generalize hu : (⟨s.context, ((r.read v).outcome ⟨child, s.calls⟩).2.calls⟩ : ParseState) = u
  have hou : u.context.options.Collecting := hu ▸ ho
  have henter : Records (enter item) s child [] s := ⟨outcome_enter hchild, .refl _, (List.append_nil _).symm⟩
  have hattempt : Records (attempt child (r.read v)) s (Parse.attempted ((r.read v).outcome ⟨child, s.calls⟩)) [] u := by
    rw [← hu]
    exact ⟨outcome_attempt child (r.read v) s, .refl _, (List.append_nil _).symm⟩
  rcases attempted_cases hread (Context.solid_of_clean (clean_of_enter hchild)) s.calls with
    ⟨w, t, haccepts, -, heq⟩ | ⟨hrefused, fs, d, heq, hne, hsolid, -⟩
  · rw [heq] at hattempt
    obtain ⟨t', habsorb⟩ := records_of_passes (passes_absorb haccepts.2) u
    exact ⟨_, _, t', henter.bind (hattempt.bind (habsorb.bind (records_pure _ t'))), .parsed haccepts⟩
  · rw [heq] at hattempt
    cases policy with
    | exclude =>
      obtain ⟨t, hwarn⟩ := records_of_passes (passes_takeWarnings _) u
      exact ⟨_, _, t, henter.bind (hattempt.bind (hwarn.bind (records_pure _ t))), .excluded hrefused rfl⟩
    | preserve =>
      obtain ⟨t, hwarn⟩ := records_of_passes (passes_takeWarnings _) u
      exact ⟨_, _, t, henter.bind (hattempt.bind (hwarn.bind (records_pure _ t))), .preserved hrefused rfl⟩
    | throw =>
      obtain ⟨t, hwarn⟩ := records_of_passes (passes_takeWarnings d) u
      obtain ⟨t', hcollect⟩ := records_collectAll (hwarn.place.options ▸ hou) fs
      refine ⟨_, _, t', henter.bind (hattempt.bind (hwarn.bind (hcollect.bind (records_pure _ t')))), ?_⟩
      simp only [List.nil_append, List.append_nil]
      refine .collected hrefused rfl (Failure.flattenAll_ne_nil hne hsolid) fun g hg => ?_
      have htested := hsettled.tested (H := .beyond child.route) (List.prefix_refl _)
      exact (htested.failures fs (congrArg Prod.fst heq)).exists_route hg

end Reading

end Conform

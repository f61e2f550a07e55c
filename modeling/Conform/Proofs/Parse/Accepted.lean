import Conform.Proofs.Coupling.Sound
import Conform.Proofs.Parse.Place

/-! Accepted steps. A run that begins without a record of a failure and is accepted has taken each of its steps
    without one: nothing was collected on the way, and each value under a policy was read, preserved or
    left out. -/

namespace Conform

namespace Parse

variable {α β : Type} {p : Parse α} {k : α → Parse β} {s u : ParseState} {a : α} {b : β}

/-- A parse whose runs are sound, whatever they give. -/
abbrev Sound (p : Parse α) : Prop := Behaves (fun _ => True) p

theorem Behaves.toSound {P : α → Prop} (h : Behaves P p) : Sound p := h.mono fun _ _ => trivial

theorem Sound.bind (h : Sound p) (hk : ∀ a, Sound (k a)) : Sound (p >>= k) := Behaves.bind h fun a _ => hk a

theorem Sound.of_passes {value : ParseState → α} (h : Passes value p) : Sound p := Behaves.of_passes h fun _ => trivial

/-! ### Sequences -/

theorem Sound.at (h : Sound p) (hs : s.context.failures = []) (haccepts : Accepts p s a u) : s.context.At u.context := by
  have hsound := h s (Context.solid_of_clean hs)
  rw [haccepts.1] at hsound
  have hleads := hsound.leads
  exact ⟨hleads.options.symm, hleads.route.symm, hleads.depth.symm⟩

/-- A sequence is accepted through a state without a record of a failure, at the same place. -/
theorem accepts_seq (hp : Sound p) (hk : ∀ a, Sound (k a)) (hs : s.context.failures = []) :
    Accepts (p >>= k) s b u ↔ ∃ a t, Accepts p s a t ∧ s.context.At t.context ∧ Accepts (k a) t b u := by
  rw [accepts_bind hp (fun a _ => hk a) (Context.solid_of_clean hs)]
  constructor
  · rintro ⟨a, t, ha, -, -, hb⟩
    exact ⟨a, t, ha, hp.at hs ha, hb⟩
  · rintro ⟨a, t, ha, hplace, hb⟩
    exact ⟨a, t, ha, trivial, ⟨hplace.options.symm, hplace.route.symm, hplace.depth.symm,
      fun _ => Context.solid_of_clean ha.2⟩, hb⟩

theorem accepts_options {k : Options → Parse β} :
    Accepts (options >>= k) s b u ↔ Accepts (k s.context.options) s b u := by
  rw [Accepts, outcome_bind_of_ok (outcome_options s), Accepts]

theorem accepts_pure {a' : α} (hs : s.context.failures = []) : Accepts (pure a) s a' u ↔ a' = a ∧ u = s := by
  constructor
  · rintro ⟨hok, -⟩
    cases hok
    exact ⟨rfl, rfl⟩
  · rintro ⟨rfl, rfl⟩
    exact ⟨rfl, hs⟩

/-- A step that cannot fail, and what follows it. -/
theorem accepts_passes {value : ParseState → α} (hp : Passes value p) :
    ∃ ws calls, ∀ b u, Accepts (p >>= k) s b u ↔
      Accepts (k (value s)) ⟨{ s.context with warnings := ws }, calls⟩ b u := by
  obtain ⟨ws, calls, hstep⟩ := hp s
  refine ⟨ws, calls, fun b u => ?_⟩
  rw [Accepts, outcome_bind_of_ok hstep, Accepts]

/-! ### Failures -/

theorem sound_collect {f : Failure} (hf : f.Solid) : Sound (collect f) := by
  rw [collect_eq_collectAll]
  exact .collectAll (List.forall_mem_singleton.mpr hf)

/-- What is collected is never accepted, whatever follows. -/
theorem not_accepts_collectAll {fs : List Failure} {k : Unit → Parse β} (hk : ∀ x, Sound (k x)) (hne : fs ≠ [])
    (hfs : ∀ f ∈ fs, f.Solid) (hs : s.context.failures = []) : ¬ Accepts (collectAll fs >>= k) s b u := by
  intro haccepts
  have hsolid := Context.solid_of_clean hs
  obtain ⟨_, t, ⟨hok, hclean⟩, -, -⟩ := (accepts_seq (Behaves.collectAll hfs) hk hs).mp haccepts
  rw [collectAll, outcome_ofContext] at hok
  have hdirty := (Context.sound_collectAll fs hsolid hfs).2 hne (congrArg Prod.fst hok)
  exact hdirty ((congrArg (fun x => x.2.context.failures) hok).trans hclean)

theorem not_accepts_collect {f : Failure} {k : Unit → Parse β} (hk : ∀ x, Sound (k x)) (hf : f.Solid)
    (hs : s.context.failures = []) : ¬ Accepts (collect f >>= k) s b u := by
  rw [collect_eq_collectAll]
  exact not_accepts_collectAll hk (List.cons_ne_nil f []) (List.forall_mem_singleton.mpr hf) hs

/-- A failure that is collected where the parse stands. -/
theorem not_accepts_collect_at {place : Parse Route} {value : ParseState → Route} {f : Route → Failure}
    {k : Unit → Parse β} (hplace : Passes value place) (hk : ∀ x, Sound (k x)) (hf : ∀ r, (f r).Solid)
    (hs : s.context.failures = []) : ¬ Accepts (place >>= fun r => collect (f r) >>= k) s b u := by
  obtain ⟨ws, calls, hstep⟩ := accepts_passes (s := s) (k := fun r => collect (f r) >>= k) hplace
  rw [hstep]
  exact not_accepts_collect hk (hf _) hs

theorem passes_fieldRoute (f : Field) :
    Passes (fun s => s.context.route ++ [.key f.name]) (Schema.fieldRoute f) := fun s => ⟨s.context.warnings, s.calls, rfl⟩

end Parse

/-! ### Values under a policy -/

namespace Reading

open Parse

variable {r : Reading} {v : Value} {item : RouteItem} {policy : ErrorPolicy} {s u : ParseState} {outcome : Outcome}

/-- What is accepted under a policy: a value that is read one step further, or what the policy makes of one that is not. -/
inductive Admitted (r : Reading) (v : Value) (item : RouteItem) (policy : ErrorPolicy) (s : ParseState) : Outcome → Prop
  | parsed {child : Context} {w : Value} {t : ParseState} :
    s.context.enter item = .ok child → Accepts (r.read v) ⟨child, s.calls⟩ w t → Admitted r v item policy s (.parsed w)
  | preserved : policy = .preserve → Admitted r v item policy s (.preserved v)
  | excluded : policy = .exclude → Admitted r v item policy s .excluded

theorem clean_of_enter {c child : Context} (h : c.enter item = .ok child) : child.failures = [] := by
  unfold Context.enter at h
  simp only at h
  split at h
  · cases h
  · cases h
    rfl

theorem outcome_enter {child : Context} (h : s.context.enter item = .ok child) : (enter item).outcome s = (.ok child, s) := by
  rw [enter, outcome_ofContext, h]

theorem admitted_of_accepts (hr : Sound (r.read v)) (hs : s.context.failures = [])
    (h : Accepts (r.guarded v item policy) s outcome u) : Admitted r v item policy s outcome := by
  obtain ⟨hok, hclean⟩ := h
  obtain ⟨child, t, henter, hrest⟩ := outcome_bind_eq_ok hok
  cases hchild : s.context.enter item with
  | error f =>
    rw [enter, outcome_ofContext, hchild] at henter
    cases henter
  | ok d =>
    cases henter.symm.trans (outcome_enter hchild)
    rw [outcome_bind_of_ok (outcome_attempt child (r.read v) s)] at hrest
    have hchildClean := clean_of_enter hchild
    rcases attempted_cases hr (Context.solid_of_clean hchildClean) s.calls with
      ⟨w, t', haccepts, -, heq⟩ | ⟨-, fs, d, heq, hne, hsolid, -⟩
    · rw [heq] at hrest
      obtain ⟨_, _, -, hlast⟩ := outcome_bind_eq_ok hrest
      cases hlast
      exact .parsed hchild haccepts
    · rw [heq] at hrest
      cases policy with
      | exclude =>
        obtain ⟨_, _, -, hlast⟩ := outcome_bind_eq_ok hrest
        cases hlast
        exact .excluded rfl
      | preserve =>
        obtain ⟨_, _, -, hlast⟩ := outcome_bind_eq_ok hrest
        cases hlast
        exact .preserved rfl
      -- Here the failures are collected again, so nothing would be accepted.
      | throw =>
        refine absurd (⟨hrest, hclean⟩ : Accepts _ _ outcome u) ?_
        intro haccepts
        obtain ⟨ws, calls, hstep⟩ := accepts_passes
          (s := ⟨s.context, ((r.read v).outcome ⟨child, s.calls⟩).2.calls⟩)
          (k := fun _ => collectAll fs >>= fun _ => pure Outcome.collected) (passes_takeWarnings d)
        refine not_accepts_collectAll (s := ⟨{ s.context with warnings := ws }, calls⟩) (k := fun _ => pure Outcome.collected)
          (fun _ => .pure trivial) hne hsolid hs ((hstep _ _).mp haccepts)

/-- A value that is read one step further is given, whatever the policy, and only warnings are taken over. -/
theorem outcome_guarded {child : Context} {w : Value} {t : ParseState} (hchild : s.context.enter item = .ok child)
    (h : Accepts (r.read v) ⟨child, s.calls⟩ w t) :
    (r.guarded v item policy).outcome s = (.ok (.parsed w), ⟨s.context.takeWarnings t.context, t.calls⟩) := by
  have heq : Parse.attempted ((r.read v).outcome ⟨child, s.calls⟩) = (.ok w, t.context) := by
    rw [h.1]
    simp only [Parse.attempted, h.2, List.isEmpty_nil, if_true]
  unfold guarded
  rw [outcome_bind_of_ok (outcome_enter hchild), outcome_bind_of_ok (outcome_attempt child (r.read v) s), heq, h.1]
  have habsorb : (absorb t.context).outcome ⟨s.context, t.calls⟩ = (.ok (), ⟨s.context.takeWarnings t.context, t.calls⟩) := by
    rw [absorb, outcome_ofContext, Context.absorb_of_clean h.2]
  exact outcome_bind_of_ok habsorb

theorem accepts_guarded {child : Context} {w : Value} {t : ParseState} (hs : s.context.failures = [])
    (hchild : s.context.enter item = .ok child) (h : Accepts (r.read v) ⟨child, s.calls⟩ w t) :
    ∃ u, Accepts (r.guarded v item policy) s (.parsed w) u ∧ s.context.At u.context :=
  ⟨_, ⟨outcome_guarded hchild h, hs⟩, ⟨rfl, rfl, rfl⟩⟩

end Reading

end Conform

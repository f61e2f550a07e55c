import Conform.Proofs.Coupling.Schema
import Conform.Proofs.Failure

/-! Single runs. A run stays at its place, and what it fails with or records is solid. A run that has recorded a
    failure keeps a record of it for as long as it goes on, so a run that gives a value and has recorded
    nothing by then has accepted at every step before. This holds of whatever is read by a rule or a
    schema. -/

namespace Conform

/-! ### Single runs -/

namespace Context

/-- The failures that were recorded are all solid. -/
def Solid (c : Context) : Prop := ∀ f ∈ c.failures, f.Solid

/-- What a run leaves of the context in which it began. -/
structure Leads (c d : Context) : Prop where
  options : d.options = c.options
  route : d.route = c.route
  depth : d.depth = c.depth
  solid : c.Solid → d.Solid

/-- A run stays at its place, keeps a record of what it has recorded for as long as it does not fail, and fails
    with something solid. -/
inductive Sound {α : Type} (P : α → Prop) (c : Context) : Except Failure α → Context → Prop
  | ok {a : α} {d : Context} : c.Leads d → (c.failures ≠ [] → d.failures ≠ []) → P a → Sound P c (.ok a) d
  | error {f : Failure} {d : Context} : c.Leads d → f.Solid → Sound P c (.error f) d

variable {α : Type} {P : α → Prop} {c d e : Context} {f : Failure} {fs : List Failure}

theorem Leads.refl (c : Context) : c.Leads c := ⟨rfl, rfl, rfl, id⟩

theorem Leads.trans (h : c.Leads d) (h' : d.Leads e) : c.Leads e :=
  ⟨h'.options.trans h.options, h'.route.trans h.route, h'.depth.trans h.depth, fun hc => h'.solid (h.solid hc)⟩

theorem Sound.leads {x : Except Failure α} (h : Sound P c x d) : c.Leads d := by
  cases h with
  | ok hleads => exact hleads
  | error hleads => exact hleads

theorem solid_of_clean (h : c.failures = []) : c.Solid := by
  intro f hf
  rw [h] at hf
  cases hf

/-- A failure that is collected is recorded or ends the run. -/
theorem sound_collect (hc : c.Solid) (hf : f.Solid) :
    Sound (fun _ => True) c (c.collect f).1 (c.collect f).2 ∧
      ((c.collect f).1 = .ok () → (c.collect f).2.failures ≠ []) := by
  have hne : c.failures ++ f.flatten ≠ [] := List.append_ne_nil_of_right_ne_nil _ hf
  have hall : ∀ g ∈ c.failures ++ f.flatten, g.Solid := by
    intro g hg
    rcases List.mem_append.mp hg with hg | hg
    · exact hc g hg
    · exact Failure.solid_of_mem_flatten hg
  unfold collect
  split
  · exact ⟨.error (.refl c) hf, fun h => nomatch h⟩
  simp only
  split
  · refine ⟨.error ⟨rfl, rfl, rfl, fun _ => solid_of_clean rfl⟩ ?_, fun h => nomatch h⟩
    simpa only [raise, Option.toList_none, List.append_nil] using Failure.solid_together hne hall
  · exact ⟨.ok ⟨rfl, rfl, rfl, fun _ => hall⟩ (fun _ => hne) trivial, fun _ => hne⟩

/-- Failures that are collected are recorded or end the run, unless there are none. -/
theorem sound_collectAll (fs : List Failure) : ∀ {c : Context}, c.Solid → (∀ f ∈ fs, f.Solid) →
    Sound (fun _ => True) c (c.collectAll fs).1 (c.collectAll fs).2 ∧
      (fs ≠ [] → (c.collectAll fs).1 = .ok () → (c.collectAll fs).2.failures ≠ []) := by
  induction fs with
  | nil => exact fun _ _ => ⟨.ok (.refl _) id trivial, fun h => absurd rfl h⟩
  | cons f rest ih =>
    intro c hc hfs
    obtain ⟨hf, hrest⟩ := List.forall_mem_cons.mp hfs
    obtain ⟨hsound, hdirty⟩ := sound_collect hc hf
    unfold collectAll
    rcases hcollect : c.collect f with ⟨g | _, d⟩ <;> rw [hcollect] at hsound hdirty
    · cases hsound with
      | error hleads hg => exact ⟨.error hleads hg, fun _ h => by cases h⟩
    · obtain ⟨hsound', -⟩ := ih (hsound.leads.solid hc) hrest
      simp only
      generalize (d.collectAll rest).1 = x at hsound' ⊢
      generalize (d.collectAll rest).2 = e at hsound' ⊢
      cases hsound' with
      | ok hleads hkept =>
        exact ⟨.ok (hsound.leads.trans hleads) (fun _ => hkept (hdirty rfl)) trivial, fun _ _ => hkept (hdirty rfl)⟩
      | error hleads hg => exact ⟨.error (hsound.leads.trans hleads) hg, fun _ h => by cases h⟩

/-- What a child has found is taken over, or ends the run. -/
theorem sound_absorb (hc : c.Solid) (hd : d.Solid) :
    Sound (fun _ => True) c (c.absorb d).1 (c.absorb d).2 ∧
      (d.failures ≠ [] → (c.absorb d).1 = .ok () → (c.absorb d).2.failures ≠ []) := by
  obtain ⟨hsound, hdirty⟩ := sound_collectAll d.failures (c := c.takeWarnings d) hc hd
  refine ⟨?_, hdirty⟩
  unfold absorb
  generalize ((c.takeWarnings d).collectAll d.failures).1 = x at hsound ⊢
  generalize ((c.takeWarnings d).collectAll d.failures).2 = e at hsound ⊢
  have hwarned : c.Leads (c.takeWarnings d) := ⟨rfl, rfl, rfl, id⟩
  cases hsound with
  | ok hleads hkept => exact .ok (hwarned.trans hleads) hkept trivial
  | error hleads hf => exact .error (hwarned.trans hleads) hf

theorem absorb_of_clean (h : d.failures = []) : c.absorb d = (.ok (), c.takeWarnings d) := by
  rw [absorb, h, collectAll]

end Context

namespace Parse

variable {α β γ δ : Type} {P : α → Prop} {Q : β → Prop} {p : Parse α} {q : Parse β} {c d : Context}

/-- A parse whose runs are sound, with values that have a property. -/
def Behaves (P : α → Prop) (p : Parse α) : Prop :=
  ∀ s : ParseState, s.context.Solid → s.context.Sound P (p.outcome s).1 (p.outcome s).2.context

theorem Behaves.mono {P' : α → Prop} (h : Behaves P p) (himp : ∀ a, P a → P' a) : Behaves P' p := by
  intro s hs
  have hp := h s hs
  generalize (p.outcome s).1 = x at hp ⊢
  cases hp with
  | ok hleads hkept ha => exact .ok hleads hkept (himp _ ha)
  | error hleads hf => exact .error hleads hf

/-- A run that gives a value and ends without a record of a failure. -/
def Accepts (p : Parse α) (s : ParseState) (a : α) (t : ParseState) : Prop :=
  p.outcome s = (.ok a, t) ∧ t.context.failures = []

theorem Behaves.pure {a : α} (h : P a) : Behaves P (pure a) := fun _ _ => .ok (.refl _) id h

theorem Behaves.throw {f : Failure} (h : f.Solid) : Behaves P (throw f) := fun _ _ => .error (.refl _) h

theorem Behaves.bind {k : α → Parse β} (h : Behaves P p) (hk : ∀ a, P a → Behaves Q (k a)) :
    Behaves Q (p >>= k) := by
  intro s hs
  have hp := h s hs
  rw [outcome_bind]
  generalize p.outcome s = x at hp ⊢
  obtain ⟨x, t⟩ := x
  cases hp with
  | @ok a _ hleads hkept ha =>
    have hka := hk a ha t (hleads.solid hs)
    simp only
    generalize (k a).outcome t = y at hka ⊢
    obtain ⟨y, u⟩ := y
    cases hka with
    | ok hleads' hkept' hb => exact .ok (hleads.trans hleads') (fun hne => hkept' (hkept hne)) hb
    | error hleads' hf => exact .error (hleads.trans hleads') hf
  | error hleads hf => exact .error hleads hf

theorem Behaves.collectAll {fs : List Failure} (h : ∀ f ∈ fs, f.Solid) : Behaves (fun _ => True) (collectAll fs) :=
  fun _ hs => (Context.sound_collectAll fs hs h).1

theorem Behaves.absorb (h : d.Solid) : Behaves (fun _ => True) (absorb d) := fun _ hs => (Context.sound_absorb hs h).1

/-- An attempt gives a value where the parse accepts, and failures, of which there are some, anywhere else. -/
theorem attempted_cases (h : Behaves P p) (hc : c.Solid) (calls : Calls) :
    (∃ a t, Accepts p ⟨c, calls⟩ a t ∧ P a ∧ attempted (p.outcome ⟨c, calls⟩) = (.ok a, t.context)) ∨
      (∀ a t, ¬ Accepts p ⟨c, calls⟩ a t) ∧ ∃ fs d, attempted (p.outcome ⟨c, calls⟩) = (.error fs, d) ∧ fs ≠ [] ∧
        (∀ f ∈ fs, f.Solid) ∧ d.failures = [] := by
  have hp := h ⟨c, calls⟩ hc
  unfold Accepts
  generalize p.outcome ⟨c, calls⟩ = x at hp ⊢
  obtain ⟨x, t⟩ := x
  cases hp with
  | @ok a _ hleads _ ha =>
    by_cases hclean : t.context.failures = []
    · refine .inl ⟨a, t, ⟨rfl, hclean⟩, ha, ?_⟩
      simp only [attempted, hclean, List.isEmpty_nil, if_true]
    · refine .inr ⟨?_, t.context.failures, { t.context with failures := [] }, ?_, hclean, hleads.solid hc, rfl⟩
      · rintro _ _ ⟨heq, hclean'⟩
        cases heq
        exact hclean hclean'
      · simp only [attempted, List.isEmpty_iff, if_neg hclean]
  | @error f _ hleads hf =>
    refine .inr ⟨?_, t.context.failures ++ [f], { t.context with failures := [] }, rfl, ?_, ?_, rfl⟩
    · rintro _ _ ⟨heq, -⟩
      cases heq
    · exact List.append_ne_nil_of_right_ne_nil _ (List.cons_ne_nil f [])
    · intro g hg
      rcases List.mem_append.mp hg with hg | hg
      · exact hleads.solid hc g hg
      · obtain rfl := List.mem_singleton.mp hg
        exact hf

/-- The failures of two runs at the same point: solid ones, on both sides or on neither. -/
structure Balanced (fs gs : List Failure) : Prop where
  left : ∀ f ∈ fs, f.Solid
  right : ∀ g ∈ gs, g.Solid
  nil_iff : fs = [] ↔ gs = []

theorem Balanced.nil : Balanced [] [] := ⟨List.forall_mem_nil _, List.forall_mem_nil _, Iff.rfl⟩

theorem Balanced.single {f g : Failure} (hf : f.Solid) (hg : g.Solid) : Balanced [f] [g] :=
  ⟨List.forall_mem_singleton.mpr hf, List.forall_mem_singleton.mpr hg, by simp⟩

theorem Balanced.append {fs gs fs' gs' : List Failure} (h : Balanced fs gs) (h' : Balanced fs' gs') :
    Balanced (fs ++ fs') (gs ++ gs') := by
  refine ⟨List.forall_mem_append.mpr ⟨h.left, h'.left⟩, List.forall_mem_append.mpr ⟨h.right, h'.right⟩, ?_⟩
  rw [List.append_eq_nil_iff, List.append_eq_nil_iff, h.nil_iff, h'.nil_iff]

theorem Balanced.symm {fs gs : List Failure} (h : Balanced fs gs) : Balanced gs fs := ⟨h.right, h.left, h.nil_iff.symm⟩

/-- Two attempts with related values or with failures on both sides, none of which is left in the context. -/
abbrev SameTried (R : α → β → Prop) : Except (List Failure) α × Context → Except (List Failure) β × Context → Prop :=
  Tried Balanced (fun c d => c.failures = [] ∧ d.failures = []) R

theorem SameTried.symm {R : α → β → Prop} {x : Except (List Failure) α × Context} {y : Except (List Failure) β × Context}
    (h : SameTried (fun b a => R a b) y x) : SameTried R x y := by
  cases h with
  | ok hab hclean => exact .ok hab hclean.symm
  | error hfails hne hne' hclean => exact .error hfails.symm hne' hne hclean.symm

theorem Behaves.attempt {R : α → β → Prop} (hc : c.Solid) (h : Behaves (fun a => ∃ b, R a b) p) :
    Behaves (fun x => ∃ y, SameTried R x y) (attempt c p) := by
  intro s _
  rw [outcome_attempt]
  refine .ok (.refl _) id ?_
  rcases attempted_cases h hc s.calls with ⟨a, t, ⟨-, hclean⟩, ⟨b, hab⟩, heq⟩ | ⟨-, fs, d, heq, hne, hfs, hclean⟩
  · exact ⟨(.ok b, t.context), heq ▸ .ok hab ⟨hclean, hclean⟩⟩
  · exact ⟨(.error fs, d), heq ▸ .error ⟨hfs, hfs, Iff.rfl⟩ hne hne ⟨hclean, hclean⟩⟩

theorem Behaves.descend (hc : c.Solid) (h : Behaves P p) : Behaves P (p.descend c) := by
  intro s hs
  have hp := h ⟨c, s.calls⟩ hc
  unfold Parse.descend
  rw [outcome_bind_of_ok (outcome_within c p s)]
  generalize p.outcome ⟨c, s.calls⟩ = x at hp ⊢
  obtain ⟨x, t⟩ := x
  cases hp with
  | ok hleads _ ha => exact (Behaves.absorb (hleads.solid hc)).bind (fun _ _ => .pure ha) ⟨s.context, t.calls⟩ hs
  | error hleads hf => exact (Behaves.absorb (hleads.solid hc)).bind (fun _ _ => .throw hf) ⟨s.context, t.calls⟩ hs

/-- A failure that is collected in place of the value is recorded, so nothing is lost. -/
theorem Behaves.recover {a : α} (ha : P a) (h : Behaves P p) : Behaves P (p.recover a) := by
  intro s hs
  have hp := h s hs
  unfold Parse.recover
  rw [outcome_tryCatch]
  generalize p.outcome s = x at hp ⊢
  obtain ⟨x, t⟩ := x
  cases hp with
  | ok hleads hkept hb => exact .ok hleads hkept hb
  | @error f _ hleads hf =>
    obtain ⟨hsound, hdirty⟩ := Context.sound_collect (hleads.solid hs) hf
    simp only [outcome_bind, collect, outcome_ofContext]
    generalize t.context.collect f = y at hsound hdirty ⊢
    obtain ⟨y, d⟩ := y
    cases hsound with
    | ok hleads' => exact .ok (hleads.trans hleads') (fun _ => hdirty rfl) ha
    | error hleads' hg => exact .error (hleads.trans hleads') hg

/-! ### Steps that cannot fail -/

/-- A step that gives a value read off the state, and changes warnings and calls at most. -/
def Passes (value : ParseState → α) (p : Parse α) : Prop :=
  ∀ s, ∃ ws calls, p.outcome s = (.ok (value s), ⟨{ s.context with warnings := ws }, calls⟩)

theorem Behaves.of_passes {value : ParseState → α} (h : Passes value p) (hvalue : ∀ s, P (value s)) : Behaves P p := by
  intro s _
  obtain ⟨ws, calls, hs⟩ := h s
  rw [hs]
  exact .ok ⟨rfl, rfl, rfl, id⟩ id (hvalue s)

theorem passes_context : Passes ParseState.context context := fun s => ⟨s.context.warnings, s.calls, rfl⟩

theorem passes_options : Passes (fun s => s.context.options) options := fun s => ⟨s.context.warnings, s.calls, rfl⟩

theorem passes_route : Passes (fun s => s.context.route) route := fun s => ⟨s.context.warnings, s.calls, rfl⟩

theorem passes_called (draw : Calls → α × Calls) : Passes (fun s => (draw s.calls).1) (Schema.called draw) :=
  fun s => ⟨s.context.warnings, (draw s.calls).2, rfl⟩

theorem passes_ofContext {d : Context → Context} (h : ∀ c, ∃ ws, d c = { c with warnings := ws }) :
    Passes (fun _ => ()) (ofContext fun c => (.ok (), d c)) := by
  intro s
  obtain ⟨ws, hd⟩ := h s.context
  refine ⟨ws, s.calls, ?_⟩
  rw [outcome_ofContext, hd]

theorem passes_warn (message : String) : Passes (fun _ => ()) (warn message) := passes_ofContext fun _ => ⟨_, rfl⟩

theorem passes_takeWarnings (c : Context) : Passes (fun _ => ()) (takeWarnings c) := passes_ofContext fun _ => ⟨_, rfl⟩

theorem passes_absorb (h : c.failures = []) : Passes (fun _ => ()) (absorb c) := by
  have heq : absorb c = takeWarnings c := by
    rw [absorb, takeWarnings]
    exact congrArg ofContext (funext fun _ => Context.absorb_of_clean h)
  rw [heq]
  exact passes_takeWarnings c

/-! ### Acceptance -/

theorem not_accepts_throw {f : Failure} {s t : ParseState} {a : α} : ¬ Accepts (throw f) s a t := fun h => nomatch h.1

/-- Success of a sequence is success of both parts. -/
theorem accepts_bind {k : α → Parse β} {s u : ParseState} {b : β} (h : Behaves P p)
    (hk : ∀ a, P a → Behaves Q (k a)) (hs : s.context.Solid) :
    Accepts (p >>= k) s b u ↔ ∃ a t, Accepts p s a t ∧ P a ∧ s.context.Leads t.context ∧ Accepts (k a) t b u := by
  constructor
  · rintro ⟨hbind, hclean⟩
    obtain ⟨a, t, hp, hka⟩ := outcome_bind_eq_ok hbind
    have hsound := h s hs
    rw [hp] at hsound
    cases hsound with
    | ok hleads _ ha =>
      have hsound' := hk a ha t (hleads.solid hs)
      rw [hka] at hsound'
      cases hsound' with
      | ok _ hkept _ =>
        have ht : t.context.failures = [] := by
          by_contra hne
          exact hkept hne hclean
        exact ⟨a, t, ⟨hp, ht⟩, ha, hleads, hka, hclean⟩
  · rintro ⟨a, t, ⟨hp, -⟩, -, -, hka, hclean⟩
    exact ⟨(outcome_bind_of_ok hp).trans hka, hclean⟩

/-- What is accepted in a child is accepted by the child's own run. -/
theorem accepts_of_descend {s t : ParseState} {a : α} (h : Behaves P p) (hc : c.Solid) (hs : s.context.failures = [])
    (haccepts : Accepts (p.descend c) s a t) : ∃ u, Accepts p ⟨c, s.calls⟩ a u := by
  have hp := h ⟨c, s.calls⟩ hc
  unfold Accepts Parse.descend at haccepts
  rw [outcome_bind_of_ok (outcome_within c p s)] at haccepts
  unfold Accepts
  generalize p.outcome ⟨c, s.calls⟩ = x at hp haccepts ⊢
  obtain ⟨x, u⟩ := x
  obtain ⟨hresult, hclean⟩ := haccepts
  obtain ⟨_, v, habsorb, hrest⟩ := outcome_bind_eq_ok hresult
  cases hp with
  | @ok a' _ hleads =>
    cases hrest
    refine ⟨u, rfl, ?_⟩
    by_contra hne
    refine (Context.sound_absorb (Context.solid_of_clean hs) (hleads.solid hc)).2 hne ?_ ?_
    · exact congrArg Prod.fst habsorb
    · exact (congrArg (fun x => x.2.context.failures) habsorb).trans hclean
  | error => cases hrest

theorem accepts_descend {s u : ParseState} {a : α} (hs : s.context.failures = []) (h : Accepts p ⟨c, s.calls⟩ a u) :
    ∃ t, Accepts (p.descend c) s a t := by
  obtain ⟨hresult, hclean⟩ := h
  have habsorb : (Parse.absorb u.context).outcome ⟨s.context, u.calls⟩ =
      (.ok (), ⟨s.context.takeWarnings u.context, u.calls⟩) := by
    rw [Parse.absorb, outcome_ofContext, Context.absorb_of_clean hclean]
  refine ⟨⟨s.context.takeWarnings u.context, u.calls⟩, ?_, hs⟩
  unfold Parse.descend
  rw [outcome_bind_of_ok (outcome_within c p s), hresult]
  exact outcome_bind_of_ok habsorb

/-- A failure that is collected in place of a value is not accepted. -/
theorem accepts_of_recover {s t : ParseState} {a b : α} (h : Behaves P p) (hs : s.context.Solid)
    (haccepts : Accepts (p.recover a) s b t) : Accepts p s b t := by
  have hsound := h s hs
  unfold Accepts Parse.recover at haccepts
  rw [outcome_tryCatch] at haccepts
  unfold Accepts
  generalize p.outcome s = x at hsound haccepts ⊢
  obtain ⟨x, u⟩ := x
  cases hsound with
  | ok => exact haccepts
  | @error f _ hleads hf =>
    obtain ⟨hresult, hclean⟩ := haccepts
    obtain ⟨_, v, hcollect, hrest⟩ := outcome_bind_eq_ok hresult
    cases hrest
    refine absurd ?_ ((Context.sound_collect (hleads.solid hs) hf).2 ?_)
    · exact (congrArg (fun x => x.2.context.failures) hcollect).trans hclean
    · exact congrArg Prod.fst hcollect

end Parse

/-! ### The coupling -/

namespace Coupling

open Parse

/-- Two parses with sound runs, each giving only values that the relation allows for. -/
structure BothSound {α β : Type} (R : α → β → Prop) (p : Parse α) (q : Parse β) : Prop where
  left : Behaves (fun a => ∃ b, R a b) p
  right : Behaves (fun b => ∃ a, R a b) q

theorem BothSound.of_passes {α : Type} {p : Parse α} {f : ParseState → α} (h : Passes f p) : BothSound Eq p p :=
  ⟨.of_passes h fun _ => ⟨_, rfl⟩, .of_passes h fun _ => ⟨_, rfl⟩⟩

/-- Each run by itself is sound; nothing is said of two runs together. -/
def sound : Coupling where
  Opts := Eq
  Fails := Balanced
  Left c d := c.failures = [] ∧ d.failures = []
  Steady _ := True
  Rel := BothSound
  opts_core h := by rw [h]
  opts_merge _ h := by rw [h]
  fails_nil := .nil
  fails_refl h := .single h h
  fails_append h h' := h.append h'
  fails_ofList h hfs hgs := .single (Failure.solid_ofList hfs h.left) (Failure.solid_ofList hgs h.right)
  fails_noneMatched r v _ := .single (Failure.solid_noneMatched r v _) (Failure.solid_noneMatched r v _)
  left_warn _ h _ := h
  rel_pure h := ⟨.pure ⟨_, h⟩, .pure ⟨_, h⟩⟩
  rel_bind h hk :=
    ⟨h.left.bind fun _ hab => hab.elim fun b hab => (hk _ b hab).left,
      h.right.bind fun _ hab => hab.elim fun a hab => (hk a _ hab).right⟩
  rel_throw h := ⟨.throw (List.forall_mem_singleton.mp h.left), .throw (List.forall_mem_singleton.mp h.right)⟩
  rel_context := ⟨.of_passes passes_context fun _ => ⟨_, rfl, rfl, rfl⟩, .of_passes passes_context fun _ => ⟨_, rfl, rfl, rfl⟩⟩
  rel_warn message := .of_passes (passes_warn message)
  rel_takeWarnings _ := ⟨.of_passes (passes_takeWarnings _) fun _ => ⟨_, rfl⟩, .of_passes (passes_takeWarnings _) fun _ => ⟨_, rfl⟩⟩
  rel_absorb h := ⟨.of_passes (passes_absorb h.1) fun _ => ⟨_, rfl⟩, .of_passes (passes_absorb h.2) fun _ => ⟨_, rfl⟩⟩
  rel_collectAll h :=
    ⟨(Behaves.collectAll h.left).mono fun _ _ => ⟨_, rfl⟩, (Behaves.collectAll h.right).mono fun _ _ => ⟨_, rfl⟩⟩
  rel_attempt hcd h :=
    ⟨.attempt (Context.solid_of_clean hcd.failures.1) h.left,
      (Behaves.attempt (Context.solid_of_clean hcd.failures.2) h.right).mono fun _ hy => hy.imp fun _ => SameTried.symm⟩
  rel_descend hcd h :=
    ⟨.descend (Context.solid_of_clean hcd.failures.1) h.left, .descend (Context.solid_of_clean hcd.failures.2) h.right⟩
  rel_recover hab h := ⟨.recover ⟨_, hab⟩ h.left, .recover ⟨_, hab⟩ h.right⟩
  rel_called _ := .of_passes (passes_called _)

theorem keepsPolicy_sound : sound.KeepsPolicy := fun _ _ h => congrArg Options.excessPolicy h

/-- Nothing is asked of a schema. -/
theorem suits_sound (s : Schema) : sound.Suits s where
  hits h _ _ := by cases h; rfl
  excess h _ := by cases h; rfl
  policy := keepsPolicy_sound
  steady _ _ _ _ := trivial

/-- What a catalog knows of its entities is read by sound runs. -/
theorem alike_sound (c : Catalog) (o : Options) : sound.AlikeEntities (c.entities o) (c.entities o) :=
  alike_entities (fun s _ => suits_sound s) rfl

end Coupling

end Conform

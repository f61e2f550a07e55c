import Conform.Proofs.Coupling.Sound

/-! Runs that accept the same. Under options that differ only in how failures are collected, one run may go on
    where the other ends, so their steps do not correspond. What corresponds is success: whenever one run
    gives a value and has recorded nothing by then, so does the other. -/

namespace Conform

namespace Parse

variable {α β γ δ : Type} {P : α → Prop} {Q : β → Prop} {p : Parse α} {q : Parse β} {c d : Context}

/-! ### Success -/

/-- Two states at one place without a record of a failure, under options that differ in how failures are
    collected. -/
structure Clean (s t : ParseState) : Prop
    extends Context.Beside (fun o p => o.withoutCollecting = p.withoutCollecting) s.context t.context where
  left : s.context.failures = []
  right : t.context.failures = []

theorem Clean.symm {s t : ParseState} (h : Clean s t) : Clean t s :=
  ⟨⟨h.options.symm, h.route.symm, h.depth.symm⟩, h.right, h.left⟩

/-- Whenever the one parse accepts, the other does, with a related value. -/
def Follows (R : α → β → Prop) (p : Parse α) (q : Parse β) : Prop :=
  ∀ s t, Clean s t → ∀ a s', Accepts p s a s' → ∃ b t', Accepts q t b t' ∧ R a b

variable {R : α → β → Prop} {S : γ → δ → Prop}

theorem Follows.mono {R' : α → β → Prop} (h : Follows R p q) (himp : ∀ a b, R a b → R' a b) : Follows R' p q := by
  intro s t hst a s' haccepts
  obtain ⟨b, t', hqb, hab⟩ := h s t hst a s' haccepts
  exact ⟨b, t', hqb, himp a b hab⟩

theorem Clean.leads {s t s' t' : ParseState} (h : Clean s t) (hs : s.context.Leads s'.context)
    (ht : t.context.Leads t'.context) (hs' : s'.context.failures = []) (ht' : t'.context.failures = []) :
    Clean s' t' :=
  ⟨⟨by rw [hs.options, ht.options, h.options], by rw [hs.route, ht.route, h.route],
    by rw [hs.depth, ht.depth, h.depth]⟩, hs', ht'⟩

theorem Follows.bind {k : α → Parse γ} {l : β → Parse δ} {T : γ → Prop} (hp : Behaves P p) (hq : Behaves Q q)
    (h : Follows R p q) (hk : ∀ a, P a → Behaves T (k a)) (hkl : ∀ a b, R a b → Follows S (k a) (l b)) :
    Follows S (p >>= k) (q >>= l) := by
  intro s t hst c s'' haccepts
  obtain ⟨a, s', hpa, -, hleads, hkc⟩ := (accepts_bind hp hk (Context.solid_of_clean hst.left)).mp haccepts
  obtain ⟨b, t', hqb, hab⟩ := h s t hst a s' hpa
  have hsound := hq t (Context.solid_of_clean hst.right)
  rw [hqb.1] at hsound
  obtain ⟨d, t'', hld, hcd⟩ := hkl a b hab s' t' (hst.leads hleads hsound.leads hpa.2 hqb.2) c s'' hkc
  exact ⟨d, t'', ⟨(outcome_bind_of_ok hqb.1).trans hld.1, hld.2⟩, hcd⟩

theorem Follows.of_passes {f : ParseState → α} {g : ParseState → β} (hp : Passes f p) (hq : Passes g q)
    (h : ∀ s t, Clean s t → R (f s) (g t)) : Follows R p q := by
  intro s t hst a s' haccepts
  obtain ⟨ws, calls, hs⟩ := hp s
  obtain ⟨ws', calls', ht⟩ := hq t
  cases hs.symm.trans haccepts.1
  exact ⟨_, _, ⟨ht, hst.right⟩, h s t hst⟩

/-- Nothing is accepted where there is a failure to collect. -/
theorem Follows.collectAll {fs gs : List Failure} (h : Balanced fs gs) :
    Follows Eq (Parse.collectAll fs) (Parse.collectAll gs) := by
  intro s t hst u s' haccepts
  have hnil : fs = [] := by
    by_contra hne
    obtain ⟨hresult, hclean⟩ := haccepts
    refine (Context.sound_collectAll fs (Context.solid_of_clean hst.left) h.left).2 hne ?_ ?_
    · exact congrArg Prod.fst hresult
    · exact (congrArg (fun x => x.2.context.failures) hresult).trans hclean
  rw [h.nil_iff.mp hnil]
  exact ⟨(), t, ⟨rfl, hst.right⟩, rfl⟩

/-- Two attempts that begin without a record: each gives a value if and only if the other does. -/
theorem Follows.attempt (hcd : Context.Fresh (fun o p => o.withoutCollecting = p.withoutCollecting) c d)
    (hp : Behaves P p) (hq : Behaves Q q) (h : Follows R p q) (h' : Follows (fun b a => R a b) q p) :
    Follows (SameTried R) (Parse.attempt c p) (Parse.attempt d q) := by
  intro s t hst x s' haccepts
  have hclean (s t : ParseState) : Clean ⟨c, s.calls⟩ ⟨d, t.calls⟩ :=
    ⟨hcd.toBeside, hcd.failures.1, hcd.failures.2⟩
  rw [Accepts, outcome_attempt] at haccepts
  cases haccepts.1
  refine ⟨_, _, ⟨outcome_attempt d q t, hst.right⟩, ?_⟩
  rcases attempted_cases hp (Context.solid_of_clean hcd.failures.1) s.calls with
    ⟨a, u, hpa, -, heq⟩ | ⟨hnone, fs, u, heq, hne, hfs, hu⟩ <;>
  rcases attempted_cases hq (Context.solid_of_clean hcd.failures.2) t.calls with
    ⟨b, u', hqb, -, heq'⟩ | ⟨hnone', gs, u', heq', hne', hgs, hu'⟩ <;> rw [heq, heq']
  · obtain ⟨b', v, hqb', hab⟩ := h _ _ (hclean s t) a u hpa
    cases hqb.1.symm.trans hqb'.1
    exact .ok hab ⟨hpa.2, hqb.2⟩
  · obtain ⟨b, v, hqb, -⟩ := h _ _ (hclean s t) a u hpa
    exact absurd hqb (hnone' b v)
  · obtain ⟨a, v, hpa, -⟩ := h' _ _ (hclean s t).symm b u' hqb
    exact absurd hpa (hnone a v)
  · exact .error ⟨hfs, hgs, iff_of_false hne hne'⟩ hne hne' ⟨hu, hu'⟩

theorem Follows.descend (hcd : Context.Fresh (fun o p => o.withoutCollecting = p.withoutCollecting) c d)
    (hp : Behaves P p) (h : Follows R p q) : Follows R (p.descend c) (q.descend d) := by
  intro s t hst a s' haccepts
  obtain ⟨u, hpa⟩ := accepts_of_descend hp (Context.solid_of_clean hcd.failures.1) hst.left haccepts
  obtain ⟨b, u', hqb, hab⟩ := h _ ⟨d, t.calls⟩ ⟨hcd.toBeside, hcd.failures.1, hcd.failures.2⟩ a u hpa
  obtain ⟨t', hdescend⟩ := accepts_descend hst.right hqb
  exact ⟨b, t', hdescend, hab⟩

theorem Follows.recover {a : α} {b : β} (hp : Behaves P p) (h : Follows R p q) :
    Follows R (p.recover a) (q.recover b) := by
  intro s t hst a' s' haccepts
  have hpa := accepts_of_recover hp (Context.solid_of_clean hst.left) haccepts
  obtain ⟨b', t', ⟨hresult, hclean⟩, hab⟩ := h s t hst a' s' hpa
  refine ⟨b', t', ⟨?_, hclean⟩, hab⟩
  rw [Parse.recover, outcome_tryCatch, hresult]

end Parse

/-! ### The coupling -/

/-- A default that is the same however often it was made before. -/
def Default.Pure : Default → Prop
  | .value _ => True
  | .factory _ make => ∀ m n, make m = make n

theorem Field.produce_fst_of_pure {f : Field} (h : ∀ d ∈ f.default, d.Pure) (o : Options) (force : Bool)
    (calls calls' : Calls) : (f.produce o force calls).1 = (f.produce o force calls').1 := by
  unfold Field.produce
  cases hd : f.default with
  | none => rfl
  | some d =>
    have hpure := h d hd
    simp only
    split
    · rfl
    · cases d with
      | value v => rfl
      | factory mark make => exact congrArg some (hpure _ _)

namespace Coupling

open Parse

/-- Two parses with sound runs that accept the same. -/
structure SameSuccess {α β : Type} (R : α → β → Prop) (p : Parse α) (q : Parse β) : Prop extends BothSound R p q where
  follows : Follows R p q
  followed : Follows (fun b a => R a b) q p

theorem SameSuccess.of_passes {α β : Type} {R : α → β → Prop} {p : Parse α} {q : Parse β} {f : ParseState → α}
    {g : ParseState → β} (hp : Passes f p) (hq : Passes g q) (h : ∀ s t, Clean s t → R (f s) (g t))
    (hleft : ∀ s, ∃ b, R (f s) b) (hright : ∀ t, ∃ a, R a (g t)) : SameSuccess R p q :=
  ⟨⟨.of_passes hp hleft, .of_passes hq hright⟩, .of_passes hp hq h, .of_passes hq hp fun t s hst => h s t hst.symm⟩

theorem SameSuccess.of_passes_unit {p q : Parse Unit} (hp : Passes (fun _ => ()) p) (hq : Passes (fun _ => ()) q) :
    SameSuccess Eq p q :=
  .of_passes hp hq (fun _ _ _ => rfl) (fun _ => ⟨(), rfl⟩) fun _ => ⟨(), rfl⟩

theorem fresh_symm {c d : Context} (h : Context.Fresh (fun o p => o.withoutCollecting = p.withoutCollecting) c d) :
    Context.Fresh (fun o p => o.withoutCollecting = p.withoutCollecting) d c :=
  ⟨⟨h.options.symm, h.route.symm, h.depth.symm⟩, h.failures.symm, h.warnings.symm⟩

/-- Two runs that accept the same, whether or not failures are collected. -/
def success : Coupling where
  Opts o p := o.withoutCollecting = p.withoutCollecting
  Fails := Balanced
  Left c d := c.failures = [] ∧ d.failures = []
  Steady draw := ∀ calls calls', (draw calls).1 = (draw calls').1
  Rel := SameSuccess
  opts_core := Options.core_of_withoutCollecting
  opts_merge e h := Options.merge_withoutCollecting_congr h e
  fails_nil := sound.fails_nil
  fails_refl := @sound.fails_refl
  fails_append := @sound.fails_append
  fails_ofList := @sound.fails_ofList
  fails_noneMatched := @sound.fails_noneMatched
  left_warn := @sound.left_warn
  rel_pure {α β R a b} h := by
    have passes {γ : Type} (c : γ) : Passes (fun _ => c) (pure c : Parse γ) := fun s => ⟨s.context.warnings, s.calls, rfl⟩
    exact .of_passes (passes a) (passes b) (fun _ _ _ => h) (fun _ => ⟨b, h⟩) fun _ => ⟨a, h⟩
  rel_bind {α β γ δ R S p q k l} h hk := by
    have hleft (a : α) (ha : ∃ b, R a b) : Behaves (fun c => ∃ d, S c d) (k a) := by
      obtain ⟨b, hab⟩ := ha
      exact (hk a b hab).left
    have hright (b : β) (hb : ∃ a, R a b) : Behaves (fun d => ∃ c, S c d) (l b) := by
      obtain ⟨a, hab⟩ := hb
      exact (hk a b hab).right
    refine ⟨⟨h.left.bind hleft, h.right.bind hright⟩, ?_, ?_⟩
    · exact .bind h.left h.right h.follows hleft fun a b hab => (hk a b hab).follows
    · exact .bind h.right h.left h.followed hright fun b a hab => (hk a b hab).followed
  rel_throw h :=
    ⟨sound.rel_throw h, fun _ _ _ _ _ haccepts => absurd haccepts not_accepts_throw,
      fun _ _ _ _ _ haccepts => absurd haccepts not_accepts_throw⟩
  rel_context :=
    .of_passes passes_context passes_context (fun _ _ hst => hst.toBeside) (fun s => ⟨s.context, rfl, rfl, rfl⟩)
      fun t => ⟨t.context, rfl, rfl, rfl⟩
  rel_warn message := .of_passes_unit (passes_warn message) (passes_warn message)
  rel_takeWarnings _ := .of_passes_unit (passes_takeWarnings _) (passes_takeWarnings _)
  rel_absorb h := .of_passes_unit (passes_absorb h.1) (passes_absorb h.2)
  rel_collectAll h :=
    ⟨sound.rel_collectAll h, .collectAll h, (Follows.collectAll h.symm).mono fun _ _ heq => heq.symm⟩
  rel_attempt {α β R c d p q} hcd h := by
    refine ⟨⟨?_, ?_⟩, .attempt hcd h.left h.right h.follows h.followed, ?_⟩
    · exact .attempt (Context.solid_of_clean hcd.failures.1) h.left
    · refine (Behaves.attempt (Context.solid_of_clean hcd.failures.2) h.right).mono fun y hy => ?_
      obtain ⟨x, hxy⟩ := hy
      exact ⟨x, hxy.symm⟩
    · exact (Follows.attempt (fresh_symm hcd) h.right h.left h.followed h.follows).mono fun _ _ hxy => hxy.symm
  rel_descend {α β R c d p q} hcd h :=
    ⟨⟨.descend (Context.solid_of_clean hcd.failures.1) h.left, .descend (Context.solid_of_clean hcd.failures.2) h.right⟩,
      .descend hcd h.left h.follows, .descend (fresh_symm hcd) h.right h.followed⟩
  rel_recover hab h :=
    ⟨⟨.recover ⟨_, hab⟩ h.left, .recover ⟨_, hab⟩ h.right⟩, .recover h.left h.follows, .recover h.right h.followed⟩
  rel_called h :=
    .of_passes (passes_called _) (passes_called _) (fun s t _ => h s.calls t.calls) (fun _ => ⟨_, rfl⟩) fun _ => ⟨_, rfl⟩

end Coupling

end Conform

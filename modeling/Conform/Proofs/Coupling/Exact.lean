import Conform.Proofs.Coupling.Schema

/-! Runs in step. Two runs that start alike go through the same steps: they give related values or failures like each
    other, and leave findings like each other and the same calls of factories. So it is under options that differ
    only in what plays no part in a parse, where findings are the same; so it is with the search for keys, and a schema suits
    that as soon as both searches find the same keys. -/

namespace Conform

/-! ### Likeness -/

/-- In what two runs in step may differ: options, failures and warnings that are like each other. -/
structure Likeness where
  Opts : Options → Options → Prop
  Fails : List Failure → List Failure → Prop
  Warns : List Warning → List Warning → Prop
  opts_core {o p : Options} : Opts o p → o.core = p.core
  opts_merge {o p : Options} (e : Options) : Opts o p → Opts (o.merge e) (p.merge e)
  opts_collects {o p : Options} : Opts o p → o.collects = p.collects
  opts_maxErrors {o p : Options} : Opts o p → o.maxErrors = p.maxErrors
  fails_nil : Fails [] []
  fails_refl (f : Failure) : Fails [f] [f]
  fails_cons {f g : Failure} {fs gs : List Failure} : Fails (f :: fs) (g :: gs) ↔ Fails [f] [g] ∧ Fails fs gs
  fails_length {fs gs : List Failure} : Fails fs gs → fs.length = gs.length
  fails_append {fs gs fs' gs' : List Failure} : Fails fs gs → Fails fs' gs' → Fails (fs ++ fs') (gs ++ gs')
  fails_flatten {f g : Failure} : Fails [f] [g] → Fails f.flatten g.flatten
  fails_aggregate {fs gs : List Failure} : Fails fs gs → Fails [.aggregate fs] [.aggregate gs]
  fails_noneMatched {fs gs : List Failure} (r : Route) (v : Value) :
    Fails fs gs → Fails [.noneMatched r v fs] [.noneMatched r v gs]
  warns_nil : Warns [] []
  warns_append {ws ws' vs vs' : List Warning} : Warns ws ws' → Warns vs vs' → Warns (ws ++ vs) (ws' ++ vs')
  warns_message {fs gs : List Failure} (r : Route) (message : List Failure → String) :
    Fails fs gs → Warns [⟨r, message fs⟩] [⟨r, message gs⟩]

namespace Likeness

/-- Options that differ in what is erased, and the same failures and warnings. -/
def erased (A : Options.Erasure) : Likeness where
  Opts o p := A.erase o = A.erase p
  Fails := Eq
  Warns := Eq
  opts_core := A.core_of
  opts_merge e h := A.merge_congr e h
  opts_collects {o p} h := by rw [← A.collects o, h, A.collects]
  opts_maxErrors {o p} h := by rw [← A.maxErrors o, h, A.maxErrors]
  fails_nil := rfl
  fails_refl _ := rfl
  fails_cons := by simp
  fails_length h := congrArg List.length h
  fails_append h h' := by rw [h, h']
  fails_flatten h := congrArg Failure.flatten (List.singleton_inj.mp h)
  fails_aggregate h := by rw [h]
  fails_noneMatched _ _ h := by rw [h]
  warns_nil := rfl
  warns_append h h' := by rw [h, h']
  warns_message _ _ h := by rw [h]

abbrev search : Likeness := .erased .search

abbrev addition : Likeness := .erased .addition

variable (L : Likeness) {f g : Failure} {fs gs : List Failure}

theorem fails_flattenAll : ∀ {fs gs : List Failure}, L.Fails fs gs → L.Fails (Failure.flattenAll fs) (Failure.flattenAll gs)
  | [], [], _ => L.fails_nil
  | _ :: _, _ :: _, h =>
    L.fails_append (L.fails_flatten (L.fails_cons.mp h).1) (fails_flattenAll (L.fails_cons.mp h).2)
  | [], _ :: _, h | _ :: _, [], h => nomatch L.fails_length h

theorem fails_together (h : L.Fails fs gs) : L.Fails [.together fs] [.together gs] :=
  L.fails_aggregate (L.fails_flattenAll h)

theorem fails_ofList : ∀ {fs gs : List Failure}, L.Fails fs gs → L.Fails [.ofList fs] [.ofList gs]
  | [], [], h => L.fails_together h
  | [_], [_], h => h
  | _ :: _ :: _, _ :: _ :: _, h => L.fails_together h
  | [], _ :: _, h | _ :: _, [], h | [_], _ :: _ :: _, h | _ :: _ :: _, [_], h => nomatch L.fails_length h

theorem fails_isEmpty (h : L.Fails fs gs) : fs.isEmpty = gs.isEmpty := by
  rw [Bool.eq_iff_iff, List.isEmpty_iff_length_eq_zero, List.isEmpty_iff_length_eq_zero, L.fails_length h]

end Likeness

/-! ### States in step -/

/-- Two contexts at one place with findings that are like each other. -/
structure Context.InStep (L : Likeness) (c d : Context) : Prop extends Context.Beside L.Opts c d where
  failures : L.Fails c.failures d.failures
  warnings : L.Warns c.warnings d.warnings

/-- Two states in step, with the same calls of factories. -/
structure ParseState.InStep (L : Likeness) (s t : ParseState) : Prop where
  context : s.context.InStep L t.context
  calls : s.calls = t.calls

/-- Two outcomes with related values or failures that are like each other, and what they leave. -/
inductive Parse.Parallel (L : Likeness) {σ α β : Type} (Left : σ → σ → Prop) (R : α → β → Prop) :
    Except Failure α × σ → Except Failure β × σ → Prop
  | ok {a : α} {b : β} {s t : σ} : R a b → Left s t → Parallel L Left R (.ok a, s) (.ok b, t)
  | error {f g : Failure} {s t : σ} : L.Fails [f] [g] → Left s t → Parallel L Left R (.error f, s) (.error g, t)

/-- Two outcomes that leave states in step. -/
abbrev Parse.InStep (L : Likeness) {α β : Type} (R : α → β → Prop) :
    Except Failure α × ParseState → Except Failure β × ParseState → Prop :=
  Parse.Parallel L (ParseState.InStep L) R

namespace Context.InStep

variable {L : Likeness} {c d : Context} {f g : Failure}

theorem of_fresh (h : Context.Fresh L.Opts c d) : c.InStep L d where
  toBeside := h.toBeside
  failures := by
    rw [h.failures.1, h.failures.2]
    exact L.fails_nil
  warnings := by
    rw [h.warnings.1, h.warnings.2]
    exact L.warns_nil

theorem warn (h : c.InStep L d) {fs gs : List Failure} (message : List Failure → String) (hfails : L.Fails fs gs) :
    (c.warn (message fs)).InStep L (d.warn (message gs)) :=
  ⟨⟨h.options, h.route, h.depth⟩, h.failures,
    L.warns_append h.warnings (h.route ▸ L.warns_message c.route message hfails)⟩

theorem takeWarnings (h : c.InStep L d) {c' d' : Context} (h' : c'.InStep L d') :
    (c.takeWarnings c').InStep L (d.takeWarnings d') :=
  ⟨⟨h.options, h.route, h.depth⟩, h.failures, L.warns_append h.warnings h'.warnings⟩

theorem withFailures (h : c.InStep L d) {fs gs : List Failure} (hfails : L.Fails fs gs) :
    Context.InStep L { c with failures := fs } { d with failures := gs } :=
  ⟨⟨h.options, h.route, h.depth⟩, hfails, h.warnings⟩

theorem collect (h : c.InStep L d) (hfg : L.Fails [f] [g]) :
    Parse.Parallel L (Context.InStep L) Eq (c.collect f) (d.collect g) := by
  have hfails := L.fails_append h.failures (L.fails_flatten hfg)
  simp only [Context.collect, L.opts_collects h.options, L.opts_maxErrors h.options, L.fails_length hfails]
  split
  · exact .error hfg h
  split
  · exact .error (L.fails_together (L.fails_append hfails L.fails_nil)) (h.withFailures L.fails_nil)
  · exact .ok rfl (h.withFailures hfails)

theorem collectAll : ∀ {fs gs : List Failure} {c d : Context}, L.Fails fs gs → c.InStep L d →
    Parse.Parallel L (Context.InStep L) Eq (c.collectAll fs) (d.collectAll gs)
  | [], [], _, _, _, h => .ok rfl h
  | f :: fs, g :: gs, c, d, hfails, h => by
    obtain ⟨hfg, hfails⟩ := L.fails_cons.mp hfails
    have hcollect := h.collect hfg
    unfold Context.collectAll
    generalize c.collect f = x at hcollect ⊢
    generalize d.collect g = y at hcollect ⊢
    cases hcollect with
    | ok _ hleft => exact collectAll hfails hleft
    | error hfg hleft => exact .error hfg hleft
  | [], _ :: _, _, _, hfails, _ | _ :: _, [], _, _, hfails, _ => nomatch L.fails_length hfails

theorem absorb (h : c.InStep L d) {c' d' : Context} (h' : c'.InStep L d') :
    Parse.Parallel L (Context.InStep L) Eq (c.absorb c') (d.absorb d') :=
  collectAll h'.failures (h.takeWarnings h')

end Context.InStep

/-! ### Parses in step -/

namespace Parse.InStep

variable {L : Likeness} {α β γ δ : Type} {R : α → β → Prop} {S : γ → δ → Prop} {s t : ParseState}

/-- The states that are left are in step, whatever the results. -/
theorem state {x : Except Failure α × ParseState} {y : Except Failure β × ParseState} (h : InStep L R x y) :
    x.2.InStep L y.2 := by
  cases h with
  | ok _ hst => exact hst
  | error _ hst => exact hst

theorem bind {p : Parse α} {q : Parse β} {k : α → Parse γ} {l : β → Parse δ}
    (h : InStep L R (p.outcome s) (q.outcome t))
    (hk : ∀ a b, R a b → ∀ s t, s.InStep L t → InStep L S ((k a).outcome s) ((l b).outcome t)) :
    InStep L S ((p >>= k).outcome s) ((q >>= l).outcome t) := by
  rw [outcome_bind, outcome_bind]
  generalize p.outcome s = x at h ⊢
  generalize q.outcome t = y at h ⊢
  cases h with
  | ok hab hst => exact hk _ _ hab _ _ hst
  | error hfg hst => exact .error hfg hst

/-- A step of contexts that gives what is alike and leaves contexts in step. -/
theorem ofContext {k : Context → Except Failure α × Context} {l : Context → Except Failure β × Context} (hst : s.InStep L t)
    (h : Parallel L (Context.InStep L) R (k s.context) (l t.context)) :
    InStep L R ((Parse.ofContext k).outcome s) ((Parse.ofContext l).outcome t) := by
  rw [outcome_ofContext, outcome_ofContext]
  generalize k s.context = x at h ⊢
  generalize l t.context = y at h ⊢
  cases h with
  | ok hab hleft => exact .ok hab ⟨hleft, hst.calls⟩
  | error hfg hleft => exact .error hfg ⟨hleft, hst.calls⟩

theorem attempted {x : Except Failure α × ParseState} {y : Except Failure β × ParseState} (h : InStep L R x y) :
    Parse.Tried L.Fails (Context.InStep L) R (Parse.attempted x) (Parse.attempted y) := by
  cases h with
  | @ok a b s t hab hst =>
    have hempty := L.fails_isEmpty hst.context.failures
    simp only [Parse.attempted, hempty]
    split
    · exact .ok hab hst.context
    · next hsome =>
      refine .error hst.context.failures (fun hnil => hsome ?_) (fun hnil => hsome ?_) (hst.context.withFailures L.fails_nil)
      · rw [← hempty, hnil, List.isEmpty_nil]
      · rw [hnil, List.isEmpty_nil]
  | error hfg hst =>
    simp only [Parse.attempted]
    exact .error (L.fails_append hst.context.failures hfg) (by simp) (by simp) (hst.context.withFailures L.fails_nil)

theorem caught {p : Parse α} {q : Parse β} {k : Failure → Parse α} {l : Failure → Parse β}
    (h : InStep L R (p.outcome s) (q.outcome t))
    (hk : ∀ f g, L.Fails [f] [g] → ∀ s t, s.InStep L t → InStep L R ((k f).outcome s) ((l g).outcome t)) :
    InStep L R ((tryCatch p k).outcome s) ((tryCatch q l).outcome t) := by
  rw [outcome_tryCatch, outcome_tryCatch]
  generalize p.outcome s = x at h ⊢
  generalize q.outcome t = y at h ⊢
  cases h with
  | ok hab hst => exact .ok hab hst
  | error hfg hst => exact hk _ _ hfg _ _ hst

section Children

variable {c d : Context} {p : Parse α} {q : Parse β} (hst : s.InStep L t)
  (hpq : InStep L R (p.outcome ⟨c, s.calls⟩) (q.outcome ⟨d, t.calls⟩))

include hst hpq

theorem attempt : InStep L (Parse.Tried L.Fails (Context.InStep L) R) ((Parse.attempt c p).outcome s)
    ((Parse.attempt d q).outcome t) := by
  rw [outcome_attempt, outcome_attempt]
  exact .ok hpq.attempted ⟨hst.context, hpq.state.calls⟩

theorem descend : InStep L R ((Parse.descend c p).outcome s) ((Parse.descend d q).outcome t) := by
  have habsorb := hst.context.absorb hpq.state.context
  unfold Parse.descend
  rw [outcome_bind_of_ok (outcome_within c p s), outcome_bind_of_ok (outcome_within d q t)]
  refine bind (.ofContext ⟨hst.context, hpq.state.calls⟩ habsorb) fun _ _ _ s' t' hst' => ?_
  generalize p.outcome ⟨c, s.calls⟩ = x at hpq ⊢
  generalize q.outcome ⟨d, t.calls⟩ = y at hpq ⊢
  cases hpq with
  | ok hab _ => exact .ok hab hst'
  | error hfg _ => exact .error hfg hst'

end Children

end Parse.InStep

/-! ### The coupling -/

namespace Coupling

/-- Two runs whose options, failures and warnings are like each other all along. -/
def inStep (L : Likeness) : Coupling where
  Opts := L.Opts
  Fails := L.Fails
  Left := Context.InStep L
  Steady _ := True
  Rel R p q := ∀ s t, ParseState.InStep L s t → Parse.InStep L R (p.outcome s) (q.outcome t)
  opts_core := L.opts_core
  opts_merge e h := L.opts_merge e h
  fails_nil := L.fails_nil
  fails_refl _ := L.fails_refl _
  fails_append h h' := L.fails_append h h'
  fails_ofList h _ _ := L.fails_ofList h
  fails_noneMatched r v h := L.fails_noneMatched r v h
  left_warn message h hf := h.warn message hf
  rel_pure h _ _ hst := .ok h hst
  rel_bind h hk s t hst := (h s t hst).bind hk
  rel_throw h _ _ hst := .error h hst
  rel_context _ _ hst := .ok hst.context.toBeside hst
  rel_warn message _ _ hst := .ofContext hst (.ok rfl (hst.context.warn (fun _ => message) L.fails_nil))
  rel_takeWarnings h _ _ hst := .ofContext hst (.ok rfl (hst.context.takeWarnings h))
  rel_absorb h _ _ hst := .ofContext hst (hst.context.absorb h)
  rel_collectAll h _ _ hst := .ofContext hst (Context.InStep.collectAll h hst.context)
  rel_attempt hfresh h _ _ hst := .attempt hst (h _ _ ⟨.of_fresh hfresh, hst.calls⟩)
  rel_descend hfresh h _ _ hst := .descend hst (h _ _ ⟨.of_fresh hfresh, hst.calls⟩)
  rel_recover hab h s t hst := by
    refine Parse.InStep.caught (h s t hst) fun f g hfg s t hst => ?_
    exact Parse.InStep.bind (.ofContext hst (hst.context.collect hfg)) fun _ _ _ _ _ hst' => .ok hab hst'
  rel_called _ s t hst := by
    simp only [Schema.called, Parse.outcome_ofOutcome, hst.calls]
    exact .ok rfl ⟨hst.context, rfl⟩

/-- Two runs that agree in everything but the search for keys. -/
def exact : Coupling := inStep .search

/-! ### Whole parses -/

section Concluded

variable {L : Likeness} {α β : Type} {R : α → β → Prop} {p : Parse α} {q : Parse β} {f g : Failure}

theorem rel_raised (hfg : L.Fails [f] [g]) : (inStep L).Rel R (Parse.raised f) (Parse.raised g) := by
  refine fun s t hst => .ofContext hst ?_
  have hfailures := hst.context.failures
  rw [L.fails_isEmpty hfailures]
  split
  · exact .error hfg hst.context
  · exact .error (L.fails_together (L.fails_append hfailures hfg)) (hst.context.withFailures L.fails_nil)

theorem rel_finish : (inStep L).Rel L.Warns Parse.finish Parse.finish := by
  refine fun s t hst => .ofContext hst ?_
  obtain ⟨⟨hoptions, hroute, hdepth⟩, hfailures, hwarnings⟩ := hst.context
  simp only [Context.finish, L.fails_isEmpty hfailures]
  split
  · exact .ok hwarnings ⟨⟨hoptions, hroute, hdepth⟩, hfailures, L.warns_nil⟩
  · exact .error (L.fails_together (L.fails_append hfailures L.fails_nil)) (hst.context.withFailures L.fails_nil)

theorem rel_concluded (h : (inStep L).Rel R p q) :
    (inStep L).Rel (fun x y => R x.1 y.1 ∧ L.Warns x.2 y.2) p.concluded q.concluded := by
  have hcaught : (inStep L).Rel R (tryCatch p Parse.raised) (tryCatch q Parse.raised) :=
    fun s t hst => .caught (h s t hst) fun _ _ hfg => rel_raised hfg
  refine (inStep L).rel_bind hcaught fun a b hab => ?_
  exact (inStep L).rel_bind rel_finish fun _ _ hwarns => (inStep L).rel_pure ⟨hab, hwarns⟩

end Concluded

section Exact

variable {α : Type} {p q : Parse α}

theorem rel_exact_concluded (h : exact.Rel Eq p q) : exact.Rel Eq p.concluded q.concluded :=
  exact.rel_mono (rel_concluded h) fun _ _ hxy => Prod.ext hxy.1 hxy.2

/-- What runs in step give at the root is the same. -/
theorem atRoot_eq_of_exact {o o' : Options} (hop : o.withoutSearch = o'.withoutSearch)
    (h : exact.Rel Eq p q) (calls : Calls) : Parse.atRoot o calls p = Parse.atRoot o' calls q := by
  have hpq := h ⟨.root o, calls⟩ ⟨.root o', calls⟩ ⟨⟨⟨hop, rfl, rfl⟩, rfl, rfl⟩, rfl⟩
  unfold Parse.atRoot
  generalize p.outcome ⟨.root o, calls⟩ = x at hpq ⊢
  generalize q.outcome ⟨.root o', calls⟩ = y at hpq ⊢
  cases hpq with
  | ok hab hleft => simp only [hab, hleft.calls]
  | error hfg hleft => simp only [List.singleton_inj.mp hfg, hleft.calls]

end Exact

end Coupling

end Conform

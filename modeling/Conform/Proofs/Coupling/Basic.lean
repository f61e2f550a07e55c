import Conform.Proofs.Options.Agreement
import Conform.Proofs.Parse.Outcome

/-! Couplings of parses. Two runs of a parse are compared by a relation between parses that everything a
    parse is made of keeps: values, sequences, failures, contexts and attempts. What is composed of these
    alone is then coupled with itself, whatever the relation says about single steps, so a statement about
    two runs under different options is proved once for each elementary step and not again for rules,
    combinators and schemas. -/

namespace Conform

/-! ### Contexts side by side -/

/-- Two contexts at one place, under related options. -/
structure Context.Beside (R : Options → Options → Prop) (c d : Context) : Prop where
  options : R c.options d.options
  route : c.route = d.route
  depth : c.depth = d.depth

/-- Two contexts at one place in which nothing was found so far. -/
structure Context.Fresh (R : Options → Options → Prop) (c d : Context) : Prop extends Context.Beside R c d where
  failures : c.failures = [] ∧ d.failures = []
  warnings : c.warnings = [] ∧ d.warnings = []

/-- Two attempts that both succeed with related values or both fail, and what they leave. -/
inductive Parse.Tried {α β : Type} (Fails : List Failure → List Failure → Prop) (Left : Context → Context → Prop)
    (R : α → β → Prop) : Except (List Failure) α × Context → Except (List Failure) β × Context → Prop
  | ok {a : α} {b : β} {c d : Context} : R a b → Left c d → Tried Fails Left R (.ok a, c) (.ok b, d)
  | error {fs gs : List Failure} {c d : Context} :
    Fails fs gs → fs ≠ [] → gs ≠ [] → Left c d → Tried Fails Left R (.error fs, c) (.error gs, d)

/-! ### Composed steps -/

namespace Parse

variable {α : Type}

/-- A parse that gives a value instead of a failure, which it collects. -/
def recover (p : Parse α) (a : α) : Parse α :=
  tryCatch p fun f => do
    collect f
    pure a

/-- A parse in a child, from which everything is taken over. -/
def descend (child : Context) (p : Parse α) : Parse α := do
  let (result, child) ← within child p
  absorb child
  match result with
  | .ok a => pure a
  | .error f => throw f

end Parse

/-! ### Couplings -/

/-- A relation between parses that is kept by what parses are made of. -/
structure Coupling where
  /-- The options under which two runs are compared. -/
  Opts : Options → Options → Prop
  /-- The failures that two runs meet at the same point. -/
  Fails : List Failure → List Failure → Prop
  /-- The contexts that two attempts leave. -/
  Left : Context → Context → Prop
  /-- The defaults that may be produced in two runs. -/
  Steady : {α : Type} → (Calls → α × Calls) → Prop
  /-- The parses that are coupled, by way of a relation between the values that they give. -/
  Rel : {α β : Type} → (α → β → Prop) → Parse α → Parse β → Prop
  opts_core {o p : Options} : Opts o p → o.core = p.core
  opts_merge {o p : Options} (e : Options) : Opts o p → Opts (o.merge e) (p.merge e)
  fails_nil : Fails [] []
  fails_refl {f : Failure} : f.flatten ≠ [] → Fails [f] [f]
  fails_append {fs gs fs' gs' : List Failure} : Fails fs gs → Fails fs' gs' → Fails (fs ++ fs') (gs ++ gs')
  fails_ofList {fs gs : List Failure} : Fails fs gs → fs ≠ [] → gs ≠ [] → Fails [.ofList fs] [.ofList gs]
  fails_noneMatched {fs gs : List Failure} (r : Route) (v : Value) :
    Fails fs gs → Fails [.noneMatched r v fs] [.noneMatched r v gs]
  left_warn {c d : Context} {fs gs : List Failure} (message : List Failure → String) :
    Left c d → Fails fs gs → Left (c.warn (message fs)) (d.warn (message gs))
  rel_pure {α β : Type} {R : α → β → Prop} {a : α} {b : β} : R a b → Rel R (pure a) (pure b)
  rel_bind {α β γ δ : Type} {R : α → β → Prop} {S : γ → δ → Prop} {p : Parse α} {q : Parse β} {k : α → Parse γ}
    {l : β → Parse δ} : Rel R p q → (∀ a b, R a b → Rel S (k a) (l b)) → Rel S (p >>= k) (q >>= l)
  rel_throw {α β : Type} {R : α → β → Prop} {f g : Failure} : Fails [f] [g] → Rel R (throw f) (throw g)
  rel_context : Rel (Context.Beside Opts) Parse.context Parse.context
  rel_warn (message : String) : Rel Eq (Parse.warn message) (Parse.warn message)
  rel_takeWarnings {c d : Context} : Left c d → Rel Eq (Parse.takeWarnings c) (Parse.takeWarnings d)
  rel_absorb {c d : Context} : Left c d → Rel Eq (Parse.absorb c) (Parse.absorb d)
  rel_collectAll {fs gs : List Failure} : Fails fs gs → Rel Eq (Parse.collectAll fs) (Parse.collectAll gs)
  rel_attempt {α β : Type} {R : α → β → Prop} {c d : Context} {p : Parse α} {q : Parse β} :
    Context.Fresh Opts c d → Rel R p q → Rel (Parse.Tried Fails Left R) (Parse.attempt c p) (Parse.attempt d q)
  rel_descend {α β : Type} {R : α → β → Prop} {c d : Context} {p : Parse α} {q : Parse β} :
    Context.Fresh Opts c d → Rel R p q → Rel R (p.descend c) (q.descend d)
  rel_recover {α β : Type} {R : α → β → Prop} {a : α} {b : β} {p : Parse α} {q : Parse β} :
    R a b → Rel R p q → Rel R (p.recover a) (q.recover b)
  rel_called {α : Type} {draw : Calls → α × Calls} :
    Steady draw → Rel Eq (Schema.called draw) (Schema.called draw)

namespace Coupling

variable (K : Coupling)

/-- What the core of options decides is the same on both sides. -/
theorem agree {γ : Type} (read : Options → γ) (hread : ∀ o, read o.core = read o) {o p : Options}
    (h : K.Opts o p) : read o = read p :=
  Options.eq_of_core read hread (K.opts_core h)

/-! ### Children -/

theorem fresh_speculate {c d : Context} (h : c.Beside K.Opts d) : c.speculate.Fresh K.Opts d.speculate :=
  ⟨⟨h.options, h.route, h.depth⟩, ⟨rfl, rfl⟩, ⟨rfl, rfl⟩⟩

theorem fresh_speculateWith {c d : Context} (h : c.Beside K.Opts d) (e : Options) :
    (c.speculateWith e).Fresh K.Opts (d.speculateWith e) :=
  ⟨⟨K.opts_merge e h.options, h.route, h.depth⟩, ⟨rfl, rfl⟩, ⟨rfl, rfl⟩⟩

/-! ### Single steps -/

/-- A sequence goes on alike where its first part gives the same. -/
theorem rel_bind_same {α γ δ : Type} {S : γ → δ → Prop} {p q : Parse α} {k : α → Parse γ} {l : α → Parse δ}
    (h : K.Rel Eq p q) (hk : ∀ a, K.Rel S (k a) (l a)) : K.Rel S (p >>= k) (q >>= l) := by
  refine K.rel_bind h fun a b hab => ?_
  cases hab
  exact hk a

theorem rel_mono {α β : Type} {R S : α → β → Prop} {p : Parse α} {q : Parse β} (h : K.Rel R p q)
    (hRS : ∀ a b, R a b → S a b) : K.Rel S p q := by
  rw [← bind_pure p, ← bind_pure q]
  exact K.rel_bind h fun a b hab => K.rel_pure (hRS a b hab)

theorem rel_options : K.Rel K.Opts Parse.options Parse.options :=
  K.rel_bind K.rel_context fun _ _ h => K.rel_pure h.options

theorem rel_route : K.Rel Eq Parse.route Parse.route :=
  K.rel_bind K.rel_context fun _ _ h => K.rel_pure h.route

/-- A failure that is no aggregate is met on both sides. -/
theorem rel_throw_single {α β : Type} {R : α → β → Prop} {f : Failure} (h : f.flatten ≠ []) :
    K.Rel R (throw f) (throw f) :=
  K.rel_throw (K.fails_refl h)

/-- A failure of the place where it is met. -/
theorem rel_throw_here {α β : Type} {R : α → β → Prop} {f : Route → Failure} (h : ∀ r, (f r).flatten ≠ []) :
    K.Rel R (Parse.route >>= fun r => throw (f r)) (Parse.route >>= fun r => throw (f r)) :=
  K.rel_bind_same K.rel_route fun r => K.rel_throw_single (h r)

theorem rel_collect {f g : Failure} (h : K.Fails [f] [g]) : K.Rel Eq (Parse.collect f) (Parse.collect g) := by
  rw [Parse.collect_eq_collectAll, Parse.collect_eq_collectAll]
  exact K.rel_collectAll h

theorem rel_enter (item : RouteItem) : K.Rel (Context.Fresh K.Opts) (Parse.enter item) (Parse.enter item) := by
  rw [Parse.enter_eq]
  refine K.rel_bind K.rel_context fun c d h => ?_
  have hlimit : c.options.depthLimit = d.options.depthLimit := K.agree Options.depthLimit (fun _ => rfl) h.options
  simp only [Context.enter, hlimit, h.route, h.depth]
  by_cases hdeep : d.options.depthLimit < d.depth + 1
  · simp only [if_pos hdeep]
    exact K.rel_throw_single (by simp [Failure.flatten])
  · simp only [if_neg hdeep]
    exact K.rel_pure ⟨⟨h.options, rfl, rfl⟩, ⟨rfl, rfl⟩, ⟨rfl, rfl⟩⟩

end Coupling

end Conform

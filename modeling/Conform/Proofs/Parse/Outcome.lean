import Conform.Conformance

/-! Outcomes of parses. What a parse gives, and the state that it leaves, is read off its parts: a sequence
    goes on where its first part gives a value and ends where that fails, and the elementary parses are
    what they are defined as. -/

namespace Conform.Parse

variable {α β : Type}

/-! ### Sequences -/

@[simp] theorem outcome_pure (a : α) (s : ParseState) : (pure a : Parse α).outcome s = (.ok a, s) := rfl

@[simp] theorem outcome_throw (f : Failure) (s : ParseState) : (throw f : Parse α).outcome s = (.error f, s) := rfl

theorem outcome_bind (p : Parse α) (k : α → Parse β) (s : ParseState) :
    (p >>= k).outcome s =
      match p.outcome s with
      | (.ok a, t) => (k a).outcome t
      | (.error f, t) => (.error f, t) := by
  show (ExceptT.bindCont k (p.outcome s).1) (p.outcome s).2 = _
  rcases p.outcome s with ⟨_ | _, t⟩ <;> rfl

theorem outcome_bind_of_ok {p : Parse α} {k : α → Parse β} {s t : ParseState} {a : α}
    (h : p.outcome s = (.ok a, t)) : (p >>= k).outcome s = (k a).outcome t := by
  rw [outcome_bind, h]

theorem outcome_bind_of_error {p : Parse α} {k : α → Parse β} {s t : ParseState} {f : Failure}
    (h : p.outcome s = (.error f, t)) : (p >>= k).outcome s = (.error f, t) := by
  rw [outcome_bind, h]

/-- A sequence gives a value only by way of one of its first part. -/
theorem outcome_bind_eq_ok {p : Parse α} {k : α → Parse β} {s u : ParseState} {b : β}
    (h : (p >>= k).outcome s = (.ok b, u)) :
    ∃ a t, p.outcome s = (.ok a, t) ∧ (k a).outcome t = (.ok b, u) := by
  rw [outcome_bind] at h
  rcases hp : p.outcome s with ⟨f | a, t⟩ <;> rw [hp] at h
  · cases h
  · exact ⟨a, t, rfl, h⟩

theorem exists_of_isOk {ε : Type} {x : Except ε α} (h : x.isOk = true) : ∃ a, x = .ok a := by
  cases x with
  | error e => cases h
  | ok a => exact ⟨a, rfl⟩

theorem outcome_tryCatch (p : Parse α) (k : Failure → Parse α) (s : ParseState) :
    (tryCatch p k).outcome s =
      match p.outcome s with
      | (.ok a, t) => (.ok a, t)
      | (.error f, t) => (k f).outcome t := by
  simp only [tryCatch, tryCatchThe, MonadExceptOf.tryCatch, ExceptT.tryCatch, outcome, ExceptT.run, StateT.run,
    ExceptT.mk, bind, StateT.bind]
  rcases p s with ⟨_ | _, t⟩ <;> rfl

/-- Two parses with the same outcomes are the same. -/
theorem ext_outcome {p q : Parse α} (h : ∀ s, p.outcome s = q.outcome s) : p = q := funext h

/-! ### Elementary parses -/

@[simp] theorem outcome_ofOutcome (k : ParseState → Except Failure α × ParseState) (s : ParseState) :
    (ofOutcome k).outcome s = k s := rfl

theorem outcome_ofContext (k : Context → Except Failure α × Context) (s : ParseState) :
    (ofContext k).outcome s = ((k s.context).1, ⟨(k s.context).2, s.calls⟩) := rfl

@[simp] theorem outcome_context (s : ParseState) : context.outcome s = (.ok s.context, s) := rfl

@[simp] theorem outcome_options (s : ParseState) : options.outcome s = (.ok s.context.options, s) := rfl

@[simp] theorem outcome_route (s : ParseState) : route.outcome s = (.ok s.context.route, s) := rfl

theorem outcome_within (c : Context) (p : Parse α) (s : ParseState) :
    (within c p).outcome s =
      (.ok ((p.outcome ⟨c, s.calls⟩).1, (p.outcome ⟨c, s.calls⟩).2.context),
        ⟨s.context, (p.outcome ⟨c, s.calls⟩).2.calls⟩) := rfl

/-- What an attempt gives, from the outcome of the parse in the attempt's own context. -/
def attempted : Except Failure α × ParseState → Except (List Failure) α × Context
  | (.ok a, t) =>
    if t.context.failures.isEmpty then (.ok a, t.context)
    else (.error t.context.failures, { t.context with failures := [] })
  | (.error f, t) => (.error (t.context.failures ++ [f]), { t.context with failures := [] })

theorem outcome_attempt (c : Context) (p : Parse α) (s : ParseState) :
    (attempt c p).outcome s =
      (.ok (attempted (p.outcome ⟨c, s.calls⟩)), ⟨s.context, (p.outcome ⟨c, s.calls⟩).2.calls⟩) := by
  unfold attempt
  rw [outcome_bind, outcome_within]
  rcases p.outcome ⟨c, s.calls⟩ with ⟨f | a, t⟩
  · rfl
  · simp only [attempted]
    split
    · rfl
    · simp only [Context.takeFailures, Option.toList_none, List.append_nil, outcome_pure]

theorem outcome_finish_of_clean {s : ParseState} (h : s.context.failures = []) :
    finish.outcome s = (.ok s.context.warnings, ⟨{ s.context with warnings := [] }, s.calls⟩) := by
  simp [finish, outcome_ofContext, Context.finish, h]

theorem outcome_finish_of_failures {s : ParseState} (h : s.context.failures ≠ []) :
    finish.outcome s = (.error (.together s.context.failures), ⟨{ s.context with failures := [] }, s.calls⟩) := by
  simp [finish, outcome_ofContext, Context.finish, Context.raise, h]

/-- To collect one failure is to collect a list of one. -/
theorem collect_eq_collectAll (f : Failure) : collect f = collectAll [f] := by
  refine ext_outcome fun s => ?_
  simp only [collect, collectAll, outcome_ofContext, Context.collectAll]
  rcases s.context.collect f with ⟨g | _, d⟩ <;> rfl

/-- A step is taken from the context alone, which it leaves as it is. -/
theorem enter_eq (item : RouteItem) :
    enter item = context >>= fun c => match c.enter item with
      | .ok d => pure d
      | .error f => throw f := by
  refine ext_outcome fun s => ?_
  rw [outcome_bind_of_ok (outcome_context s)]
  simp only [enter, outcome_ofContext]
  rcases s.context.enter item with f | d <;> rfl

/-! ### Values -/

/-- Whatever a parse gives has a property. -/
def Gives (P : α → Prop) (p : Parse α) : Prop := ∀ ⦃s a t⦄, p.outcome s = (.ok a, t) → P a

variable {P : α → Prop} {Q : β → Prop} {p : Parse α} {k : α → Parse β}

theorem Gives.elim {s t : ParseState} {a : α} (h : Gives P p) (hok : p.outcome s = (.ok a, t)) : P a := h hok

theorem Gives.pure {a : α} (h : P a) : Gives P (pure a) := by
  intro s b t hok
  cases hok
  exact h

theorem Gives.bind (h : Gives P p) (hk : ∀ a, P a → Gives Q (k a)) : Gives Q (p >>= k) := by
  intro s b u hok
  obtain ⟨a, t, hp, hrest⟩ := outcome_bind_eq_ok hok
  exact hk a (h hp) hrest

/-- Where nothing is known of the first value, the rest has the property whatever it goes on with. -/
theorem Gives.bind_any (hk : ∀ a, Gives Q (k a)) : Gives Q (p >>= k) :=
  Gives.bind (P := fun _ => True) (fun _ _ _ _ => trivial) fun a _ => hk a

end Conform.Parse

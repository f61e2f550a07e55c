import Conform.Proofs.Coupling.Basic

/-! The place of a run. A run changes what its context has found and the calls of factories, but neither the options
    in force nor the route and the depth: these are those of children only. -/

namespace Conform

/-- The place of a context is that of another. -/
abbrev Context.At (c d : Context) : Prop := c.Beside Eq d

namespace Context

variable {c d e : Context}

theorem At.refl (c : Context) : c.At c := ⟨rfl, rfl, rfl⟩

theorem At.trans (h : c.At d) (h' : d.At e) : c.At e :=
  ⟨h.options.trans h'.options, h.route.trans h'.route, h.depth.trans h'.depth⟩

theorem At.enter (h : c.At d) (item : RouteItem) : c.enter item = d.enter item := by
  unfold Context.enter
  rw [h.options, h.route, h.depth]

theorem at_collect (c : Context) (f : Failure) : c.At (c.collect f).2 := by
  unfold collect
  split
  · exact .refl c
  simp only
  split
  · exact ⟨rfl, rfl, rfl⟩
  · exact ⟨rfl, rfl, rfl⟩

theorem at_collectAll (fs : List Failure) : ∀ c : Context, c.At (c.collectAll fs).2 := by
  induction fs with
  | nil => exact .refl
  | cons f rest ih =>
    intro c
    have hf := at_collect c f
    unfold collectAll
    generalize c.collect f = x at hf ⊢
    obtain ⟨g | _, d⟩ := x
    · exact hf
    · exact hf.trans (ih d)

end Context

namespace Parse

variable {α β : Type} {p : Parse α}

/-- A parse whose runs end where they began. -/
def Stays (p : Parse α) : Prop := ∀ s : ParseState, s.context.At (p.outcome s).2.context

theorem Stays.of_ok (h : Stays p) {s t : ParseState} {a : α} (hok : p.outcome s = (.ok a, t)) :
    s.context.At t.context := by
  have hs := h s
  rwa [hok] at hs

theorem Stays.pure (a : α) : Stays (pure a) := fun s => .refl s.context

theorem Stays.bind {k : α → Parse β} (h : Stays p) (hk : ∀ a, Stays (k a)) : Stays (p >>= k) := by
  intro s
  have hp := h s
  rw [outcome_bind]
  generalize p.outcome s = x at hp ⊢
  obtain ⟨f | a, t⟩ := x
  · exact hp
  · exact hp.trans (hk a t)

theorem Stays.ofContext {k : Context → Except Failure α × Context} (h : ∀ c : Context, c.At (k c).2) : Stays (ofContext k) :=
  fun s => h s.context

theorem stays_context : Stays context := .ofContext .refl

theorem stays_options : Stays options := stays_context.bind fun _ => .pure _

theorem stays_route : Stays route := stays_context.bind fun _ => .pure _

theorem stays_warn (message : String) : Stays (warn message) := .ofContext fun _ => ⟨rfl, rfl, rfl⟩

theorem stays_takeWarnings (child : Context) : Stays (takeWarnings child) := .ofContext fun _ => ⟨rfl, rfl, rfl⟩

theorem stays_collect (f : Failure) : Stays (collect f) := .ofContext fun c => c.at_collect f

theorem stays_collectAll (fs : List Failure) : Stays (collectAll fs) := .ofContext (Context.at_collectAll fs)

theorem stays_absorb (child : Context) : Stays (absorb child) := by
  refine .ofContext fun c => ?_
  have hwarned : c.At (c.takeWarnings child) := ⟨rfl, rfl, rfl⟩
  exact hwarned.trans (Context.at_collectAll child.failures _)

theorem stays_enter (item : RouteItem) : Stays (enter item) := .ofContext .refl

theorem stays_attempt (child : Context) (p : Parse α) : Stays (attempt child p) := by
  intro s
  rw [outcome_attempt]
  exact .refl s.context

end Parse

theorem Reading.stays_guarded (r : Reading) (v : Value) (item : RouteItem) (policy : ErrorPolicy) :
    Parse.Stays (r.guarded v item policy) := by
  refine (Parse.stays_enter item).bind fun child => (Parse.stays_attempt child _).bind fun x => ?_
  obtain ⟨fs | w, d⟩ := x
  · cases policy with
    | exclude => exact (Parse.stays_takeWarnings _).bind fun _ => .pure _
    | preserve => exact (Parse.stays_takeWarnings _).bind fun _ => .pure _
    | throw => exact (Parse.stays_takeWarnings d).bind fun _ => (Parse.stays_collectAll fs).bind fun _ => .pure _
  · exact (Parse.stays_absorb d).bind fun _ => .pure _

end Conform

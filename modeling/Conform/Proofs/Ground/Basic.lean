import Conform.Proofs.Limit.Basic
import Conform.Proofs.Parse.Place

/-! The ground of a run: the places at which it may be, and the routes within its reach. What a run finds stays within
    reach if everything it is made of keeps to the ground. Two runs concur on a ground if they have the same outcome
    from every place there, so parts that differ elsewhere alone may be exchanged. -/

namespace Conform

/-! ### Routes in failures -/

namespace Failure

mutual

/-- Every route in a failure, also those of failures in the branches of a combinator. -/
def routes : Failure → List Route
  | .noneMatched route _ failures => route :: routesAll failures
  | .aggregate failures => routesAll failures
  | f => f.route?.toList

def routesAll : List Failure → List Route
  | [] => []
  | f :: rest => routes f ++ routesAll rest

end

theorem routesAll_append (fs gs : List Failure) : routesAll (fs ++ gs) = routesAll fs ++ routesAll gs := by
  induction fs with
  | nil => rfl
  | cons f rest ih => rw [List.cons_append, routesAll, ih, routesAll, List.append_assoc]

theorem routesAll_singleton (f : Failure) : routesAll [f] = f.routes := by
  rw [routesAll, routesAll, List.append_nil]

mutual

theorem routesAll_flatten : ∀ f : Failure, routesAll f.flatten = f.routes
  | .aggregate failures => routesAll_flattenAll failures
  | .coercion .. | .constraint .. | .negated .. | .severalMatched .. | .noneMatched .. | .absence ..
  | .aliasConflict .. | .missingDependencies .. | .excess .. | .containment .. | .tooDeep .. | .immutable .. =>
    routesAll_singleton _

theorem routesAll_flattenAll : ∀ fs : List Failure, routesAll (flattenAll fs) = routesAll fs
  | [] => rfl
  | f :: rest => by
    rw [flattenAll, routesAll_append, routesAll_flatten f, routesAll_flattenAll rest, routesAll]

end

theorem routes_together (fs : List Failure) : (together fs).routes = routesAll fs := routesAll_flattenAll fs

theorem routes_ofList (fs : List Failure) : (ofList fs).routes = routesAll fs := by
  match fs with
  | [] => rfl
  | [f] => exact (routesAll_singleton f).symm
  | f :: g :: rest => exact routes_together _

theorem mem_routesAll {route : Route} {fs : List Failure} : route ∈ routesAll fs ↔ ∃ f ∈ fs, route ∈ f.routes := by
  induction fs with
  | nil => simp [routesAll]
  | cons f rest ih => simp only [routesAll, List.mem_append, ih, List.mem_cons, exists_eq_or_imp]

theorem mem_routes_of_route? {f : Failure} {route : Route} (h : f.route? = some route) : route ∈ f.routes := by
  cases f with
  | aggregate => cases h
  | noneMatched =>
    cases h
    exact List.mem_cons_self
  | _ =>
    cases h
    exact List.mem_singleton_self _

mutual

/-- What a failure counts for has a route of its own. -/
theorem exists_route_of_mem_flatten : ∀ {f g : Failure}, g ∈ f.flatten → ∃ route, g.route? = some route
  | .aggregate _, _, h => exists_route_of_mem_flattenAll h
  | .coercion .., _, h | .constraint .., _, h | .negated .., _, h | .severalMatched .., _, h
  | .noneMatched .., _, h | .absence .., _, h | .aliasConflict .., _, h | .missingDependencies .., _, h
  | .excess .., _, h | .containment .., _, h | .tooDeep .., _, h | .immutable .., _, h => by
    obtain rfl := List.mem_singleton.mp h
    exact ⟨_, rfl⟩

theorem exists_route_of_mem_flattenAll : ∀ {fs : List Failure} {g : Failure}, g ∈ flattenAll fs → ∃ route, g.route? = some route
  | _ :: _, _, h => by
    rcases List.mem_append.mp h with h | h
    · exact exists_route_of_mem_flatten h
    · exact exists_route_of_mem_flattenAll h

end

theorem flatten_of_route? {f : Failure} {route : Route} (h : f.route? = some route) : f.flatten = [f] := by
  cases f with
  | aggregate => cases h
  | _ => rfl

/-- A failure all of whose routes are within reach. -/
def Within (R : Route → Prop) (f : Failure) : Prop := ∀ route ∈ f.routes, R route

def AllWithin (R : Route → Prop) (fs : List Failure) : Prop := ∀ route ∈ routesAll fs, R route

variable {R : Route → Prop} {f : Failure} {fs gs : List Failure}

theorem AllWithin.append (h : AllWithin R fs) (h' : AllWithin R gs) : AllWithin R (fs ++ gs) := by
  rw [AllWithin, routesAll_append]
  exact List.forall_mem_append.mpr ⟨h, h'⟩

/-- What failures within reach count for is within reach. -/
theorem AllWithin.exists_route (h : AllWithin R fs) (hf : f ∈ flattenAll fs) : ∃ route, f.route? = some route ∧ R route := by
  obtain ⟨route, hroute⟩ := exists_route_of_mem_flattenAll hf
  have hmem : route ∈ routesAll (flattenAll fs) := mem_routesAll.mpr ⟨f, hf, mem_routes_of_route? hroute⟩
  rw [routesAll_flattenAll] at hmem
  exact ⟨route, hroute, h route hmem⟩

theorem allWithin_nil : AllWithin R [] := List.forall_mem_nil _

theorem allWithin_singleton : AllWithin R [f] ↔ f.Within R := by rw [AllWithin, routesAll_singleton, Within]

theorem allWithin_flatten : AllWithin R f.flatten ↔ f.Within R := by rw [AllWithin, routesAll_flatten, Within]

theorem within_together : (together fs).Within R ↔ AllWithin R fs := by rw [Within, routes_together, AllWithin]

theorem within_ofList : (ofList fs).Within R ↔ AllWithin R fs := by rw [Within, routes_ofList, AllWithin]

theorem within_noneMatched {route : Route} (hroute : R route) (v : Value) (h : AllWithin R fs) :
    (noneMatched route v fs).Within R := by
  rw [Within, routes]
  exact List.forall_mem_cons.mpr ⟨hroute, h⟩

end Failure

/-! ### Findings -/

/-- A context all of whose findings are within reach. -/
structure Context.Within (R : Route → Prop) (c : Context) : Prop where
  failures : Failure.AllWithin R c.failures
  warnings : ∀ w ∈ c.warnings, R w.route

namespace Context

open Failure (AllWithin)

variable {R : Route → Prop} {c d : Context} {f : Failure} {fs : List Failure}

theorem within_of_clean (hfailures : c.failures = []) (hwarnings : c.warnings = []) : c.Within R := by
  refine ⟨?_, ?_⟩
  · rw [hfailures]
    exact Failure.allWithin_nil
  · rw [hwarnings]
    exact List.forall_mem_nil _

theorem Within.cleared (h : c.Within R) : Context.Within R { c with failures := [] } := ⟨Failure.allWithin_nil, h.warnings⟩

theorem Within.warn (h : c.Within R) (hroute : R c.route) (message : String) : (c.warn message).Within R :=
  ⟨h.failures, List.forall_mem_append.mpr ⟨h.warnings, List.forall_mem_singleton.mpr hroute⟩⟩

theorem Within.takeWarnings (h : c.Within R) (hd : d.Within R) : (c.takeWarnings d).Within R :=
  ⟨h.failures, List.forall_mem_append.mpr ⟨h.warnings, hd.warnings⟩⟩

/-- What is collected is recorded or raised, with what was recorded before or without. -/
theorem Within.collect (h : c.Within R) (hf : f.Within R) :
    (c.collect f).2.Within R ∧ ∀ g, (c.collect f).1 = .error g → g.Within R := by
  have hall : AllWithin R (c.failures ++ f.flatten) := h.failures.append (Failure.allWithin_flatten.mpr hf)
  unfold Context.collect
  split
  · refine ⟨h, ?_⟩
    rintro g ⟨⟩
    exact hf
  simp only
  split
  · refine ⟨⟨Failure.allWithin_nil, h.warnings⟩, ?_⟩
    rintro g ⟨⟩
    rw [raise, Option.toList_none, List.append_nil]
    exact Failure.within_together.mpr hall
  · refine ⟨⟨hall, h.warnings⟩, ?_⟩
    rintro g ⟨⟩

theorem Within.collectAll : ∀ {fs : List Failure} {c : Context}, c.Within R → AllWithin R fs →
    (c.collectAll fs).2.Within R ∧ ∀ g, (c.collectAll fs).1 = .error g → g.Within R
  | [], c, h, _ => ⟨h, fun g hg => nomatch hg⟩
  | f :: rest, c, h, hfs => by
    obtain ⟨hf, hrest⟩ := List.forall_mem_append.mp hfs
    obtain ⟨hd, herror⟩ := h.collect hf
    unfold Context.collectAll
    generalize c.collect f = x at hd herror ⊢
    obtain ⟨g | _, d⟩ := x
    · refine ⟨hd, ?_⟩
      rintro _ ⟨⟩
      exact herror g rfl
    · exact Within.collectAll hd hrest

end Context

/-! ### Depths -/

theorem Options.depthLimit_merge (p o : Options) :
    (p.merge o).depthLimit = if o.overriding || o.maxDepth.isSome then o.depthLimit else p.depthLimit := by
  unfold merge
  cases o.overriding with
  | true => rfl
  | false => cases hdepth : o.maxDepth <;> simp [depthLimit, hdepth]

theorem Context.enter_eq_ok {c d : Context} {item : RouteItem} (h : c.enter item = .ok d) :
    c.depth + 1 ≤ c.options.depthLimit ∧ d = ⟨c.options, c.route ++ [item], c.depth + 1, [], []⟩ := by
  unfold enter at h
  split at h
  · cases h
  · cases h
    exact ⟨Nat.not_lt.mp ‹_›, rfl⟩

/-! ### Grounds -/

/-- Places at which a run may be, given the routes within reach. -/
structure Ground (R : Route → Prop) where
  Holds : Context → Prop
  of_at {c d : Context} : Holds c → c.At d → Holds d
  here {c : Context} : Holds c → R c.route
  next {c : Context} (item : RouteItem) : Holds c → R (c.route ++ [item])
  /-- Whether a value satisfies a rule is tried at the same place under stricter options. -/
  probe {c : Context} : Holds c → Holds (c.speculateWith { noExplicitCast := some true })

namespace Ground

variable {R : Route → Prop} {G H : Ground R} {c d : Context}

/-- A step further leads from one ground to another. -/
def Opens (G H : Ground R) : Prop :=
  ∀ {c d : Context} {item : RouteItem}, G.Holds c → c.enter item = .ok d → H.Holds d

/-- A context on the ground in which nothing was found so far. -/
structure Fresh (G : Ground R) (c : Context) : Prop where
  holds : G.Holds c
  within : c.Within R

/-- All places from a route on. -/
def beyond (route : Route) : Ground (route <+: ·) where
  Holds c := route <+: c.route
  of_at h hat := hat.route ▸ h
  here := id
  next _ h := h.trans (List.prefix_append _ _)
  probe := id

theorem beyond_opens (route : Route) : (beyond route).Opens (beyond route) := by
  intro c d item h hstep
  obtain ⟨-, rfl⟩ := Context.enter_eq_ok hstep
  exact List.IsPrefix.trans h (List.prefix_append _ _)

theorem fresh_speculate (h : G.Holds c) : G.Fresh c.speculate :=
  ⟨G.of_at h ⟨rfl, rfl, rfl⟩, Context.within_of_clean rfl rfl⟩

theorem fresh_probe (h : G.Holds c) : G.Fresh (c.speculateWith { noExplicitCast := some true }) :=
  ⟨G.probe h, Context.within_of_clean rfl rfl⟩

end Ground

/-! ### Runs -/

namespace Parse

open Failure (AllWithin)

variable {α β : Type} {R : Route → Prop}

/-- A run that has ended where it began, with findings within reach and a value with a property. -/
inductive Settled (R : Route → Prop) (P : α → Prop) (c : Context) : Except Failure α × ParseState → Prop
  | ok {a : α} {t : ParseState} : c.At t.context → t.context.Within R → P a → Settled R P c (.ok a, t)
  | error {f : Failure} {t : ParseState} : c.At t.context → t.context.Within R → f.Within R → Settled R P c (.error f, t)

/-- Two parses whose runs on a ground have the same outcome, all findings of which are within reach. -/
def Concur (G : Ground R) (P : α → Prop) (p q : Parse α) : Prop :=
  ∀ s, G.Holds s.context → s.context.Within R → p.outcome s = q.outcome s ∧ Settled R P s.context (p.outcome s)

abbrev ConcurAt (G : Ground R) (p q : Parse α) : Prop := Concur G (fun _ => True) p q

variable {G H : Ground R} {P : α → Prop} {Q : β → Prop} {p q : Parse α} {c d : Context} {f : Failure} {fs : List Failure}

theorem Settled.after {x : Except Failure α × ParseState} (h : Settled R P d x) (hplace : c.At d) : Settled R P c x := by
  cases h with
  | ok hat hwithin ha => exact .ok (hplace.trans hat) hwithin ha
  | error hat hwithin hf => exact .error (hplace.trans hat) hwithin hf

/-! ### Sequences -/

theorem Concur.of_settled (h : ∀ s, G.Holds s.context → s.context.Within R → Settled R P s.context (p.outcome s)) :
    Concur G P p p :=
  fun s hs hwithin => ⟨rfl, h s hs hwithin⟩

theorem Concur.pure {a : α} (ha : P a) : Concur G P (pure a) (pure a) :=
  .of_settled fun s _ hwithin => .ok (.refl s.context) hwithin ha

theorem ConcurAt.pure (a : α) : ConcurAt G (pure a) (pure a) := Concur.pure trivial

theorem Concur.throw (hf : f.Within R) : Concur G P (throw f) (throw f) :=
  .of_settled fun s _ hwithin => .error (.refl s.context) hwithin hf

theorem Concur.bind {k l : α → Parse β} (h : Concur G P p q) (hk : ∀ a, P a → Concur G Q (k a) (l a)) :
    Concur G Q (p >>= k) (q >>= l) := by
  intro s hs hwithin
  obtain ⟨heq, hsettled⟩ := h s hs hwithin
  rw [outcome_bind, outcome_bind, ← heq]
  generalize p.outcome s = x at hsettled ⊢
  cases hsettled with
  | @ok a t hat hwithin' ha =>
    obtain ⟨heq', hsettled'⟩ := hk a ha t (G.of_at hs hat) hwithin'
    exact ⟨heq', hsettled'.after hat⟩
  | error hat hwithin' hf => exact ⟨rfl, .error hat hwithin' hf⟩

theorem ConcurAt.bind {k l : α → Parse β} (h : ConcurAt G p q) (hk : ∀ a, Concur G Q (k a) (l a)) :
    Concur G Q (p >>= k) (q >>= l) :=
  Concur.bind h fun a _ => hk a

/-! ### Elementary steps -/

theorem concur_context : Concur G G.Holds context context := .of_settled fun s hs hwithin => .ok (.refl s.context) hwithin hs

theorem concur_options : ConcurAt G options options := concur_context.bind fun _ _ => ConcurAt.pure _

/-- A place, and a step further. -/
def Near (R : Route → Prop) (route : Route) : Prop := R route ∧ ∀ item, R (route ++ [item])

theorem concur_route : Concur G (Near R) route route :=
  concur_context.bind fun _ hc => Concur.pure ⟨G.here hc, fun item => G.next item hc⟩

/-- A failure of the place where it is met. -/
theorem concur_throw_here {failure : Route → Failure} (h : ∀ r, (failure r).routes = [r]) :
    Concur G P (do throw (failure (← route))) (do throw (failure (← route))) := by
  refine concur_route.bind fun r hr => .throw ?_
  rw [Failure.Within, h]
  exact List.forall_mem_singleton.mpr hr.1

theorem concur_warn (message : String) : ConcurAt G (warn message) (warn message) :=
  .of_settled fun _ hs hwithin => .ok ⟨rfl, rfl, rfl⟩ (hwithin.warn (G.here hs) message) trivial

theorem concur_takeWarnings (hd : d.Within R) : ConcurAt G (takeWarnings d) (takeWarnings d) :=
  .of_settled fun _ _ hwithin => .ok ⟨rfl, rfl, rfl⟩ (hwithin.takeWarnings hd) trivial

theorem concur_collectAll (hfs : AllWithin R fs) : ConcurAt G (collectAll fs) (collectAll fs) := by
  refine .of_settled fun s _ hwithin => ?_
  obtain ⟨hd, herror⟩ := hwithin.collectAll hfs
  have hat := Context.at_collectAll fs s.context
  rw [collectAll, outcome_ofContext]
  generalize s.context.collectAll fs = x at hd herror hat ⊢
  obtain ⟨g | _, d⟩ := x
  · exact .error hat hd (herror g rfl)
  · exact .ok hat hd trivial

theorem concur_collect (hf : f.Within R) : ConcurAt G (collect f) (collect f) := by
  rw [collect_eq_collectAll]
  exact concur_collectAll (Failure.allWithin_singleton.mpr hf)

theorem concur_absorb (hd : d.Within R) : ConcurAt G (absorb d) (absorb d) := by
  have hseq : absorb d = takeWarnings d >>= fun _ => collectAll d.failures := rfl
  rw [hseq]
  exact (concur_takeWarnings hd).bind fun _ => concur_collectAll hd.failures

theorem concur_called (draw : Calls → α × Calls) : ConcurAt G (Schema.called draw) (Schema.called draw) :=
  .of_settled fun _ _ hwithin => .ok ⟨rfl, rfl, rfl⟩ hwithin trivial

/-! ### Children -/

/-- Only a step that is not too deep leads to another ground, but it may be reported even if it is. -/
theorem concur_enter (hopens : G.Opens H) (item : RouteItem) : Concur G H.Fresh (enter item) (enter item) := by
  rw [enter_eq]
  refine concur_context.bind fun c hc => ?_
  cases hchild : c.enter item with
  | ok d =>
    refine Concur.pure ⟨hopens hc hchild, ?_⟩
    obtain ⟨-, rfl⟩ := Context.enter_eq_ok hchild
    exact Context.within_of_clean rfl rfl
  | error f =>
    refine .throw ?_
    unfold Context.enter at hchild
    split at hchild
    · cases hchild
      exact List.forall_mem_singleton.mpr (G.next item hc)
    · cases hchild

/-- What an attempt gives: failures within reach, and a context at a place of the ground. -/
structure Tested (H : Ground R) (x : Except (List Failure) α × Context) : Prop where
  failures : ∀ fs, x.1 = .error fs → AllWithin R fs
  fresh : H.Fresh x.2

theorem Settled.tested {x : Except Failure α × ParseState} (h : Settled R P c x) (hc : H.Holds c) : Tested H (attempted x) := by
  cases h with
  | ok hat hwithin _ =>
    have hholds := H.of_at hc hat
    simp only [attempted]
    split
    · refine ⟨?_, hholds, hwithin⟩
      rintro _ ⟨⟩
    · refine ⟨?_, H.of_at hholds ⟨rfl, rfl, rfl⟩, hwithin.cleared⟩
      rintro _ ⟨⟩
      exact hwithin.failures
  | error hat hwithin hf =>
    refine ⟨?_, H.of_at (H.of_at hc hat) ⟨rfl, rfl, rfl⟩, hwithin.cleared⟩
    rintro _ ⟨⟩
    exact hwithin.failures.append (Failure.allWithin_singleton.mpr hf)

theorem Concur.attempt (h : Concur H P p q) (hc : H.Fresh c) : Concur G (Tested H) (attempt c p) (attempt c q) := by
  intro s _ hwithin
  obtain ⟨heq, hsettled⟩ := h ⟨c, s.calls⟩ hc.holds hc.within
  rw [outcome_attempt, outcome_attempt, ← heq]
  exact ⟨rfl, .ok (.refl s.context) hwithin (hsettled.tested hc.holds)⟩

theorem Concur.descend (h : Concur H P p q) (hc : H.Fresh c) : Concur G P (p.descend c) (q.descend c) := by
  intro s hs hwithin
  obtain ⟨heq, hsettled⟩ := h ⟨c, s.calls⟩ hc.holds hc.within
  unfold Parse.descend
  rw [outcome_bind_of_ok (outcome_within c p s), outcome_bind_of_ok (outcome_within c q s), ← heq]
  generalize p.outcome ⟨c, s.calls⟩ = x at hsettled ⊢
  cases hsettled with
  | ok _ hwithin' ha =>
    exact (concur_absorb hwithin').bind (fun _ => Concur.pure ha) ⟨s.context, _⟩ hs hwithin
  | error _ hwithin' hf =>
    exact (concur_absorb hwithin').bind (fun _ => .throw hf) ⟨s.context, _⟩ hs hwithin

theorem Concur.recover {a : α} (h : Concur G P p q) (ha : P a) : Concur G P (p.recover a) (q.recover a) := by
  intro s hs hwithin
  obtain ⟨heq, hsettled⟩ := h s hs hwithin
  unfold Parse.recover
  rw [outcome_tryCatch, outcome_tryCatch, ← heq]
  generalize p.outcome s = x at hsettled ⊢
  cases hsettled with
  | ok hat hwithin' hb => exact ⟨rfl, .ok hat hwithin' hb⟩
  | @error f t hat hwithin' hf =>
    obtain ⟨heq', hsettled'⟩ := (concur_collect hf).bind (fun _ => Concur.pure ha) t (G.of_at hs hat) hwithin'
    exact ⟨heq', hsettled'.after hat⟩

end Parse

end Conform

import Conform.Proofs.Ground.Schema

/-! Routes and depths. A context is as deep as its route is long, and no deeper than was allowed where it was entered.
    Whatever a run finds in it goes on from its route, and at most one item further than the greatest limit in force:
    that item is of a step which was refused. -/

namespace Conform

open Parse

namespace Options

/-- Options under which no greater depth comes into force than some bound, if there was none before. -/
def KeepsDepth (most : Nat) (o : Options) : Prop := ∀ p : Options, p.depthLimit ≤ most → (p.merge o).depthLimit ≤ most

/-- Options that do not speak of depths keep any bound. -/
theorem keepsDepth_of_silent {o : Options} (hmerges : o.overriding = false) (hsilent : o.maxDepth = none) (most : Nat) :
    o.KeepsDepth most := by
  intro p hp
  rw [depthLimit_merge, hmerges, hsilent]
  exact hp

end Options

namespace Context

/-- A context that is reached from a root by steps and attempts, whatever was found by then, along with the limit on
    depth that was in force when it was entered. -/
inductive Reached : Nat → Context → Prop
  | root (o : Options) : Reached o.depthLimit (.root o)
  | enter {limit : Nat} {c d : Context} {item : RouteItem} :
    Reached limit c → c.enter item = .ok d → Reached c.options.depthLimit d
  | speculate {limit : Nat} {c : Context} : Reached limit c → Reached limit c.speculate
  | speculateWith {limit : Nat} {c : Context} (o : Options) : Reached limit c → Reached limit (c.speculateWith o)
  | found {limit : Nat} {c d : Context} : Reached limit c → c.At d → Reached limit d

variable {limit : Nat} {c : Context}

theorem Reached.depth_eq (h : Reached limit c) : c.depth = c.route.length := by
  induction h with
  | root => rfl
  | enter _ hd ih =>
    obtain ⟨-, rfl⟩ := enter_eq_ok hd
    rw [List.length_append, List.length_singleton, ih]
  | speculate _ ih | speculateWith _ _ ih => exact ih
  | found _ hat ih => rw [← hat.depth, ← hat.route, ih]

theorem Reached.depth_le (h : Reached limit c) : c.depth ≤ limit := by
  induction h with
  | root => exact Nat.zero_le _
  | enter _ hd =>
    obtain ⟨hle, rfl⟩ := enter_eq_ok hd
    exact hle
  | speculate _ ih | speculateWith _ _ ih => exact ih
  | found _ hat ih => exact hat.depth ▸ ih

/-- A route of something that a context has found. -/
def Notes (c : Context) (route : Route) : Prop :=
  route ∈ Failure.routesAll c.failures ∨ ∃ w ∈ c.warnings, w.route = route

theorem within_notes (c : Context) (R : Route → Prop) : c.Within fun route => c.Notes route ∨ R route :=
  ⟨fun _ h => .inl (.inl h), fun w hw => .inl (.inr ⟨w, hw, rfl⟩)⟩

end Context

namespace Catalog

/-- A bound on the depths that may be in force from a context on, entered under some limit. -/
structure Bounds (cat : Catalog) (limit : Nat) (c : Context) (most : Nat) : Prop where
  entered : limit ≤ most
  inForce : c.options.depthLimit ≤ most
  schemas : ∀ s ∈ cat.schemas, s.options.KeepsDepth most

/-- A route that goes on from a context, at most one item further than the depths that may be in force. -/
def Extends (cat : Catalog) (limit : Nat) (c : Context) (route : Route) : Prop :=
  c.route <+: route ∧ ∀ most, cat.Bounds limit c most → route.length ≤ most + 1

variable {cat : Catalog} {limit : Nat} {c : Context}

/-- The places at which a run may be that begins in a context. -/
def region (cat : Catalog) (limit : Nat) (c : Context) : Ground fun route => c.Notes route ∨ cat.Extends limit c route where
  Holds d := c.route <+: d.route ∧ d.depth = d.route.length ∧
    ∀ most, cat.Bounds limit c most → d.depth ≤ most ∧ d.options.depthLimit ≤ most
  of_at hd hat := by rwa [← hat.options, ← hat.route, ← hat.depth]
  here := by
    rintro d ⟨hroute, hdepth, hbounds⟩
    refine .inr ⟨hroute, fun most hmost => ?_⟩
    exact Nat.le_succ_of_le (hdepth ▸ (hbounds most hmost).1)
  next := by
    rintro d item ⟨hroute, hdepth, hbounds⟩
    refine .inr ⟨hroute.trans (List.prefix_append _ _), fun most hmost => ?_⟩
    rw [List.length_append, List.length_singleton]
    exact Nat.succ_le_succ (hdepth ▸ (hbounds most hmost).1)
  probe := by
    rintro d ⟨hroute, hdepth, hbounds⟩
    exact ⟨hroute, hdepth, hbounds⟩

theorem region_opens : (cat.region limit c).Opens (cat.region limit c) := by
  rintro d e item ⟨hroute, hdepth, hbounds⟩ hstep
  obtain ⟨hle, rfl⟩ := Context.enter_eq_ok hstep
  refine ⟨hroute.trans (List.prefix_append _ _), ?_, fun most hmost => ?_⟩
  · rw [List.length_append, List.length_singleton, hdepth]
  · obtain ⟨-, hlimit⟩ := hbounds most hmost
    exact ⟨Nat.le_trans hle hlimit, hlimit⟩

theorem region_merge {s : Schema} (hs : s ∈ cat.schemas) {d : Context} (hd : (cat.region limit c).Holds d) :
    (cat.region limit c).Holds (d.speculateWith s.options) := by
  obtain ⟨hroute, hdepth, hbounds⟩ := hd
  refine ⟨hroute, hdepth, fun most hmost => ?_⟩
  obtain ⟨hle, hlimit⟩ := hbounds most hmost
  exact ⟨hle, hmost.schemas s hs _ hlimit⟩

theorem region_self (h : c.Reached limit) : (cat.region limit c).Holds c :=
  ⟨List.prefix_refl _, h.depth_eq, fun _ hmost => ⟨Nat.le_trans h.depth_le hmost.entered, hmost.inForce⟩⟩

theorem concur_entities (o : Options) :
    (cat.entities o).Concur (cat.region limit c) (cat.entities o) :=
  concur_entitiesWithin region_opens (fun _ hs _ => region_merge hs) _

/-- A context that was reached is as deep as its route is long, and no deeper than the limit that was in force when it
    was entered. What a rule or a schema finds in it, errors and those of branches and warnings, is found there or
    further on, and at most one item beyond the greatest limit that may be in force; besides there is only what the
    context had found before, and that is nothing after a step or an attempt. -/
theorem settled_of_reached (h : c.Reached limit) (calls : Calls) :
    c.depth = c.route.length ∧ c.depth ≤ limit ∧
      (∀ (r : Rule) (v : Value), Settled (fun route => c.Notes route ∨ cat.Extends limit c route) (fun _ => True) c
        ((cat.readBy r v).outcome ⟨c, calls⟩)) ∧
      ∀ (s : Schema) (v : Value), Settled (fun route => c.Notes route ∨ cat.Extends limit c route) (fun _ => True) c
        ((cat.readRecord s v).outcome ⟨c, calls⟩) := by
  refine ⟨h.depth_eq, h.depth_le, fun r v => ?_, fun s v => ?_⟩
  · have hread : ConcurAt (cat.region limit c) (cat.readBy r v) (cat.readBy r v) :=
      concur_options.bind fun o => (Reading.concur_reading region_opens (concur_entities o) r).read v
    exact (hread ⟨c, calls⟩ (region_self h) (c.within_notes _)).2
  · have hread : ConcurAt (cat.region limit c) (cat.readRecord s v) (cat.readRecord s v) :=
      concur_options.bind fun o => Schema.concur_readRecord region_opens region_opens (concur_entities o) v
    exact (hread ⟨c, calls⟩ (region_self h) (c.within_notes _)).2

/-- An absent field two steps from the root is reported there, and a step beyond the limit one item further. -/
theorem settled_of_reached_line :
    let line : Schema := ⟨"Line", [{ name := "tags", rule := .listOf (.listOf .any) }, { name := "id", rule := .of .int }], {}⟩
    let cat : Catalog := { schemas := [line] }
    let c : Context := ⟨{ collectErrors := some true, maxDepth := some 2 }, [.key "lines"], 1, [], []⟩
    let run := (cat.readBy (.of (.entity 0 "Line")) (.map [(.str "tags", .list [.list [.int 1]])])).outcome ⟨c, Calls.none⟩
    c.Reached 2 ∧ cat.Bounds 2 c 2 ∧
      Failure.routesAll run.2.context.failures = [[.key "lines", .key "tags", .index 0], [.key "lines"]] ∧
      Settled (fun route => c.Notes route ∨ cat.Extends 2 c route) (fun _ => True) c run := by
  intro line cat c run
  have hreached : c.Reached 2 := by
    have hstep : (Context.root { collectErrors := some true, maxDepth := some 2 }).enter (.key "lines") = .ok c := rfl
    exact .enter (.root _) hstep
  have hbounds : cat.Bounds 2 c 2 := by
    refine ⟨Nat.le_refl 2, Nat.le_refl 2, List.forall_mem_singleton.mpr ?_⟩
    exact Options.keepsDepth_of_silent rfl rfl 2
  exact ⟨hreached, hbounds, by decide +kernel, (settled_of_reached hreached Calls.none).2.2.1 _ _⟩

end Catalog

end Conform

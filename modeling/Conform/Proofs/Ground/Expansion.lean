import Conform.Proofs.Ground.Schema

/-! Expansions. A rule that leads to a schema is expanded to the rules of its fields, which may lead back to it. Each
    expansion within another is at least one step deeper, so there are no more of them, one within another, than the
    greatest depth that was in force on the way, and one: an alarm behind these is never raised. So whatever would
    follow behind the budget does not matter, and rules read as if there were none. -/

namespace Conform

open Parse

namespace Catalog

variable {c : Catalog} {o : Options} {n : Nat}

/-! ### Greatest depths -/

theorem greatestDepth_le_iff : c.greatestDepth o ≤ n ↔ o.depthLimit ≤ n ∧ ∀ s ∈ c.schemas, s.options.depthLimit ≤ n := by
  suffices h : ∀ (schemas : List Schema) (depth : Nat),
      schemas.foldl (fun depth s => max depth s.options.depthLimit) depth ≤ n ↔
        depth ≤ n ∧ ∀ s ∈ schemas, s.options.depthLimit ≤ n from h c.schemas o.depthLimit
  intro schemas
  induction schemas with
  | nil => simp
  | cons s rest ih =>
    intro depth
    rw [List.foldl_cons, ih, Nat.max_le, List.forall_mem_cons, and_assoc]

theorem depthLimit_le_greatestDepth (c : Catalog) (o : Options) : o.depthLimit ≤ c.greatestDepth o :=
  (greatestDepth_le_iff.mp (Nat.le_refl _)).1

theorem schema_le_greatestDepth {s : Schema} (h : s ∈ c.schemas) (o : Options) :
    s.options.depthLimit ≤ c.greatestDepth o :=
  (greatestDepth_le_iff.mp (Nat.le_refl _)).2 s h

/-! ### Expansions under watch -/

/-- Entities that count the expansions above, one within another, and keep the greatest depth that was in force by
    then. The alarm takes the place of an expansion if there were more of them above than that depth. -/
def watched (c : Catalog) (alarm : Schema → Entity) : (budget above greatest : Nat) → Entities
  | 0, _, _ => c.lookup fun s => .entity (alarm s)
  | budget + 1, above, greatest => c.lookup fun s => .entity <|
    if above ≤ greatest then
      ⟨s.options, fun v => do
        s.readRecord (c.watched alarm budget (above + 1) (max greatest (← Parse.options).depthLimit)) v⟩
    else alarm s

/-- Entities without a budget: each reads its fields by entities as they are known under the options in force then. -/
def unrolled (c : Catalog) : Entities := c.lookup fun s => .entity ⟨s.options, c.readRecord s⟩

/-- The places below so many expansions, up to the greatest depth that was in force by then. -/
def below (above greatest : Nat) : Ground fun _ => True where
  Holds d := above ≤ d.depth ∧ above ≤ greatest ∧ d.options.depthLimit ≤ greatest
  of_at hd hat := by rwa [← hat.options, ← hat.depth]
  here _ := trivial
  next _ _ := trivial
  probe := id

theorem below_opens {above above' greatest : Nat} (h : above' ≤ above + 1) :
    (below above greatest).Opens (below above' greatest) := by
  rintro d e item ⟨hdepth, -, hlimit⟩ hstep
  obtain ⟨hle, rfl⟩ := Context.enter_eq_ok hstep
  simp only [below]
  omega

/-- The options of a schema do not lead beyond the greatest depth of all. -/
theorem below_merge {above most : Nat} {s : Schema} (hs : s.options.depthLimit ≤ most) {d : Context}
    (hd : (below above most).Holds d) : (below above most).Holds (d.speculateWith s.options) := by
  obtain ⟨hdepth, habove, hlimit⟩ := hd
  refine ⟨hdepth, habove, ?_⟩
  show (d.options.merge s.options).depthLimit ≤ most
  rw [Options.depthLimit_merge]
  split
  · exact hs
  · exact hlimit

/-- The alarm is never raised below so many expansions if the budget goes beyond the greatest depth of all. -/
theorem concur_watched {alarm : Schema → Entity} {most : Nat} (hschemas : ∀ s ∈ c.schemas, s.options.depthLimit ≤ most)
    (budget : Nat) : ∀ {above greatest budget' : Nat}, greatest ≤ most → most < above + budget → most < above + budget' →
      (c.watched alarm budget above greatest).Concur (below above greatest) (c.entitiesWithin budget') := by
  induction budget with
  | zero =>
    rintro above greatest budget' hgreatest hbudget - d ⟨-, habove, -⟩
    omega
  | succ budget ih =>
    rintro above greatest budget' hgreatest hbudget hbudget' d ⟨-, habove, -⟩ t
    obtain ⟨budget', rfl⟩ : ∃ n, budget' = n + 1 := ⟨budget' - 1, by omega⟩
    rw [watched, entitiesWithin_succ]
    refine concur_lookup (fun s hs => ?_) t
    rw [if_pos habove]
    refine .entity (below above most) rfl ?_ fun v state hstate hwithin => ?_
    · rintro d ⟨hdepth, -, hlimit⟩
      exact below_merge (hschemas s hs) ⟨hdepth, Nat.le_trans habove hgreatest, Nat.le_trans hlimit hgreatest⟩
    -- The next expansions are counted from the depth that is in force where this one begins.
    · obtain ⟨hdepth, -, hlimit⟩ := hstate
      rw [outcome_bind_of_ok (outcome_options state)]
      have hdeepest : max greatest state.context.options.depthLimit ≤ most := Nat.max_le.mpr ⟨hgreatest, hlimit⟩
      have hnext : (c.watched alarm budget (above + 1) (max greatest state.context.options.depthLimit)).Concur
          (below (above + 1) _) (c.entitiesWithin budget') := ih hdeepest (by omega) (by omega)
      exact Schema.concur_readRecord (G := below above _) (below_opens (Nat.le_refl _)) (below_opens (Nat.le_succ _)) hnext v
        state ⟨hdepth, Nat.le_trans habove (Nat.le_max_left _ _), Nat.le_max_right _ _⟩ hwithin

/-- So it is where a schema begins, under the options of the place. -/
theorem concur_readRecord_watched (alarm : Schema → Entity) {budget budget' : Nat} (s : Schema) (v : Value)
    (state : ParseState) (hbudget : c.greatestDepth state.context.options ≤ budget)
    (hbudget' : c.greatestDepth state.context.options ≤ budget') :
    (s.readRecord (c.watched alarm budget 1 state.context.options.depthLimit) v).outcome state =
        (s.readRecord (c.entitiesWithin budget') v).outcome state ∧
      Settled (fun _ => True) (fun _ => True) state.context
        ((s.readRecord (c.watched alarm budget 1 state.context.options.depthLimit) v).outcome state) := by
  have hnext : (c.watched alarm budget 1 state.context.options.depthLimit).Concur (below 1 state.context.options.depthLimit)
      (c.entitiesWithin budget') :=
    concur_watched (fun s hs => schema_le_greatestDepth hs state.context.options) budget
      (depthLimit_le_greatestDepth c state.context.options) (by omega) (by omega)
  have hread := Schema.concur_readRecord (G := below 0 state.context.options.depthLimit) (s := s) (below_opens (Nat.le_refl _))
    (below_opens (Nat.le_succ _)) hnext v
  exact hread state ⟨Nat.zero_le _, Nat.zero_le _, Nat.le_refl _⟩ ⟨fun _ _ => trivial, fun _ _ => trivial⟩

theorem concur_unrolled {most budget : Nat} (hschemas : ∀ s ∈ c.schemas, s.options.depthLimit ≤ most)
    (hbudget : most < budget) : c.unrolled.Concur (below 0 most) (c.entitiesWithin budget) := by
  rintro - - t
  obtain ⟨budget, rfl⟩ : ∃ n, budget = n + 1 := ⟨budget - 1, by omega⟩
  rw [unrolled, entitiesWithin_succ]
  refine concur_lookup (fun s hs => ?_) t
  refine .entity (below 0 most) rfl (fun d hd => below_merge (hschemas s hs) hd) fun v state hstate _ => ?_
  -- Both sides have enough of a budget for what may be in force from here on.
  have hdepth : c.greatestDepth state.context.options ≤ most := greatestDepth_le_iff.mpr ⟨hstate.2.2, hschemas⟩
  have hentities := concur_readRecord_watched (fun s => ⟨s.options, fun _ => pure []⟩) s v state
    (Nat.le_refl (c.greatestDepth state.context.options)) (Nat.le_succ _)
  have hwithin := concur_readRecord_watched (fun s => ⟨s.options, fun _ => pure []⟩) s v state
    (Nat.le_refl (c.greatestDepth state.context.options)) (Nat.le_trans hdepth (Nat.le_of_lt_succ hbudget))
  have hread : (c.readRecord s v).outcome state =
      (s.readRecord (c.entitiesWithin (c.greatestDepth state.context.options + 1)) v).outcome state :=
    outcome_bind_of_ok (outcome_options state)
  rw [hread, ← hentities.1]
  exact hwithin

/-- The recursion of rules into schemas ends: however schemas refer to each other, an alarm that is raised when more
    expansions stand one within another than the greatest depth in force by then, and one, is never raised; a schema
    that is read at first is the first of them. So nothing depends on the budget, and readings are those of the
    recursion without one. -/
theorem outcome_watched (c : Catalog) (alarm : Schema → Entity) (more : Nat) (state : ParseState) :
    let o := state.context.options
    let budget := c.greatestDepth o + 1 + more
    (∀ (r : Rule) (v : Value),
        ((r.reading (c.watched alarm budget 0 o.depthLimit)).read v).outcome state = (c.readBy r v).outcome state ∧
        ((r.reading (c.entitiesWithin budget)).read v).outcome state = (c.readBy r v).outcome state ∧
        ((r.reading c.unrolled).read v).outcome state = (c.readBy r v).outcome state) ∧
      ∀ (s : Schema) (v : Value),
        (s.readRecord (c.watched alarm budget 1 o.depthLimit) v).outcome state = (c.readRecord s v).outcome state ∧
        (s.readRecord (c.entitiesWithin budget) v).outcome state = (c.readRecord s v).outcome state ∧
        (s.readRecord c.unrolled v).outcome state = (c.readRecord s v).outcome state := by
  intro o budget
  have hschemas : ∀ s ∈ c.schemas, s.options.depthLimit ≤ c.greatestDepth o := fun s hs => schema_le_greatestDepth hs o
  have hlimit := depthLimit_le_greatestDepth c o
  have hbudget : c.greatestDepth o < budget := Nat.le_add_right _ more
  have hwithin : state.context.Within fun _ => True := ⟨fun _ _ => trivial, fun _ _ => trivial⟩
  have hplace : (below 0 (c.greatestDepth o)).Holds state.context := ⟨Nat.zero_le _, Nat.zero_le _, hlimit⟩
  have hopens : (below 0 (c.greatestDepth o)).Opens (below 0 (c.greatestDepth o)) := below_opens (Nat.zero_le _)
  have hunrolled := concur_unrolled hschemas (Nat.lt_succ_self _)
  refine ⟨fun r v => ?_, fun s v => ?_⟩
  · have hby : (c.readBy r v).outcome state = ((r.reading (c.entities o)).read v).outcome state :=
      outcome_bind_of_ok (outcome_options state)
    -- Every budget beyond the greatest depth gives the reading that is watched, so any two of them give one.
    have hwatched {budget' : Nat} (h : c.greatestDepth o < budget') :
        ((r.reading (c.watched alarm budget 0 o.depthLimit)).read v).outcome state =
          ((r.reading (c.entitiesWithin budget')).read v).outcome state := by
      have hentities : (c.watched alarm budget 0 o.depthLimit).Concur (below 0 o.depthLimit) (c.entitiesWithin budget') :=
        concur_watched hschemas budget hlimit (by omega) (by omega)
      have hread := Reading.concur_reading (below_opens (Nat.zero_le _)) hentities r
      exact (hread.read v state ⟨Nat.zero_le _, Nat.zero_le _, Nat.le_refl _⟩ hwithin).1
    rw [hby]
    refine ⟨hwatched (Nat.lt_succ_self _), ?_, ?_⟩
    · exact (hwatched hbudget).symm.trans (hwatched (Nat.lt_succ_self _))
    · exact ((Reading.concur_reading hopens hunrolled r).read v state hplace hwithin).1
  · have hby : (c.readRecord s v).outcome state = (s.readRecord (c.entities o) v).outcome state :=
      outcome_bind_of_ok (outcome_options state)
    have hwatched {budget' : Nat} (h : c.greatestDepth o ≤ budget') :=
      (concur_readRecord_watched (c := c) alarm s v state (Nat.le_of_lt hbudget) h).1
    rw [hby]
    refine ⟨hwatched (Nat.le_succ _), ?_, ?_⟩
    · exact (hwatched (Nat.le_of_lt hbudget)).symm.trans (hwatched (Nat.le_succ _))
    · exact (Schema.concur_readRecord hopens hopens hunrolled v state hplace hwithin).1

/-- A node within a node takes one expansion more than the depth allowed, and one above them raises the alarm. -/
example :
    let node : Schema := ⟨"Node", [{ name := "next", rule := .of (.entity 0 "Node"), required := some (.flag false) }], {}⟩
    let alarm (s : Schema) : Entity := ⟨s.options, fun v => throw (.negated [] v)⟩
    let run (above : Nat) :=
      (((Rule.of (.entity 0 "Node")).reading (watched { schemas := [node] } alarm 2 above 1)).read
        (.map [(.str "next", .map [])])).outcome ⟨.root { maxDepth := some 1 }, Calls.none⟩
    (run 0).1.isOk = true ∧ (run 1).1.isOk = false := by decide +kernel

end Catalog

end Conform

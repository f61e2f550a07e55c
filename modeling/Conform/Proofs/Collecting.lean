import Conform.Conformance
import Conform.Proofs.Coupling.Success

/-! Collecting failures. Where failures are collected, a parse goes on behind them and says all of them at the
    end; where they are not, it ends with the first. Neither changes what is accepted, nor what is made of
    it: only the warnings may differ. -/

namespace Conform

/-- A schema whose defaults are the same whenever they are made. -/
def Schema.Pure (s : Schema) : Prop := ∀ f ∈ s.fields, ∀ d ∈ f.default, d.Pure

/-- Of the options only the search decides which keys belong to which field. -/
theorem Schema.matchKeys_congr (s : Schema) {o p : Options} (h : o.dataFirstSearch = p.dataFirstSearch)
    (input : List String) : s.matchKeys o input = s.matchKeys p input := by
  unfold matchKeys prefersInput
  rw [h]

theorem Schema.matchKeys_of_withoutCollecting (s : Schema) {o p : Options}
    (h : o.withoutCollecting = p.withoutCollecting) (input : List String) : s.matchKeys o input = s.matchKeys p input :=
  s.matchKeys_congr (show o.withoutCollecting.dataFirstSearch = p.withoutCollecting.dataFirstSearch by rw [h]) input

/-- A schema of pure defaults accepts the same, whether or not failures are collected. -/
theorem Schema.Pure.suits_success {s : Schema} (h : s.Pure) : Coupling.success.Suits s where
  hits hop _ name := by rw [s.matchKeys_of_withoutCollecting hop]
  excess hop _ := by rw [s.matchKeys_of_withoutCollecting hop]
  policy o p hop :=
    show o.withoutCollecting.excessPolicy = p.withoutCollecting.excessPolicy from congrArg Options.excessPolicy hop
  steady f hf o force calls calls' := Field.produce_fst_of_pure (h f hf) o force calls calls'

namespace Parse

variable {α : Type} {p q : Parse α} {o o' : Options} {calls calls' : Calls} {a : α}

/-- A failure that ended a parse is raised, whatever else was recorded. -/
theorem outcome_raised (f : Failure) (s : ParseState) : ∃ g t, (raised f : Parse α).outcome s = (.error g, t) := by
  rw [raised, outcome_ofContext]
  split
  · exact ⟨_, _, rfl⟩
  · exact ⟨_, _, rfl⟩

/-- A parse succeeds at the root if and only if it accepts. -/
theorem atRoot_concluded_eq_ok {ws : List Warning} :
    (atRoot o calls p.concluded).1 = .ok (a, ws) ↔
      ∃ t, Accepts p ⟨.root o, calls⟩ a t ∧ t.context.warnings = ws := by
  unfold atRoot concluded Accepts
  rcases hp : p.outcome ⟨.root o, calls⟩ with ⟨f | b, t⟩
  · obtain ⟨g, u, hraised⟩ := outcome_raised (α := α) f t
    have hcaught : (tryCatch p raised).outcome ⟨.root o, calls⟩ = (.error g, u) := by
      rw [outcome_tryCatch, hp]
      exact hraised
    rw [outcome_bind_of_error hcaught]
    simp
  · have hcaught : (tryCatch p raised).outcome ⟨.root o, calls⟩ = (.ok b, t) := by rw [outcome_tryCatch, hp]
    rw [outcome_bind_of_ok hcaught]
    by_cases h : t.context.failures = []
    · rw [outcome_bind_of_ok (outcome_finish_of_clean h)]
      simp only [outcome_pure, Except.ok.injEq, Prod.mk.injEq]
      constructor
      · rintro ⟨rfl, rfl⟩
        exact ⟨t, ⟨⟨rfl, rfl⟩, h⟩, rfl⟩
      · rintro ⟨_, ⟨⟨rfl, rfl⟩, -⟩, hws⟩
        exact ⟨rfl, hws⟩
    · rw [outcome_bind_of_error (outcome_finish_of_failures h)]
      constructor
      · intro hok
        cases hok
      · rintro ⟨_, ⟨hok, hclean⟩, -⟩
        cases hok
        exact absurd hclean h

/-- A value without its warnings. -/
theorem atRoot_value_eq_ok :
    (atRoot o calls do pure (← p.concluded).1).1 = .ok a ↔ ∃ ws, (atRoot o calls p.concluded).1 = .ok (a, ws) := by
  unfold atRoot
  simp only [outcome_bind]
  rcases (p.concluded).outcome ⟨.root o, calls⟩ with ⟨f | ⟨b, ws⟩, t⟩
  · simp
  · simp

/-- A parse that raises what it has recorded, and gives nothing but its value. -/
theorem atRoot_finished_eq_ok :
    (atRoot o calls do let b ← p; let _ ← finish; pure b).1 = .ok a ↔ ∃ t, Accepts p ⟨.root o, calls⟩ a t := by
  unfold atRoot Accepts
  rcases hp : p.outcome ⟨.root o, calls⟩ with ⟨f | b, t⟩
  · rw [outcome_bind_of_error hp]
    simp
  · rw [outcome_bind_of_ok hp]
    by_cases h : t.context.failures = []
    · rw [outcome_bind_of_ok (outcome_finish_of_clean h)]
      simp [h]
    · rw [outcome_bind_of_error (outcome_finish_of_failures h)]
      simp [h]

/-- Parses that accept the same succeed alike at the root. -/
theorem atRoot_iff_of_success (hop : o.withoutCollecting = o'.withoutCollecting)
    (h : Coupling.success.Rel Eq p q) :
    (∃ ws, (atRoot o calls p.concluded).1 = .ok (a, ws)) ↔ ∃ ws, (atRoot o' calls' q.concluded).1 = .ok (a, ws) := by
  have hclean : Clean ⟨.root o, calls⟩ ⟨.root o', calls'⟩ := ⟨⟨hop, rfl, rfl⟩, rfl, rfl⟩
  simp only [atRoot_concluded_eq_ok]
  constructor
  · rintro ⟨_, t, haccepts, -⟩
    obtain ⟨b, t', hb, rfl⟩ := h.follows _ _ hclean a t haccepts
    exact ⟨_, t', hb, rfl⟩
  · rintro ⟨_, t, haccepts, -⟩
    obtain ⟨b, t', hb, rfl⟩ := h.followed _ _ hclean.symm a t haccepts
    exact ⟨_, t', hb, rfl⟩

/-- At the root, the options are those of the whole parse. -/
theorem atRoot_options {β : Type} (k : Options → Parse β) :
    atRoot o calls (Parse.options >>= k) = atRoot o calls (k o) := by
  unfold atRoot
  rw [outcome_bind_of_ok (outcome_options _)]
  rfl

end Parse

namespace Catalog

/-- A rule succeeds where its reading accepts the value at the root. -/
theorem apply_eq_ok_iff {c : Catalog} {r : Rule} {v w : Value} {o : Options} {calls : Calls} :
    (c.apply r v o calls).1 = .ok w ↔ ∃ t, Parse.Accepts ((r.reading (c.entities o)).read v) ⟨.root o, calls⟩ w t := by
  unfold apply
  rw [Parse.atRoot_value_eq_ok]
  simp only [Parse.atRoot_concluded_eq_ok]
  unfold Parse.Accepts readBy
  rw [Parse.outcome_bind_of_ok (Parse.outcome_options _)]
  constructor
  · rintro ⟨ws, t, haccepts, -⟩
    exact ⟨t, haccepts⟩
  · rintro ⟨t, haccepts⟩
    exact ⟨_, t, haccepts, rfl⟩

/-- Whether failures are collected, and how many, never changes what a rule or a schema accepts, nor the value
    or the record that it makes of it. -/
theorem accepts_iff_of_withoutCollecting {c : Catalog} (hc : ∀ s ∈ c.schemas, s.Pure) {o o' : Options}
    (h : o.withoutCollecting = o'.withoutCollecting) (calls calls' : Calls) :
    (∀ r v w, (c.apply r v o calls).1 = .ok w ↔ (c.apply r v o' calls').1 = .ok w) ∧
      ∀ s : Schema, s.Pure →
        (∀ v record, (∃ ws, (c.parse s v o calls).1 = .ok (record, ws)) ↔
          ∃ ws, (c.parse s v o' calls').1 = .ok (record, ws)) ∧
        ∀ current changes record, (c.update s current changes o calls).1 = .ok record ↔
          (c.update s current changes o' calls').1 = .ok record := by
  have hsuits : ∀ s ∈ c.schemas, Coupling.success.Suits s := fun s hs => (hc s hs).suits_success
  refine ⟨fun r v w => ?_, fun s hs => ?_⟩
  · unfold apply
    rw [Parse.atRoot_value_eq_ok, Parse.atRoot_value_eq_ok]
    exact Parse.atRoot_iff_of_success h (Coupling.rel_readBy hsuits r v)
  · have hmerge : (s.options.merge o).withoutCollecting = (s.options.merge o').withoutCollecting :=
      Options.merge_right_withoutCollecting_congr s.options h
    refine ⟨fun v record => ?_, fun current changes record => ?_⟩
    · exact Parse.atRoot_iff_of_success hmerge (Coupling.rel_catalog_readRecord hsuits hs.suits_success v)
    · unfold update
      rw [Parse.atRoot_options, Parse.atRoot_options, Parse.atRoot_value_eq_ok, Parse.atRoot_value_eq_ok]
      have hentities := Coupling.alike_entities hsuits (o := s.options.merge o) (p := s.options.merge o') hmerge
      exact Parse.atRoot_iff_of_success hmerge (Coupling.rel_readUpdate hentities hs.suits_success current changes)

/-- Up to three failures collected or none, by a schema with a factory. -/
theorem accepts_account :
    let account : Schema :=
      ⟨"Account", [{ name := "id", rule := .of .int, default := some (.factory 0 fun _ => .int 1) }], {}⟩
    let collecting : Options := { collectErrors := some true, maxErrors := some 3 }
    account.Pure ∧ collecting.withoutCollecting = Options.withoutCollecting {} ∧
      ∀ v record, (∃ ws, (parse { schemas := [account] } account v collecting Calls.none).1 = .ok (record, ws)) ↔
        ∃ ws, (parse { schemas := [account] } account v {} Calls.none).1 = .ok (record, ws) := by
  intro account collecting
  have hpure : account.Pure := by
    refine List.forall_mem_singleton.mpr fun d hd => ?_
    cases hd
    exact fun _ _ => rfl
  have hcatalog : ∀ s ∈ [account], s.Pure := List.forall_mem_singleton.mpr hpure
  have haccepts := accepts_iff_of_withoutCollecting (c := { schemas := [account] }) hcatalog
    (show collecting.withoutCollecting = Options.withoutCollecting {} from rfl) Calls.none Calls.none
  exact ⟨hpure, rfl, (haccepts.2 account hpure).1⟩

end Catalog

end Conform

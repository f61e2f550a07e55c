import Conform.Rule

/-! Induction on rules. What holds of a rule as soon as it holds of the rules right inside it holds of every
    rule: those inside are its arguments, the rules of its constraints and the branches of its combinator. -/

namespace Conform

/-- Something holds of all rules of a layer. -/
structure Layer.All {ρ : Type} (P : ρ → Prop) (l : Layer ρ) : Prop where
  args : ∀ r ∈ l.args, P r
  constraints : ∀ c ∈ l.constraints, ∀ r, c.operand = .rule r → P r
  branches : ∀ logic, l.logic = some logic → ∀ r ∈ logic.branches, P r

theorem Layer.All.map_eq {σ : Type} {f g : Rule → σ} {l : Layer Rule} (h : l.All fun r => f r = g r) :
    l.map f = l.map g := by
  obtain ⟨origin, args, constraints, logic, before, after, onError⟩ := l
  obtain ⟨hargs, hconstraints, hbranches⟩ := h
  have hoperands : constraints.map (·.map f) = constraints.map (·.map g) := by
    refine List.map_congr_left fun c hc => ?_
    obtain ⟨keyword, operand, lax⟩ := c
    cases operand with
    | rule r => simp only [Constraint.map, Operand.map, hconstraints _ hc r rfl]
    | value | pattern => rfl
  have hlogic : logic.map (·.map f) = logic.map (·.map g) := by
    cases logic with
    | none => rfl
    | some logic => simp only [Option.map_some, Logic.map, List.map_congr_left (hbranches logic rfl)]
  simp only [Layer.map, List.map_congr_left hargs, hoperands, hlogic]

namespace Rule

variable {P : Rule → Prop}

mutual

theorem induction (step : ∀ l : Layer Rule, l.All P → P (.mk l)) : ∀ r : Rule, P r
  | .mk ⟨origin, args, constraints, logic, before, after, onError⟩ =>
    step ⟨origin, args, constraints, logic, before, after, onError⟩
      ⟨induction_list step args, induction_constraints step constraints, induction_logic step logic⟩

theorem induction_list (step : ∀ l : Layer Rule, l.All P → P (.mk l)) : ∀ rs : List Rule, ∀ r ∈ rs, P r
  | [] => List.forall_mem_nil P
  | r :: rs => List.forall_mem_cons.mpr ⟨induction step r, induction_list step rs⟩

theorem induction_constraints (step : ∀ l : Layer Rule, l.All P → P (.mk l)) :
    ∀ cs : List (Constraint Rule), ∀ c ∈ cs, ∀ r, c.operand = .rule r → P r
  | [] => List.forall_mem_nil fun c : Constraint Rule => ∀ r, c.operand = .rule r → P r
  | ⟨_, operand, _⟩ :: cs =>
    List.forall_mem_cons.mpr ⟨induction_operand step operand, induction_constraints step cs⟩

theorem induction_operand (step : ∀ l : Layer Rule, l.All P → P (.mk l)) :
    ∀ (o : Operand Rule) (r : Rule), o = .rule r → P r
  | .value _, _, h => nomatch h
  | .pattern _, _, h => nomatch h
  | .rule q, _, h => Operand.rule.inj h ▸ induction step q

theorem induction_logic (step : ∀ l : Layer Rule, l.All P → P (.mk l)) :
    ∀ (l : Option (Logic Rule)) (logic : Logic Rule), l = some logic → ∀ r ∈ logic.branches, P r
  | none, _, h => nomatch h
  | some ⟨_, branches⟩, _, h => Option.some.inj h ▸ induction_list step branches

end

end Rule

end Conform

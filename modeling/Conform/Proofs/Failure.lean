import Conform.Failure

/-! Single failures and aggregates. An aggregate counts for the single failures in it, so one without any would
    be a failure that nobody sees; a solid failure has some. What is put together from solid failures is
    solid. -/

namespace Conform.Failure

/-! ### Single failures -/

mutual

/-- What a failure counts for is single. -/
theorem flatten_of_mem_flatten : ∀ {f g : Failure}, g ∈ f.flatten → g.flatten = [g]
  | .aggregate _, _, h => flatten_of_mem_flattenAll h
  | .coercion .., _, h | .constraint .., _, h | .negated .., _, h | .severalMatched .., _, h
  | .noneMatched .., _, h | .absence .., _, h | .aliasConflict .., _, h | .missingDependencies .., _, h
  | .excess .., _, h | .containment .., _, h | .tooDeep .., _, h | .immutable .., _, h => by
    obtain rfl := List.mem_singleton.mp h
    rfl

theorem flatten_of_mem_flattenAll : ∀ {fs : List Failure} {g : Failure}, g ∈ flattenAll fs → g.flatten = [g]
  | _ :: _, _, h => by
    rcases List.mem_append.mp h with h | h
    · exact flatten_of_mem_flatten h
    · exact flatten_of_mem_flattenAll h

end

/-! ### Solid failures -/

/-- A failure that counts for at least one. -/
def Solid (f : Failure) : Prop := f.flatten ≠ []

theorem solid_of_mem_flatten {f g : Failure} (h : g ∈ f.flatten) : g.Solid := by
  rw [Solid, flatten_of_mem_flatten h]
  exact List.cons_ne_nil g []

theorem solid_of_mem_flattenAll {fs : List Failure} {g : Failure} (h : g ∈ flattenAll fs) : g.Solid := by
  rw [Solid, flatten_of_mem_flattenAll h]
  exact List.cons_ne_nil g []

theorem flattenAll_ne_nil {fs : List Failure} (hne : fs ≠ []) (h : ∀ f ∈ fs, f.Solid) : flattenAll fs ≠ [] := by
  cases fs with
  | nil => exact absurd rfl hne
  | cons f rest =>
    rw [flattenAll]
    exact List.append_ne_nil_of_left_ne_nil (h f List.mem_cons_self) _

theorem solid_together {fs : List Failure} (hne : fs ≠ []) (h : ∀ f ∈ fs, f.Solid) : (together fs).Solid := by
  rw [Solid, together, flatten]
  exact flattenAll_ne_nil (flattenAll_ne_nil hne h) fun _ hg => solid_of_mem_flattenAll hg

theorem solid_ofList {fs : List Failure} (hne : fs ≠ []) (h : ∀ f ∈ fs, f.Solid) : (ofList fs).Solid := by
  match fs with
  | [] => exact absurd rfl hne
  | [f] => exact h f List.mem_cons_self
  | f :: g :: rest => exact solid_together hne h

theorem solid_noneMatched (r : Route) (v : Value) (fs : List Failure) : (noneMatched r v fs).Solid :=
  List.cons_ne_nil _ _

end Conform.Failure

import Conform.Proofs.Rule.Elements
import Conform.Proofs.Rule.Meaning
import Conform.Proofs.Value.Equality

/-! Policies for elements. A rule for the items of a list or for the entries of a map keeps, drops or gives back each
    element by its own finding alone: what an element is read as where it is read without a failure, and what the policy
    says where it is not. Only where failures are not passed over does one element decide about the whole. -/

namespace Conform

/-! ### Rules for elements -/

namespace Rule

/-- A rule that converts to a target and reads the elements by its arguments, perhaps with a policy of its own. -/
def under (onError : Option ErrorPolicy) (t : Target) (args : List Rule) : Rule :=
  .mk ⟨some t, args, [], none, none, none, onError⟩

theorem read_under {E : Entities} {t : Target} (hE : E t = .plain) (onError : Option ErrorPolicy) (args : List Rule)
    (v : Value) : ((under onError t args).reading E).read v =
      Reading.converted t v >>= Reading.arguments (args.map (reading E)) onError := by
  rw [Coupling.read_reading, Meaning.readLayer_of_bare rfl rfl rfl]
  change (do
    let v ← Reading.ofOrigin E t v
    let v ← Reading.arguments (args.map (reading E)) onError v
    Reading.limited [] v) = _
  simp only [Reading.limited_nil, bind_pure, Reading.ofOrigin, hE]

end Rule

namespace Reading

open Parse

variable {s u : ParseState} {r key value : Reading}

theorem accepts_converted {t : Target} {v w : Value} (h : Accepts (converted t v) s w u) :
    s.context.options.convert v t = .ok w ∧ u = s := by
  rw [converted, accepts_options] at h
  cases hconvert : s.context.options.convert v t with
  | ok w' =>
    rw [hconvert] at h
    cases h.1
    exact ⟨rfl, rfl⟩
  | error cause =>
    rw [hconvert] at h
    obtain ⟨_, _, -, hthrown⟩ := outcome_bind_eq_ok h.1
    cases hthrown

/-! ### Runs over the elements of a value -/

/-- The items of a list are read under the policy of the rule, or else under that in force. -/
theorem comesTo_arguments_list (hr : ∀ v, Parse.Sound (r.read v)) (onError : Option ErrorPolicy) (xs : List Value)
    (hdepth : s.context.depth + 1 ≤ s.context.options.depthLimit) :
    let policy := onError.getD s.context.options.itemPolicy
    let fs := itemFindings r s.context xs s.calls
    ∃ calls, ComesTo (arguments [r] onError (.list xs)) s (.list (fs.filterMap (·.kept? policy)))
      (fs.flatMap (·.notes policy)) (fs.flatMap (·.raised policy)) calls := by
  have hrs : ∀ q ∈ List.replicate xs.length r, ∀ v, Parse.Sound (q.read v) :=
    fun q hq => (List.eq_of_mem_replicate hq).symm ▸ hr
  obtain ⟨calls, h⟩ := comesTo_positions hrs (onError.getD s.context.options.itemPolicy) xs 0 s hdepth
  rw [← items_eq_positions] at h
  exact ⟨calls, (h.map Value.list).of_step (outcome_bind_of_ok (outcome_options s)) rfl⟩

theorem comesTo_arguments_map (hkey : ∀ v, Parse.Sound (key.read v)) (hvalue : ∀ v, Parse.Sound (value.read v))
    (onError : Option ErrorPolicy) (es : List (Value × Value)) (hdepth : s.context.depth + 1 ≤ s.context.options.depthLimit) :
    let keyPolicy := onError.getD s.context.options.keyPolicy
    let valuePolicy := onError.getD s.context.options.valuePolicy
    let fs := entryFindings key value keyPolicy s.context es s.calls
    ∃ calls, ComesTo (arguments [key, value] onError (.map es)) s
      (.map (Value.entriesOf (fs.filterMap (·.kept? keyPolicy valuePolicy))))
      (fs.flatMap (·.notes keyPolicy valuePolicy)) (fs.flatMap (·.raised keyPolicy valuePolicy)) calls := by
  obtain ⟨calls, h⟩ := comesTo_entries hkey hvalue (onError.getD s.context.options.keyPolicy)
    (onError.getD s.context.options.valuePolicy) es [] s hdepth
  exact ⟨calls, (h.map Value.map).of_step (outcome_bind_of_ok (outcome_options s)) rfl⟩

/-! ### What policies make of elements -/

/-- What a run over the items of a list is to give under a policy. -/
def Itemwise (fs : List Finding) (s : ParseState) (run : Except Failure Value × ParseState) : ErrorPolicy → Prop
  | .exclude =>
    run.1 = .ok (.list (fs.filterMap Finding.parsed?)) ∧ run.2.context = s.context.finding (fs.flatMap (·.notes .exclude)) []
  | .preserve =>
    run.1 = .ok (.list (fs.map fun f => f.parsed?.getD f.raw)) ∧
      run.2.context = s.context.finding (fs.flatMap (·.notes .preserve)) []
  | .throw =>
    ((∃ w, run.1 = .ok w ∧ run.2.context.failures = s.context.failures) ↔ ∀ f ∈ fs, f.parsed?.isSome = true) ∧
      ∀ ws : List Value, fs.map Finding.parsed? = ws.map some →
        run.1 = .ok (.list ws) ∧ run.2.context = s.context.finding (fs.flatMap Finding.warnings) []

/-- What a run over the entries of a map is to give under a policy for the keys and one for the values. -/
structure Entrywise (fs : List EntryFinding) (keyPolicy valuePolicy : ErrorPolicy) (s : ParseState)
    (run : Except Failure Value × ParseState) : Prop where
  succeeds_iff : (∃ w, run.1 = .ok w ∧ run.2.context.failures = s.context.failures) ↔
    ∀ f ∈ fs, f.Passes keyPolicy valuePolicy
  context : (∀ f ∈ fs, f.Passes keyPolicy valuePolicy) →
    run.2.context = s.context.finding (fs.flatMap (·.notes keyPolicy valuePolicy)) []
  value : (∀ f ∈ fs, f.Passes keyPolicy valuePolicy) →
    run.1 = .ok (.map (Value.entriesOf (fs.filterMap (·.kept? keyPolicy valuePolicy))))
  distinct : (∀ f ∈ fs, f.Passes keyPolicy valuePolicy) →
    Value.Apart ((fs.filterMap (·.kept? keyPolicy valuePolicy)).map Prod.fst) →
      run.1 = .ok (.map (fs.filterMap (·.kept? keyPolicy valuePolicy)))

theorem itemwise_of_comesTo {fs : List Finding} {policy : ErrorPolicy} {p : Parse Value} {calls : Calls}
    (hsolid : ∀ f ∈ fs, f.Solid)
    (h : ComesTo p s (.list (fs.filterMap (·.kept? policy))) (fs.flatMap (·.notes policy))
      (fs.flatMap (·.raised policy)) calls) :
    Itemwise fs s (p.outcome s) policy := by
  have hraised : fs.flatMap (·.raised policy) = [] ↔ ∀ f ∈ fs, f.Passes policy :=
    List.flatMap_eq_nil_iff.trans (forall₂_congr fun f hf => Finding.raised_eq_nil_iff (hsolid f hf))
  cases policy with
  | exclude =>
    -- Nothing that fails is on record under a policy that passes over it.
    have hrun := h.of_nil (hraised.mpr fun f _ => nofun)
    simp only [Finding.kept?_exclude] at hrun
    rw [hrun]
    exact ⟨rfl, rfl⟩
  | preserve =>
    have hrun := h.of_nil (hraised.mpr fun f _ => nofun)
    simp only [Finding.kept?_preserve, List.filterMap_eq_map'] at hrun
    rw [hrun]
    exact ⟨rfl, rfl⟩
  | throw =>
    have hall : (∀ f ∈ fs, f.Passes .throw) ↔ ∀ f ∈ fs, f.parsed?.isSome = true :=
      forall₂_congr fun f _ => forall_prop_of_true rfl
    refine ⟨h.succeeds_iff.trans (hraised.trans hall), fun ws hws => ?_⟩
    obtain ⟨hpass, rfl⟩ := Finding.map_parsed?_eq_iff.mp hws
    have hrun := h.of_nil (hraised.mpr (hall.mpr hpass))
    simp only [Finding.kept?_throw, Finding.notes_throw] at hrun
    rw [hrun]
    exact ⟨rfl, rfl⟩

theorem entrywise_of_comesTo {fs : List EntryFinding} {keyPolicy valuePolicy : ErrorPolicy} {p : Parse Value} {calls : Calls}
    (hsolid : ∀ f ∈ fs, f.Solid)
    (h : ComesTo p s (.map (Value.entriesOf (fs.filterMap (·.kept? keyPolicy valuePolicy))))
      (fs.flatMap (·.notes keyPolicy valuePolicy)) (fs.flatMap (·.raised keyPolicy valuePolicy)) calls) :
    Entrywise fs keyPolicy valuePolicy s (p.outcome s) := by
  have hraised : fs.flatMap (·.raised keyPolicy valuePolicy) = [] ↔ ∀ f ∈ fs, f.Passes keyPolicy valuePolicy :=
    List.flatMap_eq_nil_iff.trans (forall₂_congr fun f hf => EntryFinding.raised_eq_nil_iff (hsolid f hf))
  have hrun (hpass : ∀ f ∈ fs, f.Passes keyPolicy valuePolicy) := h.of_nil (hraised.mpr hpass)
  exact {
    succeeds_iff := h.succeeds_iff.trans hraised
    context := fun hpass => by rw [hrun hpass]
    value := fun hpass => by rw [hrun hpass]
    distinct := fun hpass hapart => by rw [hrun hpass, Value.entriesOf_of_apart hapart] }

end Reading

/-! ### Lists and maps by a rule -/

namespace Catalog

variable (c : Catalog) (s : ParseState)

/-- A value that belongs to the target already is read by its elements alone. -/
theorem outcome_readBy_under {t : Target} {v : Value} (ht : t.namesEntity = false) (hexact : t.isExact v = true)
    (onError : Option ErrorPolicy) (args : List Rule) : (c.readBy (.under onError t args) v).outcome s =
      (Reading.arguments (args.map (Rule.reading (c.entities s.context.options))) onError v).outcome s := by
  have hconverted : (Reading.converted t v).outcome s = (.ok v, s) := by
    rw [Reading.converted, Parse.outcome_bind_of_ok (Parse.outcome_options s), Options.convert,
      Registry.convert_of_isExact _ hexact]
    rfl
  rw [readBy, Parse.outcome_bind_of_ok (Parse.outcome_options s), Rule.read_under (c.entities_eq_plain _ t ht),
    Parse.outcome_bind_of_ok hconverted]

theorem sound_reading (r : Rule) (o : Options) (v : Value) : Parse.Sound ((r.reading (c.entities o)).read v) :=
  ((Coupling.alike_reading (Coupling.alike_sound c o) r).read v).left.toSound

/-- A rule for a list or a map does to each element, in every context that allows a step further, exactly what the policy
    says of it. -/
theorem elements_by_policy (onError : Option ErrorPolicy) (hdepth : s.context.depth + 1 ≤ s.context.options.depthLimit) :
    let reading (r : Rule) : Reading := r.reading (c.entities s.context.options)
    (∀ (item : Rule) (xs : List Value),
      let fs := Reading.itemFindings (reading item) s.context xs s.calls
      fs.map Reading.Finding.raw = xs ∧ Reading.Itemwise fs s
        ((c.readBy (.under onError .list [item]) (.list xs)).outcome s) (onError.getD s.context.options.itemPolicy)) ∧
    ∀ (key value : Rule) (es : List (Value × Value)),
      let keyPolicy := onError.getD s.context.options.keyPolicy
      Reading.Entrywise (Reading.entryFindings (reading key) (reading value) keyPolicy s.context es s.calls) keyPolicy
        (onError.getD s.context.options.valuePolicy) s ((c.readBy (.under onError .map [key, value]) (.map es)).outcome s) := by
  intro reading
  have hsound (r : Rule) (v : Value) : Parse.Sound ((reading r).read v) := c.sound_reading r s.context.options v
  refine ⟨fun item xs => ?_, fun key value es => ?_⟩
  · obtain ⟨calls, hrun⟩ := Reading.comesTo_arguments_list (hsound item) onError xs hdepth
    rw [c.outcome_readBy_under s rfl rfl]
    exact ⟨Reading.raw_itemFindings _ _ xs _,
      Reading.itemwise_of_comesTo (Reading.solid_itemFindings (hsound item) xs s.calls) hrun⟩
  · obtain ⟨calls, hrun⟩ := Reading.comesTo_arguments_map (hsound key) (hsound value) onError es hdepth
    rw [c.outcome_readBy_under s rfl rfl]
    exact Reading.entrywise_of_comesTo (Reading.solid_entryFindings (hsound key) (hsound value) es s.calls) hrun

/-- A text that spells no number is left out of a list, with a warning at its place, and so is the entry of one in a map. -/
theorem elements_by_policy_of_numerals :
    let s : ParseState := ⟨.root {}, Calls.none⟩
    let list := (Catalog.readBy {} (.under (some .exclude) .list [.of .int]) (.list [.str "1", .str "x", .int 3])).outcome s
    let map := (Catalog.readBy {} (.under (some .exclude) .map [.of .str, .of .int])
      (.map [(.str "a", .str "1"), (.str "b", .str "x")])).outcome s
    s.context.depth + 1 ≤ s.context.options.depthLimit ∧ list.1 = .ok (.list [.int 1, .int 3]) ∧
      list.2.context.warnings.map Warning.route = [[.index 1]] ∧ map.1 = .ok (.map [(.str "a", .int 1)]) := by
  intro s list map
  have hdepth : s.context.depth + 1 ≤ s.context.options.depthLimit := by decide
  obtain ⟨hlist, hmap⟩ := elements_by_policy {} s (some .exclude) hdepth
  obtain ⟨-, hitems, hcontext⟩ := hlist (.of .int) [.str "1", .str "x", .int 3]
  have hentries := hmap (.of .str) (.of .int) [(.str "a", .str "1"), (.str "b", .str "x")]
  refine ⟨hdepth, hitems.trans (by with_unfolding_all rfl), ?_, ?_⟩
  · rw [hcontext]
    with_unfolding_all rfl
  · exact (hentries.value fun _ _ => ⟨nofun, fun _ _ => nofun⟩).trans (by with_unfolding_all rfl)

end Catalog

end Conform

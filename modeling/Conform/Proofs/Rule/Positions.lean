import Conform.Proofs.Collecting
import Conform.Proofs.Conversion.Proper
import Conform.Proofs.Rule.Policies

/-! Positions of a tuple. What a rule makes of a tuple stands in the order of the positions, each read by its own rule from
    the item there. Where nothing is dropped there is one item for each rule; a policy that drops what fails drops
    positions, too. A rule without positions leaves the tuple as it is. -/

namespace Conform

open Parse

namespace Reading

variable {rs : List Reading} {us ws vs : List Value} {onError : Option ErrorPolicy} {s t : ParseState} {w : Value}

/-- Items become as many as there are rules by dropping those behind, which may be warned of. -/
theorem fitArity_eq_ok {arity : Nat} (h : (fitArity arity us).outcome s = (.ok vs, t)) :
    arity ≤ us.length ∧ vs = us.take arity ∧ ∃ warnings, t = ⟨s.context.finding warnings [], s.calls⟩ := by
  unfold fitArity at h
  split at h
  next =>
    obtain ⟨_, _, -, h⟩ := outcome_bind_eq_ok h
    cases h
  next hle =>
    refine ⟨Nat.not_lt.mp hle, ?_⟩
    split at h
    next heq =>
      cases h
      exact ⟨(List.take_of_length_le heq.le).symm, [], by rw [Context.finding_nil]⟩
    next hne =>
      rw [outcome_bind_of_ok (outcome_options s)] at h
      split at h
      next =>
        obtain ⟨_, _, -, h⟩ := outcome_bind_eq_ok h
        cases h
      next =>
        cases h
        exact ⟨rfl, _, by rw [Context.finding, List.append_nil]; rfl⟩

/-- What is kept at the positions of a tuple. -/
def Positional (fs : List Finding) (ws : List Value) : ErrorPolicy → Prop
  | .throw => fs.map Finding.parsed? = ws.map some
  | .preserve => ws = fs.map fun f => f.parsed?.getD f.raw
  | .exclude => ws = fs.filterMap Finding.parsed?

variable {fs : List Finding} {policy : ErrorPolicy}

theorem positional_of_passes (h : ∀ f ∈ fs, f.Passes policy) : Positional fs (fs.filterMap (·.kept? policy)) policy := by
  cases policy with
  | throw =>
    simp only [Finding.kept?_throw]
    exact Finding.map_parsed?_eq_iff.mpr ⟨fun f hf => h f hf rfl, rfl⟩
  | exclude =>
    simp only [Finding.kept?_exclude]
    rfl
  | preserve =>
    simp only [Finding.kept?_preserve, List.filterMap_eq_map']
    rfl

/-- There is a value for each position unless some were dropped. -/
theorem Positional.length (h : Positional fs ws policy) : ws.length ≤ fs.length ∧
    (ws.length = fs.length ↔ (policy = .exclude → ∀ f ∈ fs, f.parsed?.isSome = true)) := by
  cases policy with
  | throw =>
    have hlength : ws.length = fs.length := by simpa using (congrArg List.length h).symm
    exact ⟨hlength.le, iff_of_true hlength nofun⟩
  | preserve =>
    have hlength : ws.length = fs.length := by rw [h, List.length_map]
    exact ⟨hlength.le, iff_of_true hlength nofun⟩
  | exclude =>
    rw [h]
    refine ⟨List.length_filterMap_le _ _, List.filterMap_length_eq_length.trans ?_⟩
    exact ⟨fun hall _ => hall, fun hall => hall rfl⟩

/-- A run over the positions that goes through keeps them in line. -/
theorem positional_of_outcome (hrs : ∀ r ∈ rs, ∀ v, Parse.Sound (r.read v))
    (h : (positions policy 0 rs vs).outcome s = (.ok ws, t)) (hclean : t.context.failures = s.context.failures) :
    Positional (positionFindings rs s.context vs s.calls) ws policy := by
  have hempty (hnil : positionFindings rs s.context vs s.calls = []) (hws : ws = []) :
      Positional (positionFindings rs s.context vs s.calls) ws policy := by
    rw [hnil, hws]
    exact positional_of_passes (List.forall_mem_nil _)
  -- The depth is known to allow a step further only once an item is entered.
  match rs, vs with
  | [], _ =>
    cases h
    exact hempty rfl rfl
  | _ :: _, [] =>
    cases h
    exact hempty rfl rfl
  | r :: rest, v :: vs =>
    have hdepth : s.context.depth + 1 ≤ s.context.options.depthLimit := by
      obtain ⟨_, _, hfirst, -⟩ := outcome_bind_eq_ok h
      exact Element.le_of_outcome_element (e := ⟨.index 0, r, v⟩) hfirst
    obtain ⟨calls, hrun⟩ := comesTo_positions hrs policy (v :: vs) 0 s hdepth
    obtain ⟨rfl, rfl⟩ := hrun.of_ok h
    have hnone := (Context.failures_finding_iff _).mp hclean
    refine positional_of_passes fun f hf => ?_
    have hsolid := solid_positionFindings (c := s.context) hrs (v :: vs) s.calls f hf
    exact (Finding.raised_eq_nil_iff hsolid).mp (List.flatMap_eq_nil_iff.mp hnone f hf)

/-- A tuple that a rule reads without a failure holds what is kept at its positions. -/
theorem positional_of_accepts (hne : rs ≠ []) (hrs : ∀ r ∈ rs, ∀ v, Parse.Sound (r.read v)) (hs : s.context.failures = [])
    (h : Accepts (arguments rs onError (.tuple us)) s w t) : ∃ ws, w = .tuple ws ∧ rs.length ≤ us.length ∧
      Positional (positionFindings rs s.context (us.take rs.length) s.calls) ws (onError.getD s.context.options.itemPolicy) := by
  obtain ⟨r, rest, rfl⟩ := List.exists_cons_of_ne_nil hne
  rw [arguments, accepts_options] at h
  obtain ⟨hok, hclean⟩ := h
  obtain ⟨vs, s', hfit, hok⟩ := outcome_bind_eq_ok hok
  obtain ⟨ws, t', hpositions, hok⟩ := outcome_bind_eq_ok hok
  cases hok
  obtain ⟨hlength, rfl, warnings, rfl⟩ := fitArity_eq_ok hfit
  have hline := positional_of_outcome hrs hpositions (hclean.trans (by rw [Context.finding, hs]; rfl))
  rw [positionFindings, findings_finding] at hline
  exact ⟨ws, rfl, hlength, hline⟩

end Reading

/-! ### Tuples by a rule -/

namespace Catalog

variable {c : Catalog} {rs : List Rule} {onError : Option ErrorPolicy} {o : Options} {calls : Calls} {v w : Value}

/-- What the standard converter makes a tuple of is one. -/
theorem kind_of_convert_tuple (hstandard : o.converters.resolve? .tuple = some Converter.toSequence)
    (h : o.convert v .tuple = .ok w) : w.kind = .tuple := by
  have hexact : ∀ u, Target.tuple.isExact u = true → u.kind = .tuple :=
    fun _ hu => (Option.some.inj (beq_iff_eq.mp hu)).symm
  exact Registry.ensures_convert (t := .tuple) hstandard (fun u _ => hexact u)
    (fun _ _ hw => hexact _ (Converter.lands_toSequence _ (.inr (.inl rfl)) hw)) h

/-- What a rule for tuples makes of a value holds, in the order of the positions, what each position's rule makes of the
    item there, or under a policy that preserves the item itself. It has as many items as there are rules, unless a
    policy that excludes dropped some, or there are no rules at all: then the tuple stays as it is. -/
theorem positions_of_apply (h : (c.apply (.under onError .tuple rs) v o calls).1 = .ok w) :
    ∃ u, o.convert v .tuple = .ok u ∧ (o.converters.resolve? .tuple = some Converter.toSequence → u.kind = .tuple) ∧
      (rs = [] → w = u) ∧
      ∀ us, u = .tuple us → rs ≠ [] →
        let policy := onError.getD o.itemPolicy
        let fs := Reading.positionFindings (rs.map (Rule.reading (c.entities o))) (.root o) (us.take rs.length) calls
        ∃ ws, w = .tuple ws ∧ rs.length ≤ us.length ∧ fs.map Reading.Finding.raw = us.take rs.length ∧
          Reading.Positional fs ws policy ∧ ws.length ≤ rs.length ∧
          (ws.length = rs.length ↔ (policy = .exclude → ∀ f ∈ fs, f.parsed?.isSome = true)) := by
  obtain ⟨t, haccepts⟩ := apply_eq_ok_iff.mp h
  have hcoupled : List.Forall₂ (Coupling.sound.Coupled Eq) (rs.map (Rule.reading (c.entities o)))
      (rs.map (Rule.reading (c.entities o))) := by
    rw [List.forall₂_map_left_iff, List.forall₂_map_right_iff, List.forall₂_same]
    exact fun r _ => (Coupling.alike_reading (Coupling.alike_sound c o) r).toCoupled
  have harguments (u : Value) : Sound (Reading.arguments (rs.map (Rule.reading (c.entities o))) onError u) :=
    (Coupling.rel_arguments Value.composed_eq hcoupled onError u).left.toSound
  have hconverted : Sound (Reading.converted .tuple v) := (Coupling.rel_converted (K := Coupling.sound) .tuple v).left.toSound
  rw [Rule.read_under (c.entities_eq_plain o .tuple rfl), accepts_seq hconverted harguments rfl] at haccepts
  obtain ⟨u, s, hu, -, haccepts⟩ := haccepts
  obtain ⟨hconvert, rfl⟩ := Reading.accepts_converted hu
  refine ⟨u, hconvert, fun hstandard => kind_of_convert_tuple hstandard hconvert, ?_, ?_⟩
  · rintro rfl
    have hleft : Reading.arguments [] onError u = options >>= fun _ => pure u := by cases u <;> rfl
    rw [List.map_nil, hleft, accepts_options] at haccepts
    exact ((accepts_pure rfl).mp haccepts).1
  · rintro us rfl hne policy fs
    have hreadings : ∀ r ∈ rs.map (Rule.reading (c.entities o)), ∀ v, Parse.Sound (r.read v) :=
      List.forall_mem_map.mpr fun r _ v => c.sound_reading r o v
    obtain ⟨ws, rfl, hlength, hline⟩ := Reading.positional_of_accepts (List.map_eq_nil_iff.not.mpr hne) hreadings rfl haccepts
    rw [List.length_map] at hlength hline
    -- Items behind the last rule are not read.
    have htaken : (us.take rs.length).length = rs.length := List.length_take_of_le hlength
    have hraw : fs.map Reading.Finding.raw = us.take rs.length :=
      Reading.raw_positionFindings (by rw [htaken, List.length_map]) _ _
    have hcount : fs.length = rs.length := by rw [← List.length_map, hraw, htaken]
    exact ⟨ws, rfl, hlength, hraw, hline, hcount ▸ hline.length⟩

/-- A text that spells no number is preserved at its place, and the number behind it is read at its own. -/
theorem positions_of_preserved :
    let items : List Value := [.str "x", .str "2"]
    let readings := [Rule.of .int, Rule.of .int].map (Rule.reading (Catalog.entities {} {}))
    (Catalog.apply {} (.under (some .preserve) .tuple [.of .int, .of .int]) (.tuple items) {} Calls.none).1 =
        .ok (.tuple [.str "x", .int 2]) ∧
      Reading.Positional (Reading.positionFindings readings (.root {}) items Calls.none) [.str "x", .int 2] .preserve := by
  intro items readings
  have happly : (Catalog.apply {} (.under (some .preserve) .tuple [.of .int, .of .int]) (.tuple items) {} Calls.none).1 =
      .ok (.tuple [.str "x", .int 2]) := by with_unfolding_all rfl
  obtain ⟨u, hu, -, -, hpositions⟩ := positions_of_apply happly
  have hconvert : Options.convert {} (.tuple items) .tuple = .ok (.tuple items) := Registry.convert_of_isExact _ rfl
  obtain rfl := Except.ok.inj (hconvert.symm.trans hu)
  obtain ⟨ws, hws, -, -, hline, -⟩ := hpositions _ rfl (List.cons_ne_nil _ _)
  cases hws
  exact ⟨happly, hline⟩

/-- A policy that excludes drops a position, so that the second item comes to stand in the first place; and where there are
    no rules, nothing is dropped though there are more items than rules. -/
theorem position_dropped :
    (Catalog.apply {} (.under (some .exclude) .tuple [.of .int, .of .int]) (.tuple [.str "x", .int 2]) {} Calls.none).1 =
        .ok (.tuple [.int 2]) ∧
      (Catalog.apply {} (.tupleOf []) (.tuple [.int 1]) {} Calls.none).1 = .ok (.tuple [.int 1]) :=
  ⟨by with_unfolding_all rfl, by with_unfolding_all rfl⟩

end Catalog

end Conform

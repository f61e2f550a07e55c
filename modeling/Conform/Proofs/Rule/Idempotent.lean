import Conform.Proofs.Rule.Conforming

/-! Parsing twice. What a direct rule makes of a value it makes again of what it has made: that belongs to the origin
    already, its elements are made again of themselves, those of a set and the keys of a map stay apart, and the
    constraints are asked the same once more. -/

namespace Conform

/-! ### Elements -/

namespace Meaning

variable {o : Options} {depth : Nat} {m key value : Meaning} {ms : List Meaning} {v w : Value}

/-- A value that a meaning makes of itself. -/
def Remakes (o : Options) (depth : Nat) (m : Meaning) (w : Value) : Prop := element o depth m w = some w

/-- A meaning that makes again what it has made does so with elements. -/
theorem Makes.remakes (h : Makes o depth m w) (hm : ∀ v, m o (depth + 1) v = some w → m o (depth + 1) w = some w) :
    Remakes o depth m w := by
  obtain ⟨v, hv⟩ := h
  obtain ⟨hdeep, hv⟩ := element_eq_some.mp hv
  exact element_eq_some.mpr ⟨hdeep, hm v hv⟩

theorem mapM_of_remakes {vs : List Value} (h : ∀ v ∈ vs, Remakes o depth m v) :
    vs.mapM (element o depth m) = some vs := by
  induction vs with
  | nil => rfl
  | cons v rest ih =>
    obtain ⟨hv, hrest⟩ := List.forall_mem_cons.mp h
    rw [List.mapM_cons, hv, ih hrest]
    rfl

theorem positions_of_remakes {vs : List Value} (h : List.Forall₂ (Remakes o depth) ms vs) :
    positions o depth ms vs = some vs := by
  induction h with
  | nil => rfl
  | cons hv _ ih =>
    rw [positions, hv, ih]
    rfl

theorem entries_of_remakes {es : List (Value × Value)} :
    ∀ {kept : List (Value × Value)}, (∀ e ∈ es, Remakes o depth key e.1 ∧ Remakes o depth value e.2) →
      Value.Apart ((kept ++ es).map Prod.fst) → entries o depth key value kept es = some (kept ++ es) := by
  induction es with
  | nil =>
    intro kept _ _
    rw [List.append_nil]
    rfl
  | cons e rest ih =>
    intro kept h hapart
    obtain ⟨⟨hk, hv⟩, hrest⟩ := List.forall_mem_cons.mp h
    obtain ⟨k, v⟩ := e
    have hnew : k.isAmong (kept.map Prod.fst) = false := by
      rw [List.map_append] at hapart
      exact Value.isAmong_eq_false.mpr fun u hu => (List.pairwise_append.mp hapart).2.2 u hu k List.mem_cons_self
    have hinsert := Value.insertEntry_of_new (v := v) hnew
    rw [List.append_cons] at hapart ⊢
    rw [← hinsert] at hapart ⊢
    rw [entries, hk, Option.bind_eq_bind, Option.bind_some, hv, Option.bind_some]
    exact ih hrest hapart

/-- Elements that are made of themselves make up the same value. -/
theorem arguments_of_remakes (h : Elementwise (Remakes o depth) ms w) : arguments o depth ms w = some w := by
  cases w with
  | list vs =>
    cases ms with
    | nil => rfl
    | cons m rest =>
      rw [arguments, mapM_of_remakes h]
      rfl
  | set vs =>
    cases ms with
    | nil => rfl
    | cons m rest =>
      rw [arguments, mapM_of_remakes h.1, Option.map_some, Value.distinct_of_apart h.2]
  | tuple vs =>
    cases ms with
    | nil => rfl
    | cons m rest =>
      have hall : List.Forall₂ (Remakes o depth) (m :: rest) vs := h
      have hfitted : fitted o (m :: rest).length vs = some vs := by
        rw [fitted, hall.length_eq, if_neg (Nat.lt_irrefl _), if_pos rfl]
      rw [arguments, hfitted, Option.bind_some, positions_of_remakes hall]
      rfl
  | map es =>
    rcases ms with _ | ⟨key, _ | ⟨value, _ | _⟩⟩
    · rfl
    · rfl
    · have hentries : entries o depth key value [] es = some es := entries_of_remakes h.1 h.2
      rw [arguments, hentries]
      rfl
    · rfl
  | _ => rfl

end Meaning

/-! ### Rules -/

/-- A direct rule makes of what it has made the same once more. -/
theorem Rule.meaning_of_meaning {r : Rule} {o : Options} (hr : r.Direct) (hregistry : o.converters = .standard) :
    ∀ {depth : Nat} {v w : Value}, r.meaning o depth v = some w → r.meaning o depth w = some w := by
  induction hr with
  | @mk l origin _ _ _ _ _ _ _ ih =>
    intro depth v w h
    rw [meaning_mk] at h ⊢
    obtain ⟨u, hu, hargs, hkept⟩ := Meaning.ofLayer_eq_some.mp h
    obtain ⟨helements, hexact⟩ := Meaning.elementwise_of_arguments hargs
    refine Meaning.ofLayer_eq_some.mpr ⟨w, ?_, Meaning.arguments_of_remakes ?_, hkept⟩
    -- What was made belongs to the origin already, and is not converted again.
    · show l.origin.elim (some w) (fun t => (o.convert w t).toOption) = some w
      cases ht : l.origin with
      | none => rfl
      | some t =>
        have hw : t.isExact w = true := (hexact t).trans (isExact_of_convert origin hregistry hu t ht)
        rw [Option.elim_some, Options.convert, Registry.convert_of_isExact _ hw]
        rfl
    -- Its elements lie no deeper than those that they were made of, so none of them is too deep.
    · refine elementwise_map.mpr ((elementwise_map.mp helements).imp fun a ha x hx => ?_)
      exact hx.remakes fun y hy => ih a ha hy

namespace Catalog

variable {c : Catalog} {r : Rule} {v w : Value} {o : Options} {calls : Calls}

/-- What a direct rule makes of an input it makes again of that, with nothing left to change. -/
theorem apply_of_apply (hr : r.Direct) (ho : o.Throws) (hregistry : o.converters = .standard)
    (h : (c.apply r v o calls).1 = .ok w) (calls' : Calls) : (c.apply r w o calls').1 = .ok w :=
  (apply_eq_ok_iff_meaning hr ho).mpr (Rule.meaning_of_meaning hr hregistry ((apply_eq_ok_iff_meaning hr ho).mp h))

theorem apply_integers :
    let r : Rule := .mk ⟨some .list, [.of .int], [⟨.minLength, .value (.int 1), false⟩], none, none, none, none⟩
    let w : Value := .list [.int 1, .int 2]
    Rule.declare .list [.of .int] [.value .minLength (.int 1) false] none none none = .ok r ∧ r.Direct ∧
      Options.Throws {} ∧ Options.converters {} = .standard ∧
      (apply {} r (.list [.str "1", .int 2]) {} Calls.none).1 = .ok w ∧ (apply {} r w {} Calls.none).1 = .ok w := by
  intro r w
  have hdeclared : Rule.declare .list [.of .int] [.value .minLength (.int 1) false] none none none = .ok r := rfl
  have hr : r.Direct := Rule.direct_of_declare hdeclared rfl (by simp [Rule.direct_of (t := .int) rfl])
    (by simp [Declared.isLax]) (by simp) (by simp)
  have ho : Options.Throws {} := ⟨rfl, rfl, rfl⟩
  have happly : (apply {} r (.list [.str "1", .int 2]) {} Calls.none).1 = .ok w :=
    (apply_eq_ok_iff_meaning hr ho).mpr rfl
  exact ⟨hdeclared, hr, ho, rfl, happly, apply_of_apply hr ho rfl happly Calls.none⟩

end Catalog

end Conform

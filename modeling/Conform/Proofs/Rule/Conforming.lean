import Conform.Proofs.Rule.Meaning
import Conform.Proofs.Value.Equality

/-! Conforming values. A value conforms to a rule if it belongs to the origin and its elements conform to the
    arguments. What a direct rule makes of a value conforms to the rule: the converters land on the origin, and
    reading the elements one by one leaves the container what it is. -/

namespace Conform

/-! ### Elements -/

/-- Elements that have what the arguments of a rule ask: the items of a list or a set by the first, those of a
    tuple by one each, the keys and the values of a map by one of two. No member of such a set and no key of
    such a map occurs twice. -/
def Elementwise {ρ : Type} (p : ρ → Value → Prop) (args : List ρ) (v : Value) : Prop :=
  match v, args with
  | .list vs, item :: _ => ∀ w ∈ vs, p item w
  | .set vs, item :: _ => (∀ w ∈ vs, p item w) ∧ Value.Apart vs
  | .tuple vs, _ :: _ => List.Forall₂ p args vs
  | .map es, [key, value] => (∀ e ∈ es, p key e.1 ∧ p value e.2) ∧ Value.Apart (es.map Prod.fst)
  | _, _ => True

theorem Elementwise.imp {ρ : Type} {p q : ρ → Value → Prop} {args : List ρ} {v : Value}
    (hpq : ∀ a ∈ args, ∀ w, p a w → q a w) (h : Elementwise p args v) : Elementwise q args v := by
  cases v with
  | list vs =>
    cases args with
    | nil => exact trivial
    | cons item rest => exact fun w hw => hpq item List.mem_cons_self w (h w hw)
  | set vs =>
    cases args with
    | nil => exact trivial
    | cons item rest => exact ⟨fun w hw => hpq item List.mem_cons_self w (h.1 w hw), h.2⟩
  | tuple vs =>
    cases args with
    | nil => exact trivial
    | cons a rest =>
      obtain ⟨hlength, hall⟩ := List.forall₂_iff_zip.mp (show List.Forall₂ p (a :: rest) vs from h)
      exact List.forall₂_iff_zip.mpr ⟨hlength, fun hab => hpq _ (List.of_mem_zip hab).1 _ (hall hab)⟩
  | map es =>
    rcases args with _ | ⟨key, _ | ⟨value, _ | _⟩⟩
    · exact trivial
    · exact trivial
    · refine ⟨fun e he => ⟨hpq key (by simp) _ (h.1 e he).1, hpq value (by simp) _ (h.1 e he).2⟩, h.2⟩
    · exact trivial
  | _ => exact trivial

theorem elementwise_map {ρ σ : Type} {p : σ → Value → Prop} {f : ρ → σ} {args : List ρ} {v : Value} :
    Elementwise p (args.map f) v ↔ Elementwise (fun a => p (f a)) args v := by
  cases v with
  | tuple vs =>
    cases args with
    | nil => exact Iff.rfl
    | cons a rest => exact List.forall₂_map_left_iff
  | map es => rcases args with _ | ⟨key, _ | ⟨value, _ | _⟩⟩ <;> exact Iff.rfl
  | _ => cases args <;> exact Iff.rfl

namespace Meaning

variable {o : Options} {depth : Nat} {m key value : Meaning} {ms : List Meaning} {v w : Value}

/-- A value that a meaning makes of some element. -/
def Makes (o : Options) (depth : Nat) (m : Meaning) (w : Value) : Prop := ∃ v, element o depth m v = some w

theorem makes_of_mapM {vs ws : List Value} (h : vs.mapM (element o depth m) = some ws) : ∀ w ∈ ws, Makes o depth m w := by
  intro w hw
  obtain ⟨v, -, hv⟩ := exists_of_mapM h w hw
  exact ⟨v, hv⟩

theorem length_of_fitted {arity : Nat} {vs us : List Value} (h : fitted o arity vs = some us) : us.length = arity := by
  unfold fitted at h
  split at h
  · cases h
  split at h
  case isTrue heq =>
    cases h
    exact heq
  split at h
  · cases h
  · cases h
    rw [List.length_take]
    omega

theorem makes_of_positions {vs ws : List Value} (hlength : vs.length = ms.length)
    (h : positions o depth ms vs = some ws) : List.Forall₂ (Makes o depth) ms ws := by
  induction ms generalizing vs ws with
  | nil =>
    cases h
    exact .nil
  | cons m rest ih =>
    cases vs with
    | nil => cases hlength
    | cons v vs =>
      rw [positions] at h
      obtain ⟨w, hw, h⟩ := Option.bind_eq_some_iff.mp h
      obtain ⟨others, hothers, h⟩ := Option.bind_eq_some_iff.mp h
      cases h
      exact .cons ⟨v, hw⟩ (ih (Nat.succ.inj hlength) hothers)

/-- Entries that were kept so far stay made by keys and values, and their keys apart. -/
theorem makes_of_entries {es : List (Value × Value)} :
    ∀ {kept ws : List (Value × Value)}, (∀ e ∈ kept, Makes o depth key e.1 ∧ Makes o depth value e.2) →
      Value.Apart (kept.map Prod.fst) → entries o depth key value kept es = some ws →
      (∀ e ∈ ws, Makes o depth key e.1 ∧ Makes o depth value e.2) ∧ Value.Apart (ws.map Prod.fst) := by
  induction es with
  | nil =>
    intro kept ws hkept hapart h
    cases h
    exact ⟨hkept, hapart⟩
  | cons e rest ih =>
    intro kept ws hkept hapart h
    obtain ⟨k, v⟩ := e
    rw [entries] at h
    obtain ⟨k', hk, h⟩ := Option.bind_eq_some_iff.mp h
    obtain ⟨v', hv, h⟩ := Option.bind_eq_some_iff.mp h
    exact ih (Value.forall_insertEntry ⟨k, hk⟩ ⟨v, hv⟩ hkept) (Value.apart_insertEntry hapart) h

/-- What arguments make of a value belongs to the same targets, and its elements are what they have made. -/
theorem elementwise_of_arguments (h : arguments o depth ms v = some w) :
    Elementwise (Makes o depth) ms w ∧ ∀ t : Target, t.isExact w = t.isExact v := by
  have hsame (u : Value) (hu : some u = some w) (htrivial : Elementwise (Makes o depth) ms u) :
      Elementwise (Makes o depth) ms w ∧ ∀ t : Target, t.isExact w = t.isExact u := by
    cases hu
    exact ⟨htrivial, fun _ => rfl⟩
  cases v with
  | list vs =>
    cases ms with
    | nil => exact hsame _ h trivial
    | cons m rest =>
      obtain ⟨ws, hws, rfl⟩ := Option.map_eq_some_iff.mp h
      exact ⟨makes_of_mapM hws, fun t => by cases t <;> rfl⟩
  | set vs =>
    cases ms with
    | nil => exact hsame _ h trivial
    | cons m rest =>
      obtain ⟨ws, hws, rfl⟩ := Option.map_eq_some_iff.mp h
      have hmakes := makes_of_mapM hws
      refine ⟨⟨fun w hw => hmakes w ((Value.distinct_sublist ws).subset hw), Value.apart_distinct ws⟩, fun t => ?_⟩
      cases t <;> rfl
  | tuple vs =>
    cases ms with
    | nil => exact hsame _ h trivial
    | cons m rest =>
      obtain ⟨ws, hws, rfl⟩ := Option.map_eq_some_iff.mp h
      obtain ⟨us, hus, hpositions⟩ := Option.bind_eq_some_iff.mp hws
      exact ⟨makes_of_positions (length_of_fitted hus) hpositions, fun t => by cases t <;> rfl⟩
  | map es =>
    -- A map takes a rule for keys and one for values; with fewer or more it stays as it is.
    rcases ms with _ | ⟨key, _ | ⟨value, _ | _⟩⟩
    · exact hsame _ h trivial
    · exact hsame _ h trivial
    · obtain ⟨ws, hws, rfl⟩ := Option.map_eq_some_iff.mp h
      exact ⟨makes_of_entries (List.forall_mem_nil _) .nil hws, fun t => by cases t <;> rfl⟩
    · exact hsame _ h trivial
  | _ => exact hsame _ h trivial

/-- A meaning makes an element what it makes of it one step deeper. -/
theorem exists_of_makes (h : Makes o depth m w) : ∃ v, m o (depth + 1) v = some w := by
  obtain ⟨v, hv⟩ := h
  exact ⟨v, (element_eq_some.mp hv).2⟩

end Meaning

/-! ### Rules -/

namespace Rule

/-- A value conforms to a rule if it belongs to the origin and its elements conform to the arguments. -/
def Conforms (r : Rule) : Value → Prop :=
  r.fold fun l v => (∀ t ∈ l.origin, t.isExact v = true) ∧ Elementwise (fun p => p) l.args v

theorem conforms_mk {l : Layer Rule} {v : Value} :
    (Rule.mk l).Conforms v ↔ (∀ t ∈ l.origin, t.isExact v = true) ∧ Elementwise Conforms l.args v := by
  rw [Conforms, fold_mk]
  exact and_congr_right fun _ => elementwise_map

variable {r : Rule} {o : Options}

/-- What the origin makes of a value belongs to it. -/
theorem isExact_of_convert {l : Layer Rule} (horigin : ∀ t ∈ l.origin, t.namesEntity = false)
    (hregistry : o.converters = .standard) {v u : Value}
    (h : l.origin.elim (some v) (fun t => (o.convert v t).toOption) = some u) : ∀ t ∈ l.origin, t.isExact u = true := by
  intro t ht
  rw [ht, Option.elim_some, Options.convert, hregistry] at h
  cases hconvert : Registry.standard.convert o.strictness v t with
  | error e =>
    rw [hconvert] at h
    cases h
  | ok x =>
    rw [hconvert] at h
    cases h
    exact Registry.isExact_of_convert (horigin t ht) hconvert

theorem conforms_of_meaning (hr : r.Direct) (hregistry : o.converters = .standard) :
    ∀ {depth : Nat} {v w : Value}, r.meaning o depth v = some w → r.Conforms w := by
  induction hr with
  | @mk l origin _ _ _ _ _ _ _ ih =>
    intro depth v w h
    rw [meaning_mk] at h
    obtain ⟨u, hu, hargs, -⟩ := Meaning.ofLayer_eq_some.mp h
    obtain ⟨helements, hexact⟩ := Meaning.elementwise_of_arguments hargs
    refine conforms_mk.mpr ⟨fun t ht => ?_, (elementwise_map.mp helements).imp fun a ha x hx => ?_⟩
    -- The arguments come after the origin, and leave a container of the same kind.
    · rw [hexact]
      exact isExact_of_convert origin hregistry hu t ht
    · obtain ⟨y, hy⟩ := Meaning.exists_of_makes hx
      exact ih a ha hy

end Rule

namespace Catalog

variable {c : Catalog} {r : Rule} {v w : Value} {o : Options} {calls : Calls}

/-- What a direct rule makes of an input conforms to the rule at every depth, under all options by which nothing
    that fails is passed over. -/
theorem conforms_of_apply (hr : r.Direct) (ho : o.Throws) (hregistry : o.converters = .standard)
    (h : (c.apply r v o calls).1 = .ok w) : r.Conforms w :=
  Rule.conforms_of_meaning hr hregistry ((apply_eq_ok_iff_meaning hr ho).mp h)

theorem conforms_pair :
    let r : Rule := .tupleOf [.setOf (.of .int), .mapOf (.of .str) (.of .int)]
    let v : Value := .list [.list [.str "1"], .map [(.int 1, .str "2")], .null]
    let w : Value := .tuple [.set [.int 1], .map [(.str "1", .int 2)]]
    r.Direct ∧ Options.Throws {} ∧ Options.converters {} = .standard ∧ (apply {} r v {} Calls.none).1 = .ok w ∧
      r.Conforms w := by
  intro r v w
  have hint : (Rule.of .int).Direct := Rule.direct_of rfl
  have hset : (Rule.setOf (.of .int)).Direct := Rule.direct_plain (by simp [Target.namesEntity]) (by simp [hint])
  have hmap : (Rule.mapOf (.of .str) (.of .int)).Direct :=
    Rule.direct_plain (by simp [Target.namesEntity]) (by simp [hint, Rule.direct_of (t := .str) rfl])
  have hr : r.Direct := Rule.direct_plain (by simp [Target.namesEntity]) (by simp [hset, hmap])
  have ho : Options.Throws {} := ⟨rfl, rfl, rfl⟩
  have happly : (apply {} r v {} Calls.none).1 = .ok w := (apply_eq_ok_iff_meaning hr ho).mpr rfl
  exact ⟨hr, ho, rfl, happly, conforms_of_apply hr ho rfl happly⟩

/-- Where a tuple has no rules for its positions, and where a map has other than two rules, the elements are not
    looked at. -/
theorem elements_unread :
    let map : Rule := .plain (some .map) [.of .int, .of .int, .of .int]
    (Rule.tupleOf []).Direct ∧ (apply {} (.tupleOf []) (.list [.int 1]) {} Calls.none).1 = .ok (.tuple [.int 1]) ∧
      ¬ List.Forall₂ Rule.Conforms [] [.int 1] ∧
    Rule.declare .map [.of .int, .of .int, .of .int] [] none none none = .ok map ∧ map.Direct ∧
      (apply {} map (.map [(.str "a", .int 1)]) {} Calls.none).1 = .ok (.map [(.str "a", .int 1)]) ∧
      ¬ (Rule.of .int).Conforms (.str "a") := by
  intro map
  have htuple : (Rule.tupleOf []).Direct := Rule.direct_plain (by simp [Target.namesEntity]) (List.forall_mem_nil _)
  have hmap : map.Direct := Rule.direct_plain (by simp [Target.namesEntity]) (by simp [Rule.direct_of (t := .int) rfl])
  refine ⟨htuple, (apply_eq_ok_iff_meaning htuple ⟨rfl, rfl, rfl⟩).mpr rfl, ?_, rfl, hmap,
    (apply_eq_ok_iff_meaning hmap ⟨rfl, rfl, rfl⟩).mpr rfl, ?_⟩
  · intro h
    cases h
  · intro h
    have hexact := (Rule.conforms_mk.mp h).1 .int rfl
    cases hexact

end Catalog

end Conform

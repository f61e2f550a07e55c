import Conform.Proofs.Conversion.Number
import Conform.Proofs.Rule.Idempotent
import Conform.Proofs.Rule.Policies

/-! How many members a set has. A set whose members a rule reads has one for each item unless two of the items are read as
    the same value: that data may not be lost is asked where the items become a set, but not once more where what the rule
    has made of them becomes one. -/

namespace Conform

open Parse

/-! ### Sets -/

namespace Value

/-- Where no value is equal to one behind it, none is equal to one before it. -/
theorem apart_of_allDistinct {items : List Value} (h : ∀ v ∈ items, v.Proper) (hdistinct : allDistinct items = true) :
    Apart items := by
  induction items with
  | nil => exact .nil
  | cons v rest ih =>
    obtain ⟨hv, hrest⟩ := List.forall_mem_cons.mp h
    rw [allDistinct, Bool.and_eq_true, Bool.not_eq_true'] at hdistinct
    refine List.pairwise_cons.mpr ⟨fun u hu => ?_, ih hrest hdistinct.2⟩
    rw [(hrest u hu).same_comm hv]
    exact isAmong_eq_false.mp hdistinct.1 u hu

/-- Nothing is dropped from values if and only if they are apart. -/
theorem length_distinct_iff {items : List Value} : (distinct items).length = items.length ↔ Apart items := by
  constructor
  · intro h
    have hsame := (distinct_sublist items).eq_of_length h
    rw [← hsame]
    exact apart_distinct items
  · intro h
    rw [distinct_of_apart h]

end Value

/-! ### Items -/

namespace Reading

variable {r : Reading} {vs ws : List Value} {s u : ParseState} {c d : Context} {index : Nat}

/-- Items are read one by one, each in a child of the context. -/
inductive ReadEach (r : Reading) (c : Context) : Nat → List Value → List Value → Prop
  | nil {index : Nat} : ReadEach r c index [] []
  | cons {index : Nat} {child : Context} {calls : Calls} {t : ParseState} {v w : Value} {vs ws : List Value} :
    c.enter (.index index) = .ok child → Accepts (r.read v) ⟨child, calls⟩ w t → ReadEach r c (index + 1) vs ws →
      ReadEach r c index (v :: vs) (w :: ws)

theorem ReadEach.length_eq (h : ReadEach r c index vs ws) : ws.length = vs.length := by
  induction h with
  | nil => rfl
  | cons _ _ _ ih => rw [List.length_cons, List.length_cons, ih]

/-- Accepted items are all read, where what fails is not passed over. -/
theorem readEach_of_accepts (hr : Coupling.sound.Coupled Eq r r) (hplace : c.At s.context) (hs : s.context.failures = [])
    (h : Accepts (r.items .throw index vs) s ws u) : ReadEach r c index vs ws := by
  induction vs generalizing s u index ws with
  | nil =>
    obtain ⟨rfl, -⟩ := (accepts_pure hs).mp h
    exact .nil
  | cons v rest ih =>
    have hguarded := (Coupling.rel_guarded_eq hr v (.index index) .throw).left.toSound
    have hrest := (Coupling.rel_items (fun _ => rfl) hr .throw rest (index + 1)).left.toSound
    rw [items, element] at h
    simp only [bind_assoc, pure_bind] at h
    obtain ⟨outcome, t, houtcome, hplace', h⟩ :=
      (accepts_seq hguarded (fun _ => hrest.bind fun _ => .pure trivial) hs).mp h
    obtain ⟨others, t', hothers, -, h⟩ := (accepts_seq hrest (fun _ => .pure trivial) houtcome.2).mp h
    obtain ⟨rfl, -⟩ := (accepts_pure hothers.2).mp h
    have hadmitted := admitted_of_accepts (hr.read v).left.toSound hs houtcome
    have hitems := ih (hplace.trans hplace') houtcome.2 hothers
    cases hadmitted with
    | parsed hchild hread => exact .cons ((hplace.enter _).trans hchild) hread hitems
    | preserved hpolicy => cases hpolicy
    | excluded hpolicy => cases hpolicy

/-- Only a set is made into a set by an item rule. -/
theorem readEach_of_accepts_arguments (hr : Coupling.sound.Coupled Eq r r) (hs : s.context.failures = [])
    (hthrow : s.context.options.itemPolicy = .throw) {v : Value} (h : Accepts (arguments [r] none v) s (.set vs) u) :
    ∃ us ws, v = .set us ∧ ReadEach r s.context 0 us ws ∧ vs = Value.distinct ws := by
  rw [arguments, accepts_options, Option.getD_none, hthrow] at h
  cases v with
  | set us =>
    have hitems := (Coupling.rel_items (fun _ => rfl) hr .throw us 0).left.toSound
    obtain ⟨ws, t, hws, -, h⟩ := (accepts_seq hitems (fun _ => .pure trivial) hs).mp h
    cases h.1
    exact ⟨us, ws, rfl, readEach_of_accepts hr (.refl _) hs hws, rfl⟩
  | list us =>
    obtain ⟨_, _, -, h⟩ := outcome_bind_eq_ok h.1
    cases h
  | tuple us =>
    obtain ⟨_, _, -, h⟩ := outcome_bind_eq_ok h.1
    obtain ⟨_, _, -, h⟩ := outcome_bind_eq_ok h
    cases h
  | _ => cases h.1

end Reading

/-! ### Sets by a rule -/

namespace Converter

/-- Where no data may be lost, a list or a tuple becomes a set of all its items. -/
theorem eq_of_toSequence {scope : Scope} {v : Value} {xs us : List Value} (hv : v = .list xs ∨ v = .tuple xs)
    (hproper : ∀ x ∈ xs, x.Proper) (hloss : scope.forbidsLoss = true) (h : toSequence scope v .set = .ok (.set us)) :
    us = xs := by
  have hitems : items v = .ok xs := by obtain rfl | rfl := hv <;> rfl
  rw [toSequence, hitems] at h
  dsimp only [Target.kind?] at h
  split at h
  next hdistinct =>
    cases h
    exact Value.distinct_of_apart (Value.apart_of_allDistinct hproper hdistinct)
  · rw [Scope.allowLoss, if_pos hloss] at h
    cases h

end Converter

namespace Catalog

variable {c : Catalog} {item : Rule} {v : Value} {o : Options} {calls : Calls} {xs s : List Value}

/-- The options are asked for what a set is made of. -/
theorem eq_of_convert (hv : v = .list xs ∨ v = .tuple xs) (hproper : ∀ x ∈ xs, x.Proper)
    (hloss : o.strictness.noDataLoss = true) (hstandard : o.converters.resolve? .set = some Converter.toSequence)
    {us : List Value} (h : o.convert v .set = .ok (.set us)) : us = xs := by
  have hplain : Registry.unwrapped .set v = v := by obtain rfl | rfl := hv <;> rfl
  have hexact : Target.set.isExact v = false := by obtain rfl | rfl := hv <;> rfl
  obtain ⟨scope, hscope, hconverted⟩ := Registry.converted_of_convert (t := .set) hstandard hplain hexact h
  exact Converter.eq_of_toSequence hv hproper (hscope.trans hloss) hconverted

/-- What a rule for sets makes of a value is what its item rule makes of the items of the set that the value converts to. -/
theorem readEach_of_apply (hthrow : o.itemPolicy = .throw) (h : (c.apply (.setOf item) v o calls).1 = .ok (.set s)) :
    ∃ us ws, o.convert v .set = .ok (.set us) ∧ Reading.ReadEach (item.reading (c.entities o)) (.root o) 0 us ws ∧
      s = Value.distinct ws := by
  obtain ⟨t, haccepts⟩ := apply_eq_ok_iff.mp h
  have hcoupled := (Coupling.alike_reading (Coupling.alike_sound c o) item).toCoupled
  have hread : ((Rule.setOf item).reading (c.entities o)).read v =
      Reading.converted .set v >>= Reading.arguments [item.reading (c.entities o)] none :=
    Rule.read_under (c.entities_eq_plain o .set rfl) none [item] v
  have hconverted : Sound (Reading.converted .set v) := (Coupling.rel_converted (K := Coupling.sound) .set v).left.toSound
  have harguments (w : Value) : Sound (Reading.arguments [item.reading (c.entities o)] none w) :=
    (Coupling.rel_arguments Value.composed_eq (.cons hcoupled .nil) none w).left.toSound
  rw [hread, accepts_seq hconverted harguments rfl] at haccepts
  obtain ⟨w, u, hw, -, haccepts⟩ := haccepts
  obtain ⟨hconvert, rfl⟩ := Reading.accepts_converted hw
  obtain ⟨us, ws, rfl, hus, rfl⟩ := Reading.readEach_of_accepts_arguments hcoupled rfl hthrow haccepts
  exact ⟨us, ws, hconvert, hus, rfl⟩

/-- Where no data may be lost, a set by a rule has a member for each item of a list or a tuple, unless the item rule makes
    equal values of two of them. With another registry than the standard one, the members of the set that the list or the
    tuple converts to count instead of its items. -/
theorem length_of_apply_setOf (hv : v = .list xs ∨ v = .tuple xs) (hproper : ∀ x ∈ xs, x.Proper)
    (hloss : o.strictness.noDataLoss = true) (hthrow : o.itemPolicy = .throw)
    (h : (c.apply (.setOf item) v o calls).1 = .ok (.set s)) :
    ∃ us ws, o.convert v .set = .ok (.set us) ∧ (o.converters.resolve? .set = some Converter.toSequence → us = xs) ∧
      Reading.ReadEach (item.reading (c.entities o)) (.root o) 0 us ws ∧ s = Value.distinct ws ∧
      s.length ≤ us.length ∧ (s.length = us.length ↔ Value.Apart ws) := by
  obtain ⟨us, ws, hconvert, hread, rfl⟩ := readEach_of_apply hthrow h
  refine ⟨us, ws, hconvert, fun hstandard => eq_of_convert hv hproper hloss hstandard hconvert, hread, rfl, ?_, ?_⟩
  · rw [← hread.length_eq]
    exact (Value.distinct_sublist ws).length_le
  · rw [← hread.length_eq]
    exact Value.length_distinct_iff

theorem apart_of_numerals :
    let o : Options := { noDataLoss := some true }
    let xs : List Value := [.str "1", .str "02"]
    (Catalog.apply {} (.setOf (.of .int)) (.tuple xs) o Calls.none).1 = .ok (.set [.int 1, .int 2]) ∧
      ∃ ws, Reading.ReadEach ((Rule.of .int).reading (Catalog.entities {} o)) (.root o) 0 xs ws ∧ Value.Apart ws := by
  intro o xs
  have happly : (Catalog.apply {} (.setOf (.of .int)) (.tuple xs) o Calls.none).1 = .ok (.set [.int 1, .int 2]) := by
    with_unfolding_all rfl
  have hproper : ∀ x ∈ xs, x.Proper := by
    intro x hx
    rcases List.mem_pair.mp hx with rfl | rfl <;> exact .scalar rfl
  obtain ⟨us, ws, -, hstandard, hread, -, -, hlength⟩ := length_of_apply_setOf (.inr rfl) hproper rfl rfl happly
  obtain rfl := hstandard rfl
  exact ⟨happly, ws, hread, hlength.mp rfl⟩

/-- Two spellings of one number are one member, though no data may be lost. -/
theorem member_lost :
    (Catalog.apply {} (.setOf (.of .int)) (.list [.str "1", .str "01"]) { noDataLoss := some true } Calls.none).1 =
      .ok (.set [.int 1]) := by with_unfolding_all rfl

end Catalog

end Conform

import Conform.Proofs.Ground.Basic
import Conform.Proofs.Schema.Unambiguous

/-! Faults and blame. A field is at fault if its keys clash, if its value is refused and that is an error, or if there is
    nothing for it although it is required. A failure blames the field at which or below which it stands, or which it
    says is absent, and so one field at most. A report of some fields blames those that are at fault and no others,
    also when the keys that were refused stand behind it. -/

namespace Conform

/-- The keys that a failure at the root says are not allowed. -/
def Failure.excessAtRoot? : Failure → Option (List String)
  | .excess [] keys => some keys
  | _ => none

namespace Field

/-! ### Faults -/

/-- Two keys of a field stand in an input. -/
def Clashes (f : Field) (o : Options) (names : List String) : Prop :=
  ∃ key ∈ names, ∃ other ∈ names, key ≠ other ∧ Schema.Claims o f key ∧ Schema.Claims o f other

/-- Whether a default stands in for the field where a record is read. -/
def fills (f : Field) (o : Options) : Bool := f.default.isSome && (!f.deferred || o.forcesDefault)

/-- A field is at fault if its keys clash, if its value is refused and that is an error, or if it is required and there
    is neither a value nor a default for it. -/
inductive Faulty (f : Field) (o : Options) (clashes : Prop) (taken : Option Value) (refuses : Value → Prop) : Prop
  | clash : clashes → o.ignoresAliasConflicts = false → Faulty f o clashes taken refuses
  | refused {v : Value} : taken = some v → f.policy o = .throw → refuses v → Faulty f o clashes taken refuses
  | missing : f.isRequired o = true → f.fills o = false → (∀ v, taken = some v → f.policy o = .exclude ∧ refuses v) →
    Faulty f o clashes taken refuses

/-- A failure at a field or further on, or one which says that the field is absent. -/
def Blamed (f : Field) (g : Failure) : Prop :=
  (∃ route, g.route? = some route ∧ [.key f.name] <+: route) ∨ g = .absence [] f.name

variable {f f' : Field} {o : Options} {clashes : Prop} {taken : Option Value} {refuses : Value → Prop} {v : Value}
  {g : Failure} {fs : List Failure}

theorem isSome_produce (f : Field) (o : Options) (calls : Calls) : (f.produce o false calls).1.isSome = f.fills o := by
  unfold produce fills
  cases f.default with
  | none => rfl
  | some d => cases f.deferred <;> cases o.forcesDefault <;> rfl

theorem faulty_none_iff (hclash : ¬ (clashes ∧ o.ignoresAliasConflicts = false)) :
    f.Faulty o clashes none refuses ↔ f.isRequired o = true ∧ f.fills o = false := by
  constructor
  · rintro (⟨h, hconflict⟩ | ⟨⟨⟩⟩ | ⟨hrequired, hfills, -⟩)
    · exact absurd ⟨h, hconflict⟩ hclash
    · exact ⟨hrequired, hfills⟩
  · rintro ⟨hrequired, hfills⟩
    exact .missing hrequired hfills fun v hv => nomatch hv

theorem faulty_some_iff (hclash : ¬ (clashes ∧ o.ignoresAliasConflicts = false)) :
    f.Faulty o clashes (some v) refuses ↔
      refuses v ∧ (f.policy o = .throw ∨ f.policy o = .exclude ∧ f.isRequired o = true ∧ f.fills o = false) := by
  constructor
  · rintro (⟨h, hconflict⟩ | ⟨⟨⟩, hthrow, hrefuses⟩ | ⟨hrequired, hfills, hexcluded⟩)
    · exact absurd ⟨h, hconflict⟩ hclash
    · exact ⟨hrefuses, .inl hthrow⟩
    · obtain ⟨hpolicy, hrefuses⟩ := hexcluded v rfl
      exact ⟨hrefuses, .inr ⟨hpolicy, hrequired, hfills⟩⟩
  · rintro ⟨hrefuses, hthrow | ⟨hpolicy, hrequired, hfills⟩⟩
    · exact .refused rfl hthrow hrefuses
    · refine .missing hrequired hfills ?_
      rintro _ ⟨⟩
      exact ⟨hpolicy, hrefuses⟩

/-! ### Blame -/

theorem Blamed.single (h : f.Blamed g) : g.flatten = [g] := by
  rcases h with ⟨route, hroute, -⟩ | rfl
  · exact Failure.flatten_of_route? hroute
  · rfl

/-- A failure blames one field at most. -/
theorem Blamed.name_eq (h : f.Blamed g) (h' : f'.Blamed g) : f.name = f'.name := by
  rcases h with ⟨route, hroute, hprefix⟩ | rfl
  · rcases h' with ⟨route', hroute', hprefix'⟩ | rfl
    · obtain rfl := Option.some.inj (hroute.symm.trans hroute')
      obtain ⟨rest, rfl⟩ := hprefix
      obtain ⟨rest', heq⟩ := hprefix'
      injection heq with hitem
      injection hitem with hname
      exact hname.symm
    · cases hroute
      exact absurd (List.prefix_nil.mp hprefix) (List.cons_ne_nil _ _)
  · rcases h' with ⟨route', hroute', hprefix'⟩ | heq
    · cases hroute'
      exact absurd (List.prefix_nil.mp hprefix') (List.cons_ne_nil _ _)
    · injection heq

theorem Blamed.excessAtRoot? (h : f.Blamed g) : g.excessAtRoot? = none := by
  unfold Failure.excessAtRoot?
  split
  · rcases h with ⟨route, hroute, hprefix⟩ | heq
    · cases hroute
      exact absurd (List.prefix_nil.mp hprefix) (List.cons_ne_nil _ _)
    · cases heq
  · rfl

/-- Failures that blame a field, of which there are some if it is at fault and none if it is not. -/
structure Accounted (f : Field) (faulty : Prop) (fs : List Failure) : Prop where
  some_iff : fs ≠ [] ↔ faulty
  blamed : ∀ g ∈ fs, f.Blamed g

theorem Accounted.congr {p q : Prop} (h : f.Accounted p fs) (hpq : p ↔ q) : f.Accounted q fs :=
  ⟨h.some_iff.trans hpq, h.blamed⟩

theorem accounted_nil {p : Prop} (h : ¬ p) : f.Accounted p [] := ⟨iff_of_false (fun hne => hne rfl) h, List.forall_mem_nil _⟩

theorem accounted_singleton {p : Prop} (h : p) (hg : f.Blamed g) : f.Accounted p [g] :=
  ⟨iff_of_true (List.cons_ne_nil g []) h, List.forall_mem_singleton.mpr hg⟩

end Field

namespace Schema

variable {f : Field} {fields : List Field} {P : Field → Prop} {fs gs : List Failure}

/-! ### Reports -/

/-- Failures each of which blames one of some fields, namely those that are at fault. -/
structure Reports (fields : List Field) (P : Field → Prop) (fs : List Failure) : Prop where
  blamed_iff : ∀ f ∈ fields, (∃ g ∈ fs, f.Blamed g) ↔ P f
  covered : ∀ g ∈ fs, ∃ f ∈ fields, f.Blamed g

theorem Reports.congr {Q : Field → Prop} (h : Reports fields P fs) (heq : ∀ f ∈ fields, P f ↔ Q f) :
    Reports fields Q fs :=
  ⟨fun f hf => (h.blamed_iff f hf).trans (heq f hf), h.covered⟩

theorem Reports.cons (hf : f.Accounted (P f) fs) (h : Reports fields P gs) (hfresh : f.name ∉ fields.map Field.name) :
    Reports (f :: fields) P (fs ++ gs) := by
  have hapart : ∀ f' ∈ fields, ∀ g, f.Blamed g → ¬ f'.Blamed g := fun f' hf' g hg hg' =>
    hfresh (List.mem_map.mpr ⟨f', hf', (hg.name_eq hg').symm⟩)
  refine ⟨List.forall_mem_cons.mpr ⟨?_, fun f' hf' => ?_⟩, List.forall_mem_append.mpr ⟨fun g hg => ?_, fun g hg => ?_⟩⟩
  · rw [← hf.some_iff]
    constructor
    · rintro ⟨g, hg, hblamed⟩
      rcases List.mem_append.mp hg with hg | hg
      · exact List.ne_nil_of_mem hg
      · obtain ⟨f', hf', hg'⟩ := h.covered g hg
        exact absurd hg' (hapart f' hf' g hblamed)
    · intro hne
      obtain ⟨g, hg⟩ := List.exists_mem_of_ne_nil fs hne
      exact ⟨g, List.mem_append_left gs hg, hf.blamed g hg⟩
  · rw [← h.blamed_iff f' hf']
    constructor
    · rintro ⟨g, hg, hblamed⟩
      rcases List.mem_append.mp hg with hg | hg
      · exact absurd hblamed (hapart f' hf' g (hf.blamed g hg))
      · exact ⟨g, hg, hblamed⟩
    · rintro ⟨g, hg, hblamed⟩
      exact ⟨g, List.mem_append_right fs hg, hblamed⟩
  · exact ⟨f, List.mem_cons_self, hf.blamed g hg⟩
  · obtain ⟨f', hf', hblamed⟩ := h.covered g hg
    exact ⟨f', List.mem_cons_of_mem f hf', hblamed⟩

/-- A report says nothing if and only if no field is at fault. -/
theorem Reports.eq_nil_iff (h : Reports fields P fs) : fs = [] ↔ ∀ f ∈ fields, ¬ P f := by
  constructor
  · rintro rfl f hf hfaulty
    obtain ⟨g, hg, -⟩ := (h.blamed_iff f hf).mpr hfaulty
    cases hg
  · intro hnone
    refine List.eq_nil_iff_forall_not_mem.mpr fun g hg => ?_
    obtain ⟨f, hf, hblamed⟩ := h.covered g hg
    exact hnone f hf ((h.blamed_iff f hf).mp ⟨g, hg, hblamed⟩)

/-! ### Refused keys -/

/-- Refused keys are reported at once. -/
def excessOf (keys : List String) : List Failure := if keys = [] then [] else [.excess [] keys]

theorem eq_of_mem_excessOf {g : Failure} {keys : List String} (h : g ∈ excessOf keys) : keys ≠ [] ∧ g = .excess [] keys := by
  unfold excessOf at h
  split at h
  · cases h
  · exact ⟨‹_›, List.mem_singleton.mp h⟩

theorem excessOf_eq_nil_iff {keys : List String} : excessOf keys = [] ↔ keys = [] := by
  unfold excessOf
  split <;> simp [*]

/-- The failure about refused keys blames no field. -/
theorem Reports.append_excessOf (h : Reports fields P fs) (keys : List String) :
    (∀ f ∈ fields, (∃ g ∈ fs ++ excessOf keys, f.Blamed g) ↔ P f) ∧
      (fs ++ excessOf keys).filterMap Failure.excessAtRoot? = (if keys = [] then [] else [keys]) ∧
      ∀ g ∈ fs ++ excessOf keys, g = .excess [] keys ∨ ∃ f ∈ fields, f.Blamed g := by
  refine ⟨fun f hf => ?_, ?_, List.forall_mem_append.mpr ⟨fun g hg => .inr (h.covered g hg), fun g hg => .inl ?_⟩⟩
  · rw [← h.blamed_iff f hf]
    constructor
    · rintro ⟨g, hg, hblamed⟩
      rcases List.mem_append.mp hg with hg | hg
      · exact ⟨g, hg, hblamed⟩
      · obtain ⟨-, rfl⟩ := eq_of_mem_excessOf hg
        cases hblamed.excessAtRoot?
    · rintro ⟨g, hg, hblamed⟩
      exact ⟨g, List.mem_append_left _ hg, hblamed⟩
  · have hnone : fs.filterMap Failure.excessAtRoot? = [] := by
      refine List.filterMap_eq_nil_iff.mpr fun g hg => ?_
      obtain ⟨f, -, hblamed⟩ := h.covered g hg
      exact hblamed.excessAtRoot?
    rw [List.filterMap_append, hnone, List.nil_append, excessOf]
    split <;> rfl
  · exact (eq_of_mem_excessOf hg).2

end Schema

end Conform

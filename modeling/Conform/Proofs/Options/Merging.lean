import Conform.Schema

/-! Layers of options. The options of a parse come together from many places: a base, a declaration, a call, a nested
    schema. Merging takes each key from the right, and an overriding layer replaces all to its left; for both, only
    the order of the layers counts, so they form a monoid with the options that say nothing. -/

namespace Conform.Options

/-! ### The monoid of options -/

/-- An overriding layer in the middle or at the right end makes both sides one merge; elsewhere it goes key by key. -/
theorem merge_assoc (a b c : Options) : (a.merge b).merge c = a.merge (b.merge c) := by
  cases hc : c.overriding
  case true => simp [merge, hc]
  case false =>
    cases hb : b.overriding
    case true => simp [merge, hb, hc]
    case false => simp [merge, hb, hc, Option.or_assoc]

@[simp] theorem empty_merge (a : Options) : merge {} a = a := by
  cases ha : a.overriding
  case true => simp [merge, ha]
  case false =>
    simp only [merge, ha, Option.or_none, Bool.false_eq_true, ↓reduceIte]
    rw [← ha]

@[simp] theorem merge_empty (a : Options) : a.merge {} = a := by
  simp only [merge, Option.none_or, Bool.false_eq_true, ↓reduceIte]

instance : Std.Associative merge := ⟨merge_assoc⟩

instance : Std.LawfulIdentity merge {} where
  left_id := empty_merge
  right_id := merge_empty

/-! ### Groupings -/

/-- A way to merge layers, two groups at a time. -/
inductive Grouping where
  | none
  | layer (o : Options)
  | merge (left right : Grouping)

namespace Grouping

/-- The layers from left to right. -/
def layers : Grouping → List Options
  | none => []
  | layer o => [o]
  | merge left right => left.layers ++ right.layers

def merged : Grouping → Options
  | none => {}
  | layer o => o
  | merge left right => left.merged.merge right.merged

theorem merged_eq : ∀ g : Grouping, g.merged = g.layers.foldl Options.merge {}
  | none => rfl
  | layer o => (empty_merge o).symm
  | merge left right =>
    calc left.merged.merge right.merged
      _ = left.merged.merge (right.layers.foldl Options.merge {}) := by rw [merged_eq right]
      _ = right.layers.foldl Options.merge (left.merged.merge {}) := List.foldl_assoc.symm
      _ = (left.layers ++ right.layers).foldl Options.merge {} := by
        rw [merge_empty, merged_eq left, List.foldl_append]

end Grouping

end Options

/-! ### Where layers meet -/

/-- A nested schema may be read under its options at once or in steps. -/
theorem Context.speculateWith_speculateWith (c : Context) (o p : Options) :
    (c.speculateWith o).speculateWith p = c.speculateWith (o.merge p) := by
  simp [speculateWith, speculate, Options.merge_assoc]

namespace SchemaDraft

theorem addOptions_addOptions (d : SchemaDraft) (o p : Options) :
    (d.addOptions o).addOptions p = d.addOptions (o.merge p) := by
  simp [addOptions, Options.merge_assoc]

/-- What a draft takes over from fields says nothing about its options. -/
theorem foldl_inheritField_addOptions (o : Options) :
    ∀ (fields : List Field) (d : SchemaDraft),
      fields.foldl inheritField (d.addOptions o) = (fields.foldl inheritField d).addOptions o
  | [], _ => rfl
  | f :: fields, d => foldl_inheritField_addOptions o fields (d.inheritField f)

/-- A base goes before what was declared, also where it is inherited later. -/
theorem inherit_addOptions (d : SchemaDraft) (o : Options) (base : Schema) :
    (d.addOptions o).inherit base = (d.inherit base).addOptions o := by
  simp only [inherit, foldl_inheritField_addOptions]
  simp [addOptions, Options.merge_assoc]

end SchemaDraft

/-- Options form a monoid, overriding ones among them: however layers are grouped, whether they come from a base, a
    declaration, a call or a nested schema, what is in force is given by their order. -/
theorem Options.layered :
    (∀ a b c : Options, (a.merge b).merge c = a.merge (b.merge c)) ∧
      (∀ a : Options, merge {} a = a ∧ a.merge {} = a) ∧
      (∀ g : Grouping, g.merged = g.layers.foldl merge {}) ∧
      (∀ (c : Context) (o p : Options), (c.speculateWith o).speculateWith p = c.speculateWith (o.merge p)) ∧
      (∀ (d : SchemaDraft) (o p : Options), (d.addOptions o).addOptions p = d.addOptions (o.merge p)) ∧
      ∀ (d : SchemaDraft) (o : Options) (base : Schema),
        (d.addOptions o).inherit base = (d.inherit base).addOptions o :=
  ⟨merge_assoc, fun a => ⟨empty_merge a, merge_empty a⟩, Grouping.merged_eq, Context.speculateWith_speculateWith,
    SchemaDraft.addOptions_addOptions, SchemaDraft.inherit_addOptions⟩

end Conform

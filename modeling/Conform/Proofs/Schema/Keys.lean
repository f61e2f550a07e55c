import Mathlib.Data.List.Nodup
import Mathlib.Data.List.Pairwise
import Conform.Proofs.Rule.Declaration
import Conform.Schema

/-! Keys of schemas. A schema is compiled only from fields that can be told apart: no two have a name or a key
    in common. The map of keys then sends each key to the one field that accepts it. -/

namespace Conform.Schema

open Rule (guard_eq_ok seq_eq_ok)

variable {s : Schema} {o : Options} {f : Field} {key name : String}

/-! ### Keys of a field -/

/-- A field accepts each of its keys once. -/
theorem nodup_keys (f : Field) : f.keys.Nodup := by
  have grow (aliases : List String) : ∀ keys : List String, keys.Nodup →
      (aliases.foldl (fun keys a => if keys.contains a then keys else keys ++ [a]) keys).Nodup := by
    induction aliases with
    | nil => exact fun _ h => h
    | cons a rest ih =>
      intro keys h
      refine ih _ ?_
      by_cases ha : keys.contains a
      · simpa only [if_pos ha] using h
      · simp only [if_neg ha]
        rw [← List.concat_eq_append]
        exact h.concat (by simpa using ha)
  exact grow f.aliases [f.name] (List.nodup_singleton _)

theorem nodup_keysOf (o : Options) (f : Field) : (keysOf o f).Nodup := by
  unfold keysOf
  cases o.aliasFrom with
  | none => exact nodup_keys f
  | some generate =>
    by_cases h : f.keys.contains (generate f.name)
    · simpa only [if_pos h] using nodup_keys f
    · simp only [if_neg h]
      rw [← List.concat_eq_append]
      exact (nodup_keys f).concat (by simpa using h)

theorem name_mem_keys (f : Field) : f.name ∈ f.keys := by
  have keep (aliases : List String) : ∀ keys : List String, f.name ∈ keys →
      f.name ∈ aliases.foldl (fun keys a => if keys.contains a then keys else keys ++ [a]) keys := by
    induction aliases with
    | nil => exact fun _ h => h
    | cons a rest ih =>
      intro keys h
      refine ih _ ?_
      by_cases ha : keys.contains a
      · simpa only [if_pos ha] using h
      · simpa only [if_neg ha] using List.mem_append_left _ h
  exact keep f.aliases [f.name] (List.mem_singleton_self _)

/-- A field accepts its name. -/
theorem name_mem_keysOf (o : Options) (f : Field) : f.name ∈ keysOf o f := by
  unfold keysOf
  split
  · split
    · exact name_mem_keys f
    · exact List.mem_append_left _ (name_mem_keys f)
  · exact name_mem_keys f

theorem mem_ownKeys {e : String × String} : e ∈ ownKeys o f ↔ e.1 ∈ keysOf o f ∧ e.2 = f.name := by
  simp only [ownKeys, List.mem_map]
  constructor
  · rintro ⟨key, hkey, rfl⟩
    exact ⟨hkey, rfl⟩
  · rintro ⟨hkey, hname⟩
    exact ⟨e.1, hkey, by rw [← hname]⟩

theorem mem_ownFolded {e : String × String} :
    e ∈ ownFolded o f ↔ f.ignoresCase o ∧ (∃ own ∈ keysOf o f, Text.lower own = e.1) ∧ e.2 = f.name := by
  unfold ownFolded
  split
  case isTrue hcase =>
    rw [List.mem_map]
    constructor
    · rintro ⟨own, hown, rfl⟩
      exact ⟨hcase, ⟨own, hown, rfl⟩, rfl⟩
    · rintro ⟨-, ⟨own, hown, hlower⟩, hname⟩
      exact ⟨own, hown, Prod.ext hlower hname.symm⟩
  case isFalse hcase => exact iff_of_false List.not_mem_nil fun h => hcase h.1

/-! ### Keys of fields -/

theorem lookup_ownKeys_eq_none {fields : List Field} :
    (fields.flatMap (ownKeys o)).lookup key = none ↔ ∀ g ∈ fields, key ∉ keysOf o g := by
  rw [List.lookup_eq_none_iff]
  simp only [List.mem_flatMap, mem_ownKeys, bne_iff_ne]
  constructor
  · exact fun h g hg hkey => h (key, g.name) ⟨g, hg, hkey, rfl⟩ rfl
  · rintro h e ⟨g, hg, hkey, -⟩ rfl
    exact h g hg hkey

theorem lookup_ownFolded_eq_none {fields : List Field} :
    (fields.flatMap (ownFolded o)).lookup key = none ↔
      ∀ g ∈ fields, g.ignoresCase o → ∀ own ∈ keysOf o g, Text.lower own ≠ key := by
  rw [List.lookup_eq_none_iff]
  simp only [List.mem_flatMap, mem_ownFolded, bne_iff_ne]
  constructor
  · rintro h g hg hcase own hown rfl
    exact h (Text.lower own, g.name) ⟨g, hg, hcase, ⟨own, hown, rfl⟩, rfl⟩ rfl
  · rintro h e ⟨g, hg, hcase, ⟨own, hown, hlower⟩, -⟩ rfl
    exact h g hg hcase own hown hlower

/-! ### Checks -/

theorem checkKeys_eq_ok {taken : List (String × String)} {keys : List String} :
    checkKeys f taken keys = .ok () ↔ ∀ key ∈ keys, taken.lookup key = none := by
  induction keys with
  | nil => simp [checkKeys]
  | cons key rest ih =>
    rw [List.forall_mem_cons, checkKeys]
    cases hlookup : taken.lookup key with
    | some other => simp
    | none => simpa using ih

theorem checkFolded_eq_ok {taken : List (String × String)} {keys : List String} :
    checkFolded f taken keys = .ok () ↔ ∀ key ∈ keys, taken.lookup (Text.lower key) = none := by
  induction keys with
  | nil => simp [checkFolded]
  | cons key rest ih =>
    rw [List.forall_mem_cons, checkFolded]
    cases hlookup : taken.lookup (Text.lower key) with
    | some other => simp
    | none => simpa using ih

/-- Two fields without a name or a key in common. -/
structure Apart (o : Options) (g f : Field) : Prop where
  name : g.name ≠ f.name
  keys : ∀ key ∈ keysOf o g, key ∉ keysOf o f

instance : Std.Symm (Apart o) := ⟨fun _ _ h => ⟨h.name.symm, fun key hf hg => h.keys key hg hf⟩⟩

/-- Two fields without a key in common, in whatever case. -/
def ApartFolded (o : Options) (g f : Field) : Prop :=
  ∀ own ∈ keysOf o g, ∀ other ∈ keysOf o f, Text.lower own ≠ Text.lower other

instance : Std.Symm (ApartFolded o) := ⟨fun _ _ h own hown other hother => (h other hother own hown).symm⟩

/-- What is checked of two fields one after the other. -/
structure Checked (o : Options) (g f : Field) : Prop where
  apart : Apart o g f
  folded : g.ignoresCase o → f.ignoresCase o → ApartFolded o g f

theorem checkField_eq_ok {earlier : List Field} :
    checkField o earlier f = .ok () ↔ ∀ g ∈ earlier, Checked o g f := by
  have hparts : checkField o earlier f = .ok () ↔
      ¬ earlier.any (·.name == f.name) ∧ (∀ key ∈ keysOf o f, ∀ g ∈ earlier, key ∉ keysOf o g) ∧
        (f.ignoresCase o → ∀ other ∈ keysOf o f, ∀ g ∈ earlier, g.ignoresCase o →
          ∀ own ∈ keysOf o g, Text.lower own ≠ Text.lower other) := by
    simp only [← lookup_ownKeys_eq_none, ← lookup_ownFolded_eq_none]
    rw [← checkKeys_eq_ok (f := f), ← checkFolded_eq_ok (f := f)]
    unfold checkField
    refine guard_eq_ok.trans (and_congr_right fun _ => seq_eq_ok.trans (and_congr_right fun _ => ?_))
    by_cases hcase : f.ignoresCase o = true
    · simp [hcase]
    · simp [hcase, pure, Except.pure]
  rw [hparts, List.any_eq_true]
  simp only [beq_iff_eq, not_exists, not_and]
  constructor
  · rintro ⟨hnames, hkeys, hfolded⟩ g hg
    exact ⟨⟨hnames g hg, fun key hown hother => hkeys key hother g hg hown⟩,
      fun hcase hcase' own hown other hother => hfolded hcase' other hother g hg hcase own hown⟩
  · intro h
    exact ⟨fun g hg => (h g hg).apart.name, fun key hother g hg hown => (h g hg).apart.keys key hown hother,
      fun hcase' other hother g hg hcase own hown => (h g hg).folded hcase hcase' own hown other hother⟩

theorem checkFields_eq_ok {rest : List Field} : ∀ {earlier : List Field}, checkFields o earlier rest = .ok () ↔
    (∀ g ∈ earlier, ∀ f ∈ rest, Checked o g f) ∧ rest.Pairwise (Checked o) := by
  induction rest with
  | nil => simp [checkFields]
  | cons f rest ih =>
    intro earlier
    have hstep : checkFields o earlier (f :: rest) = .ok () ↔
        checkField o earlier f = .ok () ∧ checkFields o (earlier ++ [f]) rest = .ok () := seq_eq_ok
    rw [hstep, checkField_eq_ok, ih, List.pairwise_cons]
    simp only [List.mem_append, List.mem_singleton, List.forall_mem_cons, or_imp, forall_and, forall_eq]
    tauto

/-! ### Compiled schemas -/

/-- A schema that was compiled. -/
def Compiled (s : Schema) : Prop := ∃ name fields o, compile name fields o = .ok s

theorem compile_eq_ok {fields : List Field} :
    compile name fields o = .ok s ↔ checkFields o [] fields = .ok () ∧
      checkSwallowed (Schema.folded ⟨name, fields, o⟩) (Schema.aliasMap ⟨name, fields, o⟩) = .ok () ∧
      checkDependencies (fields.map Field.name) fields = .ok () ∧ ⟨name, fields, o⟩ = s := by
  unfold compile
  refine seq_eq_ok.trans (and_congr_right fun _ => seq_eq_ok.trans (and_congr_right fun _ =>
    seq_eq_ok.trans (and_congr_right fun _ => ?_)))
  exact ⟨Except.ok.inj, congrArg Except.ok⟩

theorem Compiled.pairwise_checked (h : s.Compiled) : s.fields.Pairwise (Checked s.options) := by
  obtain ⟨name, fields, o, h⟩ := h
  obtain ⟨hfields, -, -, rfl⟩ := compile_eq_ok.mp h
  exact (checkFields_eq_ok.mp hfields).2

theorem Compiled.pairwise_apart (h : s.Compiled) : s.fields.Pairwise (Apart s.options) :=
  h.pairwise_checked.imp Checked.apart

theorem Compiled.nodup_names (h : s.Compiled) : (s.fields.map Field.name).Nodup :=
  List.pairwise_map.mpr (h.pairwise_apart.imp Apart.name)

/-- A name is that of one field. -/
theorem Compiled.eq_of_name (h : s.Compiled) {g : Field} (hg : g ∈ s.fields) (hf : f ∈ s.fields)
    (hname : g.name = f.name) : g = f :=
  List.inj_on_of_nodup_map h.nodup_names hg hf hname

theorem Compiled.fieldNamed? (h : s.Compiled) (hf : f ∈ s.fields) : s.fieldNamed? f.name = some f := by
  unfold Schema.fieldNamed?
  cases hfound : s.fields.find? (·.name == f.name) with
  | none => simpa using List.find?_eq_none.mp hfound f hf
  | some g =>
    have hg := List.mem_of_find?_eq_some hfound
    have hname := List.find?_some hfound
    rw [h.eq_of_name hg hf (by simpa using hname)]

/-! ### The map of keys -/

theorem mem_of_lookup_aliasMap (h : s.aliasMap.lookup key = some name) :
    ∃ f ∈ s.fields, f.name = name ∧ key ∈ keysOf s.options f := by
  obtain ⟨l, l', hsplit, -⟩ := List.lookup_eq_some_iff.mp h
  have hmem : (key, name) ∈ s.aliasMap := by rw [hsplit]; simp
  obtain ⟨f, hf, hown⟩ := List.mem_flatMap.mp hmem
  obtain ⟨hkey, hname⟩ := mem_ownKeys.mp hown
  exact ⟨f, hf, hname.symm, hkey⟩

/-- A key of a field leads to that field. -/
theorem Compiled.lookup_aliasMap (h : s.Compiled) (hf : f ∈ s.fields) (hkey : key ∈ keysOf s.options f) :
    s.aliasMap.lookup key = some f.name := by
  cases hlookup : s.aliasMap.lookup key with
  | none =>
    have hmem : (key, f.name) ∈ s.aliasMap := List.mem_flatMap.mpr ⟨f, hf, mem_ownKeys.mpr ⟨hkey, rfl⟩⟩
    simpa using List.lookup_eq_none_iff.mp hlookup _ hmem
  | some name =>
    obtain ⟨g, hg, rfl, hkey'⟩ := mem_of_lookup_aliasMap hlookup
    by_contra hne
    have hgf : g ≠ f := fun heq => hne (by rw [heq])
    exact (h.pairwise_apart.forall hg hf hgf).keys key hkey' hkey

theorem mem_of_lookup_folded (h : s.folded.lookup key = some name) :
    ∃ f ∈ s.fields, f.name = name ∧ f.ignoresCase s.options ∧ ∃ own ∈ keysOf s.options f, Text.lower own = key := by
  obtain ⟨l, l', hsplit, -⟩ := List.lookup_eq_some_iff.mp h
  have hmem : (key, name) ∈ s.folded := by rw [hsplit]; simp
  obtain ⟨f, hf, hown⟩ := List.mem_flatMap.mp hmem
  obtain ⟨hcase, hkey, hname⟩ := mem_ownFolded.mp hown
  exact ⟨f, hf, hname.symm, hcase, hkey⟩

end Conform.Schema

import Conform.Proofs.Schema.Search

/-! Declarations that can be told apart. A key leads to a field as one of its keys, or as one of them in
    another case where the field ignores case. A schema is compiled from fields if and only if no key can lead
    to two of them and each depends on fields of the schema alone, and each key then goes to the field that it
    leads to. -/

namespace Conform.Schema

open Rule (seq_eq_ok)

variable {s : Schema} {o : Options} {fields : List Field} {f g : Field} {key name : String}

/-! ### Keys that lead to fields -/

/-- Whether a key leads to a field: as it is written, or in another case where the field ignores case. -/
def Claims (o : Options) (f : Field) (key : String) : Prop :=
  key ∈ keysOf o f ∨ f.ignoresCase o ∧ ∃ own ∈ keysOf o f, Text.lower own = Text.lower key

instance (o : Options) (f : Field) (key : String) : Decidable (Claims o f key) := inferInstanceAs (Decidable (_ ∨ _ ∧ _))

/-- Fields that can be told apart, however their keys are written where case is ignored, and that depend on
    each other alone. -/
structure Unambiguous (o : Options) (fields : List Field) : Prop where
  names : (fields.map Field.name).Nodup
  keys : fields.Pairwise fun g f => (keysOf o g).Disjoint (keysOf o f)
  folded : fields.Pairwise fun g f => g.ignoresCase o ∨ f.ignoresCase o → ApartFolded o g f
  dependencies : ∀ f ∈ fields, ∀ d ∈ f.dependencies, d ∈ fields.map Field.name

instance : Std.Symm fun g f : Field => (keysOf o g).Disjoint (keysOf o f) := ⟨fun _ _ h _ hf hg => h hg hf⟩

instance : Std.Symm fun g f : Field => g.ignoresCase o ∨ f.ignoresCase o → ApartFolded o g f :=
  ⟨fun _ _ h hcase => Std.Symm.symm _ _ (h hcase.symm)⟩

/-- No key leads to two fields. -/
theorem Unambiguous.eq_of_claims (h : Unambiguous o fields) (hg : g ∈ fields) (hf : f ∈ fields)
    (hgkey : Claims o g key) (hfkey : Claims o f key) : g = f := by
  by_contra hne
  have hkeys := h.keys.forall hg hf hne
  have hfolded := h.folded.forall hg hf hne
  rcases hgkey with hown | ⟨hcase, own, hown, hlower⟩ <;> rcases hfkey with hother | ⟨hcase', other, hother, hlower'⟩
  · exact hkeys hown hother
  · exact hfolded (.inr hcase') key hown other hother hlower'.symm
  · exact hfolded (.inl hcase) own hown key hother hlower
  · exact hfolded (.inl hcase) own hown other hother (hlower.trans hlower'.symm)

/-! ### Checks -/

theorem checkSwallowed_eq_ok {folded aliases : List (String × String)} :
    checkSwallowed folded aliases = .ok () ↔
      ∀ e ∈ aliases, ∀ other, folded.lookup (Text.lower e.1) = some other → other = e.2 := by
  induction aliases with
  | nil => simp [checkSwallowed]
  | cons e rest ih =>
    obtain ⟨key, owner⟩ := e
    rw [List.forall_mem_cons, checkSwallowed]
    cases hlookup : folded.lookup (Text.lower key) with
    | none => simpa using ih
    | some other =>
      by_cases h : other = owner
      · simpa [h] using ih
      · simp [h]

theorem checkDependencies_eq_ok {names : List String} :
    checkDependencies names fields = .ok () ↔ ∀ f ∈ fields, ∀ d ∈ f.dependencies, d ∈ names := by
  induction fields with
  | nil => simp [checkDependencies]
  | cons f rest ih =>
    rw [List.forall_mem_cons, checkDependencies]
    have hmissing : (f.dependencies.filter (!names.contains ·)).isEmpty = true ↔ ∀ d ∈ f.dependencies, d ∈ names := by
      simp [List.filter_eq_nil_iff]
    rw [← hmissing, ← ih]
    by_cases h : (f.dependencies.filter (!names.contains ·)).isEmpty = true
    · simp only [h, if_true, true_and]
    · simp only [h, if_false, reduceCtorEq, false_and]

section Swallowed

variable (hnames : (fields.map Field.name).Nodup)
  (hswallowed : checkSwallowed (Schema.folded ⟨name, fields, o⟩) (Schema.aliasMap ⟨name, fields, o⟩) = .ok ())

include hnames hswallowed

/-- A key that a field takes from another in a different case is one for which the other ignores case too. -/
theorem ignoresCase_of_checkSwallowed (hg : g ∈ fields) (hcase : g.ignoresCase o) (hf : f ∈ fields) {own other : String}
    (hown : own ∈ keysOf o g) (hother : other ∈ keysOf o f) (hlower : Text.lower own = Text.lower other) :
    f.ignoresCase o := by
  cases hlookup : (Schema.folded ⟨name, fields, o⟩).lookup (Text.lower other) with
  | none => exact absurd hlower (lookup_ownFolded_eq_none.mp hlookup g hg hcase own hown)
  | some found =>
    have hmem : (other, f.name) ∈ Schema.aliasMap ⟨name, fields, o⟩ :=
      List.mem_flatMap.mpr ⟨f, hf, mem_ownKeys.mpr ⟨hother, rfl⟩⟩
    have hfound : found = f.name := checkSwallowed_eq_ok.mp hswallowed _ hmem _ hlookup
    obtain ⟨f', hf', hname, hcase', -⟩ := mem_of_lookup_folded hlookup
    rwa [← List.inj_on_of_nodup_map hnames hf' hf (hname.trans hfound)]

end Swallowed

/-- Once fields are checked one after the other, no key is swallowed if and only if no two of them have a key in
    common in whatever case, where one of the two ignores case. -/
theorem checkSwallowed_iff (h : fields.Pairwise (Checked o)) :
    checkSwallowed (Schema.folded ⟨name, fields, o⟩) (Schema.aliasMap ⟨name, fields, o⟩) = .ok () ↔
      fields.Pairwise fun g f => g.ignoresCase o ∨ f.ignoresCase o → ApartFolded o g f := by
  have hnames : (fields.map Field.name).Nodup := List.pairwise_map.mpr (h.imp fun hchecked => hchecked.apart.name)
  constructor
  · intro hswallowed
    refine h.imp_of_mem fun {g f} hg hf hchecked hcase own hown other hother hlower => ?_
    rcases hcase with hcase | hcase
    · have hcase' := ignoresCase_of_checkSwallowed hnames hswallowed hg hcase hf hown hother hlower
      exact hchecked.folded hcase hcase' own hown other hother hlower
    · have hcase' := ignoresCase_of_checkSwallowed hnames hswallowed hf hcase hg hother hown hlower.symm
      exact hchecked.folded hcase' hcase own hown other hother hlower
  · intro hfolded
    refine checkSwallowed_eq_ok.mpr fun e he other hlookup => ?_
    obtain ⟨f, hf, hmem⟩ := List.mem_flatMap.mp he
    obtain ⟨hkey, hname⟩ := mem_ownKeys.mp hmem
    obtain ⟨g, hg, rfl, hcase, own, hown, hlower⟩ := mem_of_lookup_folded hlookup
    by_contra hne
    have hgf : g ≠ f := fun heq => hne (by rw [hname, heq])
    exact hfolded.forall hg hf hgf (.inl hcase) own hown e.1 hkey hlower

/-- Exactly the fields that can be told apart compile. -/
theorem compile_eq_ok_iff : compile name fields o = .ok s ↔ Unambiguous o fields ∧ ⟨name, fields, o⟩ = s := by
  rw [compile_eq_ok, checkFields_eq_ok, checkDependencies_eq_ok]
  constructor
  · rintro ⟨⟨-, hchecked⟩, hswallowed, hdependencies, hs⟩
    refine ⟨⟨?_, ?_, (checkSwallowed_iff hchecked).mp hswallowed, hdependencies⟩, hs⟩
    · exact List.pairwise_map.mpr (hchecked.imp fun h => h.apart.name)
    · exact hchecked.imp fun h key hown hother => h.apart.keys key hown hother
  · rintro ⟨h, hs⟩
    have hchecked : fields.Pairwise (Checked o) := by
      refine ((List.pairwise_map.mp h.names).and (h.keys.and h.folded)).imp ?_
      rintro g f ⟨hname, hkeys, hfolded⟩
      exact ⟨⟨hname, fun key hown hother => hkeys hown hother⟩, fun hcase _ => hfolded (.inl hcase)⟩
    exact ⟨⟨by simp, hchecked⟩, (checkSwallowed_iff hchecked).mpr h.folded, h.dependencies, hs⟩

/-! ### Compiled schemas -/

theorem Compiled.unambiguous (h : s.Compiled) : Unambiguous s.options s.fields := by
  obtain ⟨name, fields, o, h⟩ := h
  obtain ⟨hfields, rfl⟩ := compile_eq_ok_iff.mp h
  exact hfields

/-- A key belongs to the field that it leads to. -/
theorem Compiled.owner_eq_some_iff (h : s.Compiled) :
    s.owner key = some name ↔ ∃ f ∈ s.fields, f.name = name ∧ Claims s.options f key := by
  have found : ∀ name, s.owner key = some name → ∃ f ∈ s.fields, f.name = name ∧ Claims s.options f key := by
    intro name howner
    rcases Option.or_eq_some_iff.mp howner with hlookup | ⟨-, hlookup⟩
    · obtain ⟨f, hf, hname, hkey⟩ := mem_of_lookup_aliasMap hlookup
      exact ⟨f, hf, hname, .inl hkey⟩
    · obtain ⟨f, hf, hname, hcase, hkey⟩ := mem_of_lookup_folded hlookup
      exact ⟨f, hf, hname, .inr ⟨hcase, hkey⟩⟩
  refine ⟨found name, ?_⟩
  rintro ⟨f, hf, rfl, hclaim⟩
  cases howner : s.owner key with
  | some other =>
    obtain ⟨g, hg, rfl, hgclaim⟩ := found other howner
    rw [h.unambiguous.eq_of_claims hg hf hgclaim hclaim]
  | none =>
    obtain ⟨halias, hfolded⟩ := Option.or_eq_none_iff.mp howner
    rcases hclaim with hkey | ⟨hcase, own, hown, hlower⟩
    · exact absurd hkey (lookup_ownKeys_eq_none.mp halias f hf)
    · exact absurd hlower (lookup_ownFolded_eq_none.mp hfolded f hf hcase own hown)

theorem Compiled.owner_eq_none_iff (h : s.Compiled) :
    s.owner key = none ↔ ∀ f ∈ s.fields, ¬ Claims s.options f key := by
  rw [Option.eq_none_iff_forall_ne_some]
  simp only [ne_eq, h.owner_eq_some_iff, not_exists, not_and]
  exact ⟨fun hnone f hf => hnone f.name f hf rfl, fun hnone name f hf _ => hnone f hf⟩

/-- The keys that belong to no field are those that lead to none, as they come in. -/
theorem Compiled.excess_unclaimed (h : s.Compiled) {keys : List String} (hkeys : keys.Nodup) (o : Options) :
    (s.matchKeys o keys).excess = keys.filter fun key => ∀ f ∈ s.fields, ¬ Claims s.options f key := by
  rw [h.excess_matchKeys hkeys]
  refine List.filter_congr fun key _ => ?_
  rw [Bool.eq_iff_iff, Option.isNone_iff_eq_none, h.owner_eq_none_iff, decide_eq_true_eq]

theorem Compiled.lookup_aliasMap_eq_some_iff (h : s.Compiled) :
    s.aliasMap.lookup key = some name ↔ ∃ f ∈ s.fields, f.name = name ∧ key ∈ keysOf s.options f := by
  refine ⟨mem_of_lookup_aliasMap, ?_⟩
  rintro ⟨f, hf, rfl, hkey⟩
  exact h.lookup_aliasMap hf hkey

/-- The accessor finds a field by the keys that it declares, as they are written. -/
theorem Compiled.field?_eq_some_iff (h : s.Compiled) :
    s.field? key = some f ↔ f ∈ s.fields ∧ key ∈ keysOf s.options f := by
  have named {name : String} (hname : s.fieldNamed? name = some f) : f ∈ s.fields ∧ f.name = name :=
    ⟨List.mem_of_find?_eq_some hname, by simpa using List.find?_some hname⟩
  unfold field?
  constructor
  · intro hfound
    rcases Option.or_eq_some_iff.mp hfound with hname | ⟨-, hkey⟩
    · obtain ⟨hf, rfl⟩ := named hname
      exact ⟨hf, name_mem_keysOf s.options f⟩
    · obtain ⟨name, hlookup, hname⟩ := Option.bind_eq_some_iff.mp hkey
      obtain ⟨hf, rfl⟩ := named hname
      obtain ⟨g, hg, hgname, hgkey⟩ := mem_of_lookup_aliasMap hlookup
      rw [h.eq_of_name hg hf hgname] at hgkey
      exact ⟨hf, hgkey⟩
  · rintro ⟨hf, hkey⟩
    cases hname : s.fieldNamed? key with
    | none => rw [Option.none_or, h.lookup_aliasMap hf hkey, Option.bind_some, h.fieldNamed? hf]
    | some g =>
      have hg : g ∈ s.fields := List.mem_of_find?_eq_some hname
      have hgname : g.name = key := by simpa using List.find?_some hname
      have hgkey : key ∈ keysOf s.options g := hgname ▸ name_mem_keysOf s.options g
      rw [Option.some_or, h.unambiguous.eq_of_claims hg hf (.inl hgkey) (.inl hkey)]

/-- Either search finds, for the name of a field, the keys of the input that lead to it, and the keys that are
    left lead to no field. -/
theorem Compiled.mem_matches_iff (h : s.Compiled) {input : List String} (hinput : input.Nodup) {m : Matches}
    (hm : m = s.matchByFields input ∨ m = s.matchByInput input) :
    (∀ name, key ∈ m.of name ↔ key ∈ input ∧ ∃ f ∈ s.fields, f.name = name ∧ Claims s.options f key) ∧
      (key ∈ m.excess ↔ key ∈ input ∧ ∀ f ∈ s.fields, ¬ Claims s.options f key) := by
  have hof (name : String) : m.of name = preferred (s.keysNamed name) (s.owned input name) := by
    rcases hm with rfl | rfl
    · exact h.of_matchByFields hinput name
    · exact of_matchByInput s input name
  have hexcess : m.excess = input.filter fun key => (s.owner key).isNone := by
    rcases hm with rfl | rfl
    · exact h.excess_matchByFields hinput
    · exact excess_matchByInput s input
  refine ⟨fun name => ?_, ?_⟩
  · rw [hof, (perm_preferred _ _).mem_iff, mem_owned, h.owner_eq_some_iff]
  · rw [hexcess, List.mem_filter, Option.isNone_iff_eq_none, h.owner_eq_none_iff]

/-- The keys that belong to a field, and those that belong to none, are keys of the input. -/
theorem Compiled.given_of_matchKeys (h : s.Compiled) {keys : List String} (hkeys : keys.Nodup) (o : Options) :
    (∀ f ∈ s.fields, ∀ key ∈ (s.matchKeys o keys).of f.name, key ∈ keys) ∧ ∀ key ∈ (s.matchKeys o keys).excess, key ∈ keys :=
  ⟨fun f _ _ hkey => (((h.mem_matches_iff hkeys (matchKeys_cases s o keys)).1 f.name).mp hkey).1,
    fun _ hkey => ((h.mem_matches_iff hkeys (matchKeys_cases s o keys)).2.mp hkey).1⟩

/-- Fields compile if and only if they can be told apart and depend on each other alone, and then no key leads to
    two of them. A key goes to the field that it leads to, by either search; where it is one of the field's own
    as it is written, and only there, the accessors give that field too. -/
theorem compile_iff_unambiguous (name : String) (fields : List Field) (o : Options) :
    ((∃ s, compile name fields o = .ok s) ↔ Unambiguous o fields) ∧
    ∀ s, compile name fields o = .ok s → s = ⟨name, fields, o⟩ ∧ ∀ key : String,
      (∀ g ∈ fields, ∀ f ∈ fields, Claims o g key → Claims o f key → g = f) ∧
      (∀ f, s.field? key = some f ↔ f ∈ fields ∧ key ∈ keysOf o f) ∧
      (∀ name, s.aliasMap.lookup key = some name ↔ ∃ f ∈ fields, f.name = name ∧ key ∈ keysOf o f) ∧
      ∀ input : List String, input.Nodup → ∀ m, m = s.matchByFields input ∨ m = s.matchByInput input →
        (∀ name, key ∈ m.of name ↔ key ∈ input ∧ ∃ f ∈ fields, f.name = name ∧ Claims o f key) ∧
        (key ∈ m.excess ↔ key ∈ input ∧ ∀ f ∈ fields, ¬ Claims o f key) := by
  refine ⟨?_, fun s hs => ?_⟩
  · simp only [compile_eq_ok_iff, exists_and_left, exists_eq', and_true]
  · have hcompiled : s.Compiled := ⟨name, fields, o, hs⟩
    obtain ⟨hfields, rfl⟩ := compile_eq_ok_iff.mp hs
    exact ⟨rfl, fun key => ⟨fun g hg f hf => hfields.eq_of_claims hg hf, fun _ => hcompiled.field?_eq_some_iff,
      fun _ => hcompiled.lookup_aliasMap_eq_some_iff, fun _ hinput _ hm => hcompiled.mem_matches_iff hinput hm⟩⟩

/-- A field that ignores case beside one that depends on it. -/
theorem compile_token :
    let token : Field := { name := "Token", rule := .any, aliases := ["key"], caseInsensitive := some true }
    let note : Field := { name := "note", rule := .any, dependencies := ["Token"] }
    let s : Schema := ⟨"Call", [token, note], {}⟩
    compile "Call" [token, note] {} = .ok s ∧ ["KEY", "x", "note"].Nodup ∧ Unambiguous {} [token, note] ∧
      s.field? "key" = some token ∧ "KEY" ∈ (s.matchByFields ["KEY", "x", "note"]).of "Token" ∧
      "x" ∈ (s.matchByInput ["KEY", "x", "note"]).excess := by
  intro token note s
  have hs : compile "Call" [token, note] {} = .ok s := by
    have hkeys : ∀ key ∈ keysOf {} token, key ∉ keysOf {} note := by decide
    have hfolded : ∀ own ∈ keysOf {} token, ∀ other ∈ keysOf {} note, Text.lower own ≠ Text.lower other := by decide
    exact compile_eq_ok_iff.mpr ⟨⟨by decide, List.pairwise_pair.mpr hkeys, List.pairwise_pair.mpr fun _ => hfolded,
      by simp [token, note]⟩, rfl⟩
  have hinput : ["KEY", "x", "note"].Nodup := by decide
  obtain ⟨hiff, hkeys⟩ := compile_iff_unambiguous "Call" [token, note] {}
  obtain ⟨-, hkeys⟩ := hkeys s hs
  refine ⟨hs, hinput, hiff.mp ⟨s, hs⟩, ?_, ?_, ?_⟩
  · obtain ⟨-, hfield, -, -⟩ := hkeys "key"
    exact (hfield token).mpr ⟨by simp, by decide⟩
  · obtain ⟨-, -, -, hmatch⟩ := hkeys "KEY"
    obtain ⟨hof, -⟩ := hmatch _ hinput _ (.inl rfl)
    exact (hof "Token").mpr ⟨by decide, token, by simp, rfl, .inr ⟨rfl, "key", by decide, by decide⟩⟩
  · obtain ⟨-, -, -, hmatch⟩ := hkeys "x"
    obtain ⟨-, hexcess⟩ := hmatch _ hinput _ (.inr rfl)
    refine hexcess.mpr ⟨by decide, ?_⟩
    unfold Claims
    decide

/-- A key in another case leads to a field that ignores case, and the searches give it to that field, but the
    accessors do not. -/
theorem field?_token :
    let token : Field := { name := "Token", rule := .any, caseInsensitive := some true }
    let s : Schema := ⟨"Call", [token], {}⟩
    compile "Call" [token] {} = .ok s ∧ Claims {} token "TOKEN" ∧ s.field? "TOKEN" = none ∧
      s.aliasMap.lookup "TOKEN" = none ∧
      ∀ m, m = s.matchByFields ["TOKEN"] ∨ m = s.matchByInput ["TOKEN"] → "TOKEN" ∈ m.of "Token" := by
  intro token s
  have hs : compile "Call" [token] {} = .ok s :=
    compile_eq_ok_iff.mpr ⟨⟨by decide, List.pairwise_singleton _ _, List.pairwise_singleton _ _, by simp [token]⟩, rfl⟩
  have hclaim : Claims {} token "TOKEN" := .inr ⟨rfl, "Token", by decide, by decide⟩
  have hcompiled : s.Compiled := ⟨_, _, _, hs⟩
  refine ⟨hs, hclaim, rfl, rfl, fun m hm => ?_⟩
  obtain ⟨hof, -⟩ := hcompiled.mem_matches_iff (List.nodup_singleton _) hm
  exact (hof "Token").mpr ⟨List.mem_singleton_self _, token, List.mem_singleton_self _, rfl, hclaim⟩

end Conform.Schema

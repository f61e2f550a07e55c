import Conform.Proofs.Coupling.Exact
import Conform.Proofs.Schema.Keys
import Conform.Schema.Matching

/-! The search for keys. Whether it goes by the fields or by the input, a key belongs to the field that accepts
    it as it is written, or else to the one that accepts it in another case, and the keys of a field stand in
    the order of preference. Both searches find the same, so which of them is made does not show in what a
    schema makes of an input. -/

namespace Conform

namespace Schema

variable {s : Schema} {f : Field} {key name : String} {input : List String}

/-! ### Owners -/

/-- The name of the field to which a key belongs. -/
def owner (s : Schema) (key : String) : Option String :=
  (s.aliasMap.lookup key).or (s.folded.lookup (Text.lower key))

/-- The keys of an input that belong to a field, as they come in. -/
def owned (s : Schema) (input : List String) (name : String) : List String :=
  input.filter fun key => s.owner key == some name

theorem mem_owned : key ∈ s.owned input name ↔ key ∈ input ∧ s.owner key = some name := by
  simp [owned]

theorem nodup_owned (h : input.Nodup) (name : String) : (s.owned input name).Nodup := h.filter _

/-- A key belongs to one of the fields, if to any. -/
theorem mem_names_of_owner (h : s.owner key = some name) : ∃ f ∈ s.fields, f.name = name := by
  rcases Option.or_eq_some_iff.mp h with h | ⟨-, h⟩
  · obtain ⟨f, hf, hname, -⟩ := mem_of_lookup_aliasMap h
    exact ⟨f, hf, hname⟩
  · obtain ⟨f, hf, hname, -⟩ := mem_of_lookup_folded h
    exact ⟨f, hf, hname⟩

theorem Compiled.owner_of_mem_keysOf (h : s.Compiled) (hf : f ∈ s.fields) (hkey : key ∈ keysOf s.options f) :
    s.owner key = some f.name := by
  rw [owner, h.lookup_aliasMap hf hkey, Option.some_or]

/-- A key that belongs to a field, but not as it is written, belongs to it because case is ignored. -/
theorem Compiled.isFoldedHit_iff (h : s.Compiled) (hf : f ∈ s.fields) :
    isFoldedHit s.aliasMap s.folded f.name key ↔ s.owner key = some f.name ∧ key ∉ keysOf s.options f := by
  unfold isFoldedHit owner
  cases hlookup : s.aliasMap.lookup key with
  | none =>
    have hkey : key ∉ keysOf s.options f := fun hkey => by
      rw [h.lookup_aliasMap hf hkey] at hlookup
      cases hlookup
    simp [hkey]
  | some name =>
    obtain ⟨g, hg, rfl, hkey⟩ := mem_of_lookup_aliasMap hlookup
    simp only [Option.isNone_some, Bool.false_and, Bool.false_eq_true, Option.some_or, Option.some.injEq, false_iff,
      not_and, not_not]
    intro hname
    rwa [← h.eq_of_name hg hf hname]

/-! ### The order of preference -/

/-- A list in which what has a property stands before what has not is made of the two parts. -/
theorem filter_append_filter_not {α : Type} (p : α → Bool) {l : List α} (h : l.Pairwise fun a b => p b → p a) :
    l.filter p ++ l.filter (!p ·) = l := by
  induction l with
  | nil => rfl
  | cons a rest ih =>
    obtain ⟨ha, hrest⟩ := List.pairwise_cons.mp h
    by_cases hp : p a
    · rw [List.filter_cons_of_pos hp, List.filter_cons_of_neg (by simp [hp]), List.cons_append, ih hrest]
    · have hnone : rest.filter p = [] := List.filter_eq_nil_iff.mpr fun b hb hpb => hp (ha b hb hpb)
      have hall : rest.filter (!p ·) = rest := List.filter_eq_self.mpr fun b hb => by
        simpa using fun hpb => hp (ha b hb hpb)
      rw [List.filter_cons_of_neg hp, List.filter_cons_of_pos (by simp [hp]), hnone, hall, List.nil_append]

theorem pairwise_idxOf {keys : List String} (h : keys.Nodup) :
    keys.Pairwise fun a b => keys.idxOf a ≤ keys.idxOf b := by
  rw [List.pairwise_iff_getElem]
  intro i j hi hj hij
  rw [h.idxOf_getElem i hi, h.idxOf_getElem j hj]
  exact Nat.le_of_lt hij

/-- Some of the keys, in their order, are those among the keys that pass a test. -/
theorem eq_filter_of_pairwise_idxOf {keys l : List String} (hkeys : keys.Nodup) (hl : l.Nodup)
    (horder : l.Pairwise fun a b => keys.idxOf a ≤ keys.idxOf b) (test : String → Bool)
    (hmem : ∀ key, key ∈ l ↔ key ∈ keys ∧ test key = true) : l = keys.filter test := by
  refine List.Perm.eq_of_pairwise ?_ horder ((pairwise_idxOf hkeys).filter _) ?_
  -- No two keys have the same place.
  · intro a b ha _ hab hba
    exact (List.idxOf_inj ((hmem a).mp ha).1).mp (Nat.le_antisymm hab hba)
  · rw [List.perm_ext_iff_of_nodup hl (hkeys.filter _)]
    exact fun key => (hmem key).trans List.mem_filter.symm

section Sorted

variable {α : Type} (keys : List String) (key : α → String) (l : List α)

theorem before_trans (a b c : String) (hab : decide (keys.idxOf a ≤ keys.idxOf b))
    (hbc : decide (keys.idxOf b ≤ keys.idxOf c)) : decide (keys.idxOf a ≤ keys.idxOf c) := by
  rw [decide_eq_true_eq] at hab hbc ⊢
  exact Nat.le_trans hab hbc

theorem before_total (a b : String) :
    decide (keys.idxOf a ≤ keys.idxOf b) || decide (keys.idxOf b ≤ keys.idxOf a) := by
  rw [Bool.or_eq_true, decide_eq_true_eq, decide_eq_true_eq]
  exact Nat.le_total _ _

/-- A list by the places of its keys. -/
theorem pairwise_mergeSort : (l.mergeSort fun a b => keys.idxOf (key a) ≤ keys.idxOf (key b)).Pairwise
    fun a b => keys.idxOf (key a) ≤ keys.idxOf (key b) := by
  have hsorted := List.pairwise_mergeSort (fun a b c => before_trans keys (key a) (key b) (key c))
    (fun a b => before_total keys (key a) (key b)) l
  exact hsorted.imp of_decide_eq_true

/-- What has no place stays as it comes in. -/
theorem filter_not_mergeSort :
    (l.mergeSort fun a b => keys.idxOf (key a) ≤ keys.idxOf (key b)).filter (fun a => !keys.contains (key a)) =
      l.filter fun a => !keys.contains (key a) := by
  have hlast : (l.filter fun a => !keys.contains (key a)).Pairwise fun a b =>
      decide (keys.idxOf (key a) ≤ keys.idxOf (key b)) := by
    refine List.pairwise_of_forall_mem_list fun a ha b hb => ?_
    have ha' : key a ∉ keys := by simpa using (List.mem_filter.mp ha).2
    have hb' : key b ∉ keys := by simpa using (List.mem_filter.mp hb).2
    simp [List.idxOf_eq_length ha', List.idxOf_eq_length hb']
  have hsub := List.sublist_mergeSort (fun a b c => before_trans keys (key a) (key b) (key c))
    (fun a b => before_total keys (key a) (key b)) hlast List.filter_sublist
  have hkept := hsub.filter fun a => !keys.contains (key a)
  simp only [List.filter_filter, Bool.and_self] at hkept
  exact (hkept.eq_of_length ((List.mergeSort_perm l _).symm.filter _).length_eq).symm

variable {keys key l}

/-- A list by the places of its keys is what has a place, in the order of the places, and then the rest, as it comes in. -/
theorem exists_mergeSort_eq (hkeys : keys.Nodup) (hl : (l.map key).Nodup) :
    ∃ own, own.map key = keys.filter (l.map key).contains ∧
      (l.mergeSort fun a b => keys.idxOf (key a) ≤ keys.idxOf (key b)) = own ++ l.filter fun a => !keys.contains (key a) := by
  set sorted := l.mergeSort fun a b => keys.idxOf (key a) ≤ keys.idxOf (key b) with hdef
  have hperm : sorted.Perm l := List.mergeSort_perm _ _
  have hsorted : sorted.Pairwise fun a b => keys.idxOf (key a) ≤ keys.idxOf (key b) := pairwise_mergeSort keys key l
  have hfirst : sorted.Pairwise fun a b => keys.contains (key b) → keys.contains (key a) := by
    refine hsorted.imp fun hab hb => ?_
    rw [List.contains_iff_mem, ← List.idxOf_lt_length_iff] at hb ⊢
    exact Nat.lt_of_le_of_lt hab hb
  have hplaces : (sorted.map key).Pairwise fun a b => keys.idxOf a ≤ keys.idxOf b := List.pairwise_map.mpr hsorted
  have hown : (sorted.map key).filter keys.contains = keys.filter (l.map key).contains :=
    eq_filter_of_pairwise_idxOf hkeys (((hperm.map key).nodup_iff.mpr hl).filter _) (hplaces.filter _) _ fun name => by
        rw [List.mem_filter, (hperm.map key).mem_iff, List.contains_iff_mem, List.contains_iff_mem, and_comm]
  refine ⟨sorted.filter fun a => keys.contains (key a), ?_, ?_⟩
  · rw [← hown, List.filter_map]
    rfl
  · rw [← filter_not_mergeSort keys key l, ← hdef]
    exact (filter_append_filter_not _ hfirst).symm

/-- A record that is arranged has its declared names in their order, and behind them the others, as they were. -/
theorem exists_arranged_eq {order : List String} {r : Record} (horder : order.Nodup) (hr : r.names.Nodup) :
    ∃ own : Record, own.names = order.filter r.names.contains ∧
      r.arranged order = own ++ r.filter fun e => !order.contains e.1 :=
  exists_mergeSort_eq horder hr

end Sorted

theorem perm_preferred (keys hits : List String) : (preferred keys hits).Perm hits := List.mergeSort_perm _ _

/-- Keys in the order of preference are those that are declared, as they are declared, and then the others,
    as they come in. -/
theorem preferred_eq {keys hits : List String} (hkeys : keys.Nodup) (hhits : hits.Nodup) :
    preferred keys hits = keys.filter hits.contains ++ hits.filter (!keys.contains ·) := by
  have hnodup : (hits.map id).Nodup := hits.map_id.symm ▸ hhits
  obtain ⟨own, hown, hsorted⟩ := exists_mergeSort_eq hkeys hnodup
  rw [List.map_id, List.map_id] at hown
  rw [← hown]
  exact hsorted

/-! ### By the fields -/

theorem Compiled.hitsOf_eq (h : s.Compiled) (hf : f ∈ s.fields) (hinput : input.Nodup) :
    s.hitsOf s.aliasMap s.folded input f = preferred (keysOf s.options f) (s.owned input f.name) := by
  have hexact : (keysOf s.options f).filter (s.owned input f.name).contains =
      (keysOf s.options f).filter input.contains := by
    refine List.filter_congr fun key hkey => ?_
    rw [Bool.eq_iff_iff, List.contains_iff_mem, List.contains_iff_mem, mem_owned]
    simp [h.owner_of_mem_keysOf hf hkey]
  have hfolded : (s.owned input f.name).filter (!(keysOf s.options f).contains ·) =
      input.filter (isFoldedHit s.aliasMap s.folded f.name) := by
    rw [owned, List.filter_filter]
    refine List.filter_congr fun key _ => ?_
    rw [Bool.eq_iff_iff, h.isFoldedHit_iff hf]
    simp [and_comm]
  rw [preferred_eq (nodup_keysOf _ _) (nodup_owned hinput _), hexact, hfolded, hitsOf]
  split
  · rfl
  · next hcase =>
    -- Nothing is found in another case for a field that minds case, so it is not looked for.
    have hnone : input.filter (isFoldedHit s.aliasMap s.folded f.name) = [] := by
      refine List.filter_eq_nil_iff.mpr fun key _ hhit => hcase ?_
      obtain ⟨-, hlookup⟩ := Bool.and_eq_true_iff.mp hhit
      obtain ⟨g, hg, hname, hgcase, -⟩ := mem_of_lookup_folded (beq_iff_eq.mp hlookup)
      rwa [← h.eq_of_name hg hf hname]
    rw [hnone, List.append_nil]

theorem Compiled.mem_hitsOf (h : s.Compiled) (hf : f ∈ s.fields) (hinput : input.Nodup) :
    key ∈ s.hitsOf s.aliasMap s.folded input f ↔ key ∈ input ∧ s.owner key = some f.name := by
  rw [h.hitsOf_eq hf hinput, (perm_preferred _ _).mem_iff, mem_owned]

/-- Nothing belongs to a name that no field has. -/
theorem owned_eq_nil (h : ∀ f ∈ s.fields, f.name ≠ name) : s.owned input name = [] := by
  refine List.filter_eq_nil_iff.mpr fun key _ howner => ?_
  obtain ⟨f, hf, hname⟩ := mem_names_of_owner (beq_iff_eq.mp howner)
  exact h f hf hname

theorem lookup_map_fields {β : Type} (value : Field → β) {fields : List Field} (hnames : (fields.map Field.name).Nodup)
    (hf : f ∈ fields) : (fields.map fun f => (f.name, value f)).lookup f.name = some (value f) := by
  induction fields with
  | nil => cases hf
  | cons g rest ih =>
    obtain ⟨hg, hrest⟩ := List.nodup_cons.mp hnames
    rcases List.mem_cons.mp hf with rfl | hf
    · simp
    · have hne : f.name ≠ g.name := fun heq => hg (heq ▸ List.mem_map_of_mem hf)
      rw [List.map_cons, List.lookup_cons, beq_false_of_ne hne]
      exact ih hrest hf

/-- What the search by the fields finds for a field. -/
theorem Compiled.of_matchByFields (h : s.Compiled) (hinput : input.Nodup) (name : String) :
    (s.matchByFields input).of name = preferred (s.keysNamed name) (s.owned input name) := by
  by_cases hname : ∃ f ∈ s.fields, f.name = name
  · obtain ⟨f, hf, rfl⟩ := hname
    rw [Matches.of, matchByFields, lookup_map_fields _ h.nodup_names hf, Option.getD_some, h.hitsOf_eq hf hinput,
      keysNamed, h.fieldNamed? hf]
  · have hnone : ∀ f ∈ s.fields, f.name ≠ name := fun f hf heq => hname ⟨f, hf, heq⟩
    have hlookup : (s.matchByFields input).hits.lookup name = none := by
      refine List.lookup_eq_none_iff.mpr fun e he => ?_
      obtain ⟨f, hf, rfl⟩ := List.mem_map.mp he
      simpa using (hnone f hf).symm
    rw [Matches.of, hlookup, owned_eq_nil hnone]
    simp [preferred]

theorem Compiled.excess_matchByFields (h : s.Compiled) (hinput : input.Nodup) :
    (s.matchByFields input).excess = input.filter fun key => (s.owner key).isNone := by
  refine List.filter_congr fun key hkey => ?_
  have htaken : key ∈ (s.fields.map fun f => (f.name, s.hitsOf s.aliasMap s.folded input f)).flatMap Prod.snd ↔
      (s.owner key).isSome := by
    rw [List.flatMap_map, List.mem_flatMap, Option.isSome_iff_exists]
    constructor
    · rintro ⟨f, hf, hhit⟩
      exact ⟨f.name, ((h.mem_hitsOf hf hinput).mp hhit).2⟩
    · rintro ⟨name, howner⟩
      obtain ⟨f, hf, rfl⟩ := mem_names_of_owner howner
      exact ⟨f, hf, (h.mem_hitsOf hf hinput).mpr ⟨hkey, howner⟩⟩
  rw [Bool.eq_iff_iff, Bool.not_eq_true', ← Bool.not_eq_true, List.contains_iff_mem, htaken]
  simp

/-! ### By the input -/

theorem lookup_addHit (key : String) (hits : List (String × List String)) (n : String) :
    ((addHit name key hits).lookup n).getD [] = (hits.lookup n).getD [] ++ if n = name then [key] else [] := by
  induction hits with
  | nil =>
    by_cases h : n = name
    · simp [addHit, h]
    · simp [addHit, List.lookup_cons, h, beq_false_of_ne h]
  | cons e rest ih =>
    obtain ⟨m, keys⟩ := e
    by_cases hm : m = name
    · subst hm
      by_cases h : n = m
      · simp [addHit, h]
      · simp [addHit, List.lookup_cons, h, beq_false_of_ne h]
    · rw [addHit, if_neg hm, List.lookup_cons, List.lookup_cons]
      by_cases h : n = m
      · simp [h, hm]
      · simpa [beq_false_of_ne h] using ih

/-- Keys that are assigned one by one stand behind those before them. -/
theorem assign_spec (s : Schema) (input : List String) : ∀ m : Matches,
    (∀ name, (assign s.aliasMap s.folded m input).of name = m.of name ++ s.owned input name) ∧
      (assign s.aliasMap s.folded m input).excess = m.excess ++ input.filter fun key => (s.owner key).isNone := by
  induction input with
  | nil => simp [assign, owned]
  | cons key rest ih =>
    intro m
    unfold assign
    cases howner : (s.aliasMap.lookup key).or (s.folded.lookup (Text.lower key)) with
    | some found =>
      obtain ⟨hof, hexcess⟩ := ih { m with hits := addHit found key m.hits }
      have howner' : s.owner key = some found := howner
      refine ⟨fun name => ?_, by rw [hexcess, List.filter_cons_of_neg (by simp [howner'])]⟩
      rw [hof, Matches.of, lookup_addHit, List.append_assoc]
      by_cases hname : name = found
      · simp [Matches.of, owned, howner', hname]
      · have hne : found ≠ name := fun heq => hname heq.symm
        simp [Matches.of, owned, howner', hname, hne]
    | none =>
      obtain ⟨hof, hexcess⟩ := ih { m with excess := m.excess ++ [key] }
      have howner' : s.owner key = none := howner
      refine ⟨fun name => ?_, ?_⟩
      · rw [hof]
        simp [Matches.of, owned, howner']
      · rw [hexcess, List.filter_cons_of_pos (by simp [howner']), List.append_assoc, List.singleton_append]

/-- What the search by the input finds for a field. -/
theorem of_matchByInput (s : Schema) (input : List String) (name : String) :
    (s.matchByInput input).of name = preferred (s.keysNamed name) (s.owned input name) := by
  have hmap (hits : List (String × List String)) :
      ((hits.map fun e => (e.1, preferred (s.keysNamed e.1) e.2)).lookup name).getD [] =
        preferred (s.keysNamed name) ((hits.lookup name).getD []) := by
    induction hits with
    | nil => simp [preferred]
    | cons e rest ih =>
      obtain ⟨n, keys⟩ := e
      rw [List.map_cons, List.lookup_cons, List.lookup_cons]
      by_cases hname : name = n
      · simp [hname]
      · simpa only [beq_false_of_ne hname] using ih
  have hof := (assign_spec s input ⟨[], []⟩).1 name
  rw [Matches.of] at hof
  rw [Matches.of, matchByInput]
  refine (hmap _).trans ?_
  rw [hof]
  simp [Matches.of]

theorem excess_matchByInput (s : Schema) (input : List String) :
    (s.matchByInput input).excess = input.filter fun key => (s.owner key).isNone := by
  have hexcess := (assign_spec s input ⟨[], []⟩).2
  simpa [matchByInput] using hexcess

/-! ### Either way -/

theorem Compiled.of_eq (h : s.Compiled) (hinput : input.Nodup) (name : String) :
    (s.matchByFields input).of name = (s.matchByInput input).of name := by
  rw [h.of_matchByFields hinput, of_matchByInput]

theorem Compiled.excess_eq (h : s.Compiled) (hinput : input.Nodup) :
    (s.matchByFields input).excess = (s.matchByInput input).excess := by
  rw [h.excess_matchByFields hinput, excess_matchByInput]

theorem matchKeys_cases (s : Schema) (o : Options) (input : List String) :
    s.matchKeys o input = s.matchByFields input ∨ s.matchKeys o input = s.matchByInput input := by
  unfold matchKeys
  split
  · exact .inr rfl
  · exact .inl rfl

theorem Compiled.of_matchKeys (h : s.Compiled) {keys : List String} (hkeys : keys.Nodup) (o : Options) (name : String) :
    (s.matchKeys o keys).of name = preferred (s.keysNamed name) (s.owned keys name) := by
  rcases matchKeys_cases s o keys with heq | heq <;> rw [heq]
  · exact h.of_matchByFields hkeys name
  · exact of_matchByInput s keys name

theorem Compiled.excess_matchKeys (h : s.Compiled) {keys : List String} (hkeys : keys.Nodup) (o : Options) :
    (s.matchKeys o keys).excess = keys.filter fun key => (s.owner key).isNone := by
  rcases matchKeys_cases s o keys with heq | heq <;> rw [heq]
  · exact h.excess_matchByFields hkeys
  · exact excess_matchByInput s keys

/-- A compiled schema reads the same by whichever search. -/
theorem Compiled.suits_exact (h : s.Compiled) : Coupling.exact.Suits s where
  hits {o p names} _ hnames name := by
    unfold matchKeys
    split <;> split <;> simp only [h.of_eq hnames]
  excess {o p names} _ hnames := by
    unfold matchKeys
    split <;> split <;> simp only [h.excess_eq hnames]
  policy o p hop :=
    show o.withoutSearch.excessPolicy = p.withoutSearch.excessPolicy from congrArg Options.excessPolicy hop
  steady _ _ _ _ := trivial

end Schema

namespace Catalog

/-- The search never matters: both ways find the same keys for every field and leave the same keys over, and
    what a schema makes of an input, with its warnings or its failure, is the same under options that differ in
    the search alone. -/
theorem parse_eq_of_withoutSearch {c : Catalog} {s : Schema} (hc : ∀ t ∈ c.schemas, t.Compiled) (hs : s.Compiled) :
    (∀ input : List String, input.Nodup →
      (∀ name, (s.matchByFields input).of name = (s.matchByInput input).of name) ∧
        (s.matchByFields input).excess = (s.matchByInput input).excess) ∧
    ∀ (v : Value) (o o' : Options) (calls : Calls), o.withoutSearch = o'.withoutSearch →
      c.parse s v o calls = c.parse s v o' calls := by
  refine ⟨fun input hinput => ⟨hs.of_eq hinput, hs.excess_eq hinput⟩, fun v o o' calls h => ?_⟩
  have hread : Coupling.exact.Rel Eq (c.readRecord s v) (c.readRecord s v) :=
    Coupling.rel_catalog_readRecord (fun t ht => (hc t ht).suits_exact) hs.suits_exact v
  have hmerge : (s.options.merge o).withoutSearch = (s.options.merge o').withoutSearch :=
    Options.merge_right_withoutSearch_congr s.options h
  exact Coupling.atRoot_eq_of_exact hmerge (Coupling.rel_exact_concluded hread) calls

/-- Two keys of one field, one of them in another case, under either search. -/
theorem parse_person :
    let person : Schema :=
      ⟨"Person", [{ name := "name", rule := .of .str, aliases := ["nick"], caseInsensitive := some true }], {}⟩
    Schema.compile person.name person.fields person.options = .ok person ∧
      (person.matchByFields ["NAME", "nick"]).of "name" = (person.matchByInput ["NAME", "nick"]).of "name" ∧
      ∀ v calls, parse { schemas := [person] } person v { dataFirstSearch := some true } calls =
        parse { schemas := [person] } person v { dataFirstSearch := some false } calls := by
  intro person
  have hperson : person.Compiled := ⟨person.name, person.fields, person.options, rfl⟩
  have hcatalog : ∀ t ∈ [person], t.Compiled := List.forall_mem_singleton.mpr hperson
  refine ⟨rfl, ?_, fun v calls => ?_⟩
  · exact ((parse_eq_of_withoutSearch (c := { schemas := [person] }) hcatalog hperson).1 _ (by decide)).1 "name"
  · exact (parse_eq_of_withoutSearch hcatalog hperson).2 v _ _ calls rfl

end Catalog

end Conform

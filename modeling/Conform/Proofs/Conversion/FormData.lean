import Conform.Conversion.Container
import Mathlib.Data.List.Basic
import Mathlib.Data.List.Induction

/-! Queries and cookies as maps. Each key of their pairs stands once, where it first occurs; one more pair is put behind the
    values that its key has, or makes a key of its own behind all others, so no value is lost and none changes its place. -/

namespace Conform

variable {pairs : List (String × String)} {groups : List (String × List String)} {p : String × String} {key : String}

namespace Text.FormData

/-! ### One more pair -/

/-- The values of a key, in the order in which they occur. -/
def valuesOf (pairs : List (String × String)) (key : String) : List String :=
  (pairs.filter (·.1 = key)).map Prod.snd

theorem valuesOf_append_self (pairs : List (String × String)) (p : String × String) :
    valuesOf (pairs ++ [p]) p.1 = valuesOf pairs p.1 ++ [p.2] := by
  simp [valuesOf]

theorem valuesOf_append_of_ne (h : p.1 ≠ key) (pairs : List (String × String)) :
    valuesOf (pairs ++ [p]) key = valuesOf pairs key := by
  simp [valuesOf, h]

theorem valuesOf_eq_nil_iff : valuesOf pairs key = [] ↔ key ∉ pairs.map Prod.fst := by
  rw [valuesOf, List.map_eq_nil_iff, List.filter_eq_nil_iff, List.mem_map]
  simp only [decide_eq_true_eq, not_exists, not_and]

theorem addPair_of_new (h : p.1 ∉ groups.map Prod.fst) : addPair groups p = groups ++ [(p.1, [p.2])] := by
  induction groups with
  | nil => rfl
  | cons g rest ih =>
    obtain ⟨hne, hrest⟩ := not_or.mp (List.mem_cons.not.mp h)
    rw [addPair, if_neg (Ne.symm hne), ih hrest, List.cons_append]

/-- A pair whose key is there leaves the keys as they are. -/
theorem keys_addPair_of_mem (h : p.1 ∈ groups.map Prod.fst) : (addPair groups p).map Prod.fst = groups.map Prod.fst := by
  induction groups with
  | nil => cases h
  | cons g rest ih =>
    rw [addPair]
    split_ifs with heq
    · rfl
    · have hrest : p.1 ∈ rest.map Prod.fst := (List.mem_cons.mp h).resolve_left (Ne.symm heq)
      rw [List.map_cons, List.map_cons, ih hrest]

theorem mem_addPair {g : String × List String} (hnodup : (groups.map Prod.fst).Nodup) (hg : g ∈ addPair groups p) :
    (g ∈ groups ∧ g.1 ≠ p.1) ∨ (∃ values, (p.1, values) ∈ groups ∧ g = (p.1, values ++ [p.2])) ∨
      (p.1 ∉ groups.map Prod.fst ∧ g = (p.1, [p.2])) := by
  by_cases hnew : p.1 ∈ groups.map Prod.fst
  · induction groups with
    | nil => cases hnew
    | cons first rest ih =>
      obtain ⟨hfirst, hrest⟩ := List.nodup_cons.mp hnodup
      rw [addPair] at hg
      split_ifs at hg with heq
      · obtain rfl | hg := List.mem_cons.mp hg
        · exact .inr (.inl ⟨first.2, heq ▸ List.mem_cons_self, by rw [heq]⟩)
        · refine .inl ⟨List.mem_cons_of_mem _ hg, fun hkey => hfirst ?_⟩
          exact heq ▸ hkey ▸ List.mem_map_of_mem hg
      · obtain rfl | hg := List.mem_cons.mp hg
        · exact .inl ⟨List.mem_cons_self, heq⟩
        · have hold : p.1 ∈ rest.map Prod.fst := (List.mem_cons.mp hnew).resolve_left (Ne.symm heq)
          obtain ⟨hg, hne⟩ | ⟨values, hvalues, rfl⟩ | ⟨hnone, -⟩ := ih hrest hg hold
          · exact .inl ⟨List.mem_cons_of_mem _ hg, hne⟩
          · exact .inr (.inl ⟨values, List.mem_cons_of_mem _ hvalues, rfl⟩)
          · exact absurd hold hnone
  · rw [addPair_of_new hnew] at hg
    obtain hg | hg := List.mem_append.mp hg
    · exact .inl ⟨hg, fun hkey => hnew (hkey ▸ List.mem_map_of_mem hg)⟩
    · exact .inr (.inr ⟨hnew, List.mem_singleton.mp hg⟩)

/-! ### All pairs -/

/-- Keys in the order in which they first occur among pairs. -/
def FirstOrder (pairs : List (String × String)) (keys : List String) : Prop :=
  keys.Pairwise fun k l => (pairs.map Prod.fst).idxOf k < (pairs.map Prod.fst).idxOf l

/-- Groups of all the values of each key. -/
structure Grouped (pairs : List (String × String)) (groups : List (String × List String)) : Prop where
  order : FirstOrder pairs (groups.map Prod.fst)
  keys : ∀ key, key ∈ groups.map Prod.fst ↔ key ∈ pairs.map Prod.fst
  values : ∀ g ∈ groups, g.2 = valuesOf pairs g.1

theorem FirstOrder.nodup {keys : List String} (h : FirstOrder pairs keys) : keys.Nodup :=
  h.imp fun hlt heq => absurd (heq ▸ hlt) (Nat.lt_irrefl _)

/-- Pairs that follow do not move the first place of a key. -/
theorem FirstOrder.append {keys : List String} (h : FirstOrder pairs keys) (hkeys : ∀ key ∈ keys, key ∈ pairs.map Prod.fst)
    (p : String × String) : FirstOrder (pairs ++ [p]) keys := by
  refine h.imp_of_mem fun hk hl hlt => ?_
  rw [List.map_append, List.idxOf_append_of_mem (hkeys _ hk), List.idxOf_append_of_mem (hkeys _ hl)]
  exact hlt

theorem grouped_nil : Grouped [] [] := ⟨.nil, fun _ => .rfl, nofun⟩

theorem Grouped.addPair (h : Grouped pairs groups) (p : String × String) : Grouped (pairs ++ [p]) (addPair groups p) := by
  have hkeys : ∀ key ∈ groups.map Prod.fst, key ∈ pairs.map Prod.fst := fun key => (h.keys key).mp
  have horder := h.order.append hkeys p
  have hvalues : ∀ g ∈ FormData.addPair groups p, g.2 = valuesOf (pairs ++ [p]) g.1 := by
    intro g hg
    obtain ⟨hg, hne⟩ | ⟨values, hold, rfl⟩ | ⟨hnew, rfl⟩ := mem_addPair h.order.nodup hg
    · rw [valuesOf_append_of_ne (Ne.symm hne), h.values g hg]
    · rw [valuesOf_append_self, ← h.values _ hold]
    · rw [valuesOf_append_self, valuesOf_eq_nil_iff.mpr ((h.keys p.1).not.mp hnew), List.nil_append]
  by_cases hp : p.1 ∈ groups.map Prod.fst
  · have hsame := keys_addPair_of_mem hp
    refine ⟨hsame.symm ▸ horder, fun key => ?_, hvalues⟩
    rw [hsame, h.keys, List.map_append, List.mem_append]
    refine ⟨.inl, fun hkey => hkey.elim id fun hkey => ?_⟩
    rw [List.mem_singleton.mp hkey]
    exact hkeys p.1 hp
  · have happend : (FormData.addPair groups p).map Prod.fst = groups.map Prod.fst ++ [p.1] := by
      rw [addPair_of_new hp, List.map_append]
      rfl
    refine ⟨?_, fun key => ?_, hvalues⟩
    · -- The new key occurs behind all pairs, so its place is their number.
      have hplace : ((pairs ++ [p]).map Prod.fst).idxOf p.1 = pairs.length := by
        rw [List.map_append, List.idxOf_append_of_notMem ((h.keys p.1).not.mp hp)]
        simp
      rw [happend, FirstOrder, List.pairwise_append]
      refine ⟨horder, List.pairwise_singleton _ _, fun key hkey last hlast => ?_⟩
      rw [List.mem_singleton.mp hlast, hplace, List.map_append, List.idxOf_append_of_mem (hkeys key hkey)]
      exact Nat.lt_of_lt_of_eq (List.idxOf_lt_length_of_mem (hkeys key hkey)) (List.length_map _)
    · rw [happend, List.mem_append, List.map_append, List.mem_append, h.keys]
      rfl

theorem grouped_gather (pairs : List (String × String)) : Grouped pairs (gather pairs) := by
  induction pairs using List.reverseRecOn with
  | nil => exact grouped_nil
  | append_singleton pairs p ih =>
    rw [gather, List.foldl_append]
    exact ih.addPair p

end Text.FormData

open Text.FormData

/-! ### Maps -/

/-- A map of pairs: each key once, in the order of its first occurrence; under it its only value, or the list of its values
    in their order. -/
structure Value.Gathers (pairs : List (String × String)) (entries : List (Value × Value)) : Prop where
  keys : ∃ keys, entries.map Prod.fst = keys.map Value.str ∧ keys.Nodup ∧ FirstOrder pairs keys ∧
    ∀ key, key ∈ keys ↔ key ∈ pairs.map Prod.fst
  single : ∀ key value, valuesOf pairs key = [value] → (.str key, .str value) ∈ entries
  several : ∀ key, 2 ≤ (valuesOf pairs key).length → (.str key, .list ((valuesOf pairs key).map .str)) ∈ entries

theorem mem_valuesOf_of_ne_nil (h : valuesOf pairs key ≠ []) : (key, valuesOf pairs key) ∈ gather pairs := by
  have hgrouped := grouped_gather pairs
  have hkey : key ∈ pairs.map Prod.fst := not_not.mp (valuesOf_eq_nil_iff.not.mp h)
  obtain ⟨g, hg, rfl⟩ := List.mem_map.mp ((hgrouped.keys key).mpr hkey)
  rw [← hgrouped.values g hg]
  exact hg

theorem gathers_ofGroups (pairs : List (String × String)) :
    ∃ entries, Converter.ofGroups (gather pairs) = .map entries ∧ Value.Gathers pairs entries := by
  have hgrouped := grouped_gather pairs
  refine ⟨_, rfl, ⟨(gather pairs).map Prod.fst, ?_, hgrouped.order.nodup, hgrouped.order, hgrouped.keys⟩, ?_, ?_⟩
  · rw [List.map_map, List.map_map]
    rfl
  · intro key value hvalue
    have hmem : (key, [value]) ∈ gather pairs := hvalue ▸ mem_valuesOf_of_ne_nil (by rw [hvalue]; exact List.cons_ne_nil _ _)
    exact List.mem_map.mpr ⟨_, hmem, rfl⟩
  · intro key hlength
    obtain ⟨first, second, more, hvalues⟩ : ∃ first second more, valuesOf pairs key = first :: second :: more := by
      match valuesOf pairs key, hlength with
      | first :: second :: more, _ => exact ⟨first, second, more, rfl⟩
    have hmem : (key, valuesOf pairs key) ∈ gather pairs := mem_valuesOf_of_ne_nil (by rw [hvalues]; exact List.cons_ne_nil _ _)
    rw [hvalues] at hmem ⊢
    exact List.mem_map.mpr ⟨_, hmem, rfl⟩

/-- A text with an equals sign and no brace at its front is a cookie, if it has semicolons and no ampersand, and else a query.
    Its map gathers the pairs of it. -/
theorem gathers_of_toMap {v : Value} {cs : List Char} (hv : v.trimmed? = some cs) (hbrace : cs.head? ≠ some '\x7b')
    (hassign : '=' ∈ cs) (s : Scope) (t : Target) :
    ∃ entries, Converter.toMap s v t = .ok (.map entries) ∧
      Value.Gathers (if ';' ∈ cs ∧ '&' ∉ cs then ofCookie cs else ofQuery cs) entries := by
  have hmapped : Converter.mapped cs =
      .ok (Converter.ofGroups (gather (if ';' ∈ cs ∧ '&' ∉ cs then ofCookie cs else ofQuery cs))) := by
    unfold Converter.mapped
    split
    next => cases hassign
    next => exact absurd rfl hbrace
    next =>
      have hcookie : (cs.contains ';' && !cs.contains '&') = decide (';' ∈ cs ∧ '&' ∉ cs) := by simp
      rw [hcookie, if_neg (by simpa using hassign)]
      simp only [decide_eq_true_eq]
      split_ifs <;> rfl
  have hentries : Converter.entries v = Converter.mapped cs := by
    cases v with
    | str text => rw [Converter.entries, hv, Option.getD_some]
    | bytes bs => rw [Converter.entries, hv, Option.getD_some]
    | _ => cases hv
  obtain ⟨entries, hgroups, hgathers⟩ := gathers_ofGroups (if ';' ∈ cs ∧ '&' ∉ cs then ofCookie cs else ofQuery cs)
  refine ⟨entries, ?_, hgathers⟩
  rw [Converter.toMap, hentries, hmapped, hgroups]

/-- A query with a key three times, another one between and one without a value. -/
theorem gathers_of_toMap_interleaved :
    let cs := "a=1&b=%3B&a=+2&c&a=".toList
    let pairs := [("a", "1"), ("b", ";"), ("a", " 2"), ("c", ""), ("a", "")]
    (Value.str " a=1&b=%3B&a=+2&c&a=\n").trimmed? = some cs ∧ cs.head? ≠ some '\x7b' ∧ '=' ∈ cs ∧
      ∃ entries, Converter.toMap ⟨false, none, fun _ t => .error (.unsupported t.name)⟩
        (.str " a=1&b=%3B&a=+2&c&a=\n") .map = .ok (.map entries) ∧ Value.Gathers pairs entries := by
  intro cs pairs
  have hv : (Value.str " a=1&b=%3B&a=+2&c&a=\n").trimmed? = some cs := by decide
  have hbrace : cs.head? ≠ some '\x7b' := by decide
  have hassign : '=' ∈ cs := by decide
  have hpairs : (if ';' ∈ cs ∧ '&' ∉ cs then ofCookie cs else ofQuery cs) = pairs := by decide +kernel
  have hgathers := gathers_of_toMap hv hbrace hassign ⟨false, none, fun _ t => .error (.unsupported t.name)⟩ .map
  rw [hpairs] at hgathers
  exact ⟨hv, hbrace, hassign, hgathers⟩

end Conform

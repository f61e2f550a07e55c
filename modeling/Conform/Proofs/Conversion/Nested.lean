import Conform.Proofs.Conversion.ReadBack
import Conform.Proofs.Json.Members
import Conform.Proofs.Json.ReadBack

/-! Lists and maps of plain data are read back from their texts. The text is that of a document, which has the members of
    each map in the order of their keys; what is read has the same entries as the map had, perhaps in another order. -/

namespace Conform

/-! ### Plain data -/

namespace Value

/-- Entries with texts as keys. -/
def textEntries (members : List (String × Value)) : List (Value × Value) := members.map fun m => (.str m.1, m.2)

/-- Null, truth values, integers, texts, and lists and maps of such, nested at most so deep. The keys of a map are texts,
    each there once. -/
inductive Plain : Nat → Value → Prop
  | null (depth : Nat) : Plain depth .null
  | bool (depth : Nat) (b : Bool) : Plain depth (.bool b)
  | int (depth : Nat) (i : Int64) : Plain depth (.int i)
  | str (depth : Nat) (s : String) : Plain depth (.str s)
  | list {depth : Nat} {items : List Value} (hitems : ∀ v ∈ items, Plain depth v) : Plain (depth + 1) (.list items)
  | map {depth : Nat} {members : List (String × Value)} (hkeys : (members.map Prod.fst).Nodup)
      (hmembers : ∀ m ∈ members, Plain depth m.2) : Plain (depth + 1) (.map (textEntries members))

variable {depth : Nat} {v : Value}

/-- The members of the document of a map. -/
def sortedMembers (members : List (String × Value)) : List (String × Json) :=
  Json.sortMembers (members.map fun m => (m.1, m.2.toJson))

theorem toJson_textEntries (members : List (String × Value)) :
    (Value.map (textEntries members)).toJson = .object (sortedMembers members) := by
  rw [toJson_map, textEntries, List.map_map, sortedMembers]
  rfl

theorem perm_sortedMembers {members : List (String × Value)} (hkeys : (members.map Prod.fst).Nodup) :
    (sortedMembers members).Perm (members.map fun m => (m.1, m.2.toJson)) := by
  refine Json.perm_sortMembers ?_
  rw [List.map_map]
  exact hkeys

/-- The document of plain data has what is read as it is written. -/
theorem legible_toJson (h : Plain depth v) : Json.Legible depth v.toJson := by
  induction h with
  | null depth => exact .null depth
  | bool depth b => exact .bool depth b
  | int depth i => exact .integer depth i
  | str depth s => exact .string depth s
  | list _ ih =>
    rw [toJson_list]
    exact .array (List.forall_mem_map.mpr ih)
  | map hkeys _ ih =>
    rw [toJson_textEntries]
    refine .object (Json.sortMembers_of_ordered (Json.ordered_sortMembers _)) fun m hm => ?_
    obtain ⟨n, hn, rfl⟩ := List.mem_map.mp ((perm_sortedMembers hkeys).mem_iff.mp hm)
    exact ih n hn

theorem sameItems_map {α : Type} {f g : α → Value} {items : List α} (h : ∀ a ∈ items, (f a).same (g a) = true) :
    sameItems (items.map f) (items.map g) = true := by
  induction items with
  | nil => rw [List.map_nil, List.map_nil, sameItems]
  | cons a rest ih =>
    obtain ⟨ha, hrest⟩ := List.forall_mem_cons.mp h
    rw [List.map_cons, List.map_cons, sameItems, ha, ih hrest, Bool.and_self]

theorem find?_textEntries {members : List (String × Value)} {m : String × Value} (hkeys : (members.map Prod.fst).Nodup)
    (hm : m ∈ members) : (textEntries members).find? (fun e => same (.str m.1) e.1) = some (.str m.1, m.2) := by
  induction members with
  | nil => cases hm
  | cons n rest ih =>
    obtain ⟨hnew, hrest⟩ := List.nodup_cons.mp hkeys
    rw [textEntries, List.map_cons, List.find?_cons]
    obtain rfl | hm := List.mem_cons.mp hm
    · simp [same]
    · have hne : m.1 ≠ n.1 := fun heq => hnew (heq ▸ List.mem_map_of_mem hm)
      simp only [same, beq_eq_false_iff_ne.mpr hne]
      exact ih hrest hm

/-- Entries are among those of a map if each has its key and an equal value there. -/
theorem allEntriesWithin_textEntries {members others : List (String × Value)} (hkeys : (others.map Prod.fst).Nodup)
    (h : ∀ m ∈ members, ∃ n ∈ others, m.1 = n.1 ∧ m.2.same n.2 = true) :
    allEntriesWithin (textEntries members) (textEntries others) = true := by
  induction members with
  | nil => rw [textEntries, List.map_nil, allEntriesWithin]
  | cons m rest ih =>
    obtain ⟨⟨n, hn, hkey, hsame⟩, hrest⟩ := List.forall_mem_cons.mp h
    have hfind := find?_textEntries hkeys hn
    have hentries := ih hrest
    rw [textEntries] at hentries
    rw [textEntries, List.map_cons, allEntriesWithin, hkey, hfind, hentries]
    simpa using hsame

/-- Plain data is equal to what its document says. -/
theorem same_toValue_toJson (h : Plain depth v) : v.toJson.toValue.same v = true := by
  induction h with
  | null => rw [toJson, Json.toValue, same]
  | bool _ b => simp [toJson, Json.toValue, same]
  | int _ i => simp [toJson, Json.toValue, int64?_toInt, same]
  | str _ s => simp [toJson, Json.toValue, same]
  | @list _ items _ ih =>
    have hitems := sameItems_map (f := fun v => v.toJson.toValue) (g := id) ih
    rw [List.map_id] at hitems
    rw [toJson_list, Json.toValue_array, List.map_map, same]
    exact hitems
  | @map _ members hkeys _ ih =>
    have hperm := perm_sortedMembers hkeys
    have hentries : (sortedMembers members).map (fun m => (.str m.1, m.2.toValue)) =
        textEntries ((sortedMembers members).map fun m => (m.1, m.2.toValue)) := by
      rw [textEntries, List.map_map]
      rfl
    have hlength : (sortedMembers members).length = members.length := by rw [hperm.length_eq, List.length_map]
    rw [toJson_textEntries, Json.toValue_object, hentries, same, allEntriesWithin_textEntries hkeys, Bool.and_true]
    · simp [textEntries, hlength]
    · intro m hm
      obtain ⟨n, hn, rfl⟩ := List.mem_map.mp hm
      obtain ⟨original, horiginal, rfl⟩ := List.mem_map.mp (hperm.mem_iff.mp hn)
      exact ⟨original, horiginal, rfl, ih original horiginal⟩

end Value

/-! ### Containers and their texts -/

namespace Converter

variable {s : Scope} {t : Target}

/-- A text in brackets or braces is all there is between its blanks. -/
theorem trimmed?_enclosed {opening closing : Char} {cs : List Char} (hopening : Text.isBlank opening = false)
    (hclosing : Text.isBlank closing = false) :
    (Value.str (String.ofList (opening :: cs ++ [closing]))).trimmed? = some (opening :: cs ++ [closing]) := by
  rw [Value.trimmed?, String.toList_ofList, Text.trim_of_ends]
  · rintro c ⟨⟩
    exact hopening
  · rw [List.getLast?_concat]
    rintro c ⟨⟩
    exact hclosing

theorem structured?_chars {v : Value} (h : v.Plain 127) : structured? v.toJson.chars = some v.toJson.toValue := by
  rw [structured?, Json.ofChars?_chars (Value.legible_toJson h)]

theorem toSequence_text {items : List Value} (h : (Value.list items).Plain 127) (ht : t.kind? = some .list) :
    toSequence s (.str (Value.list items).toJson.text) t = .ok (Value.list items).toJson.toValue := by
  have hread := structured?_chars h
  simp only [Value.toJson, Json.chars, Json.toValue] at hread ⊢
  rw [toSequence, Json.text, Json.chars, Converter.items, trimmed?_enclosed rfl rfl]
  dsimp only [List.cons_append, listed]
  rw [← List.cons_append, hread]
  simp only [Option.bind_some, Value.items?, ht]
  rfl

theorem toMap_text {entries : List (Value × Value)} (h : (Value.map entries).Plain 127) :
    toMap s (.str (Value.map entries).toJson.text) t = .ok (Value.map entries).toJson.toValue := by
  have hread := structured?_chars h
  simp only [Value.toJson, Json.chars, Json.toValue] at hread ⊢
  rw [toMap, Json.text, Json.chars, Converter.entries, trimmed?_enclosed rfl rfl]
  dsimp only [List.cons_append, Option.getD_some, mapped]
  rw [← List.cons_append, hread]
  rfl

end Converter

namespace Registry

variable {v w : Value} {t : Target}

/-- Where no data may be lost, the text of a list or a map is that of its document. -/
theorem convert_container (hv : v.kind = .list ∨ v.kind = .map) :
    standard.convert ⟨false, true⟩ v .str = .ok (.str v.toJson.text) := by
  cases v with
  | list items => rcases items with _ | ⟨item, _ | ⟨next, more⟩⟩ <;> rfl
  | map entries => rfl
  | _ => obtain hv | hv := hv <;> cases hv

/-- Where no data may be lost, a list or a map of plain data is read back from its text. -/
theorem same_of_convert_container (h : v.Plain 127) (hv : v.kind = .list ∨ v.kind = .map) (ht : t.kind? = some v.kind) :
    ∃ text w, standard.convert ⟨false, true⟩ v .str = .ok (.str text) ∧
      standard.convert ⟨false, true⟩ (.str text) t = .ok w ∧ w.same v = true := by
  refine ⟨v.toJson.text, v.toJson.toValue, convert_container hv, ?_, Value.same_toValue_toJson h⟩
  have hexact (text : String) : t.isExact (.str text) = false := by
    obtain hv | hv := hv
    all_goals
      rw [hv] at ht
      cases t <;> cases ht <;> rfl
  cases v with
  | list items =>
    have hresolve : t.kind?.bind standard.resolve? = some Converter.toSequence := by rw [ht]; rfl
    exact convert_of_text Converter.toSequence rfl (hexact _) hresolve fun _ => Converter.toSequence_text h ht
  | map entries =>
    have hresolve : t.kind?.bind standard.resolve? = some Converter.toMap := by rw [ht]; rfl
    exact convert_of_text Converter.toMap rfl (hexact _) hresolve fun _ => Converter.toMap_text h
  | _ => obtain hv | hv := hv <;> cases hv

/-- A map out of the order of its keys, with the least integer and with quotes, brackets and control characters in its texts. -/
theorem same_of_convert_settings :
    let items : List Value := [.str "a\",]\x7d\n\x01", .int (-9223372036854775808), .null]
    let v : Value := .map [(.str "tags", .list items), (.str "\"", .map [(.str "", .bool true)])]
    v.Plain 127 ∧
      v.toJson.text =
        "\x7b\"\\\"\":\x7b\"\":true\x7d,\"tags\":[\"a\\\",]\x7d\\n\\u0001\",-9223372036854775808,null]\x7d" ∧
      ∃ text w, standard.convert ⟨false, true⟩ v .str = .ok (.str text) ∧
        standard.convert ⟨false, true⟩ (.str text) .map = .ok w ∧ w.same v = true := by
  intro items v
  have hitems : (Value.list items).Plain 126 := .list <| List.forall_mem_cons.mpr ⟨.str _ _, List.forall_mem_cons.mpr
    ⟨.int _ _, List.forall_mem_singleton.mpr (.null _)⟩⟩
  have hinner : (Value.map (Value.textEntries [("", .bool true)])).Plain 126 :=
    .map (by decide) (List.forall_mem_singleton.mpr (.bool _ true))
  have houter : (Value.map (Value.textEntries [("tags", .list items), ("\"", .map [(.str "", .bool true)])])).Plain 127 :=
    .map (by decide) (List.forall_mem_cons.mpr ⟨hitems, List.forall_mem_singleton.mpr hinner⟩)
  have hplain : v.Plain 127 := houter
  exact ⟨hplain, by decide +kernel, same_of_convert_container hplain (.inr rfl) rfl⟩

end Registry

end Conform

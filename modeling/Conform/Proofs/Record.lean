import Mathlib.Data.List.Nodup
import Conform.Record

/-! Records as finite maps. Insertion, removal and the order of a list change which names a record has, and
    what stands under them, as they do for a map; each name stands once. -/

namespace Conform.Record

/-! ### Names -/

theorem get?_cons (n : String) (v : Value) (r : Record) (name : String) :
    get? ((n, v) :: r) name = if name = n then some v else r.get? name := by
  rw [get?, List.lookup_cons]
  by_cases h : name = n
  · simp [h]
  · simp [h, beq_false_of_ne h, get?]

theorem has_iff_mem_names {r : Record} {name : String} : r.has name = true ↔ name ∈ r.names := by
  simp [has, names]

theorem get?_eq_none_iff {r : Record} {name : String} : r.get? name = none ↔ name ∉ r.names := by
  rw [get?, List.lookup_eq_none_iff]
  simp only [names, List.mem_map, not_exists, not_and, bne_iff_ne]
  exact ⟨fun h e he heq => h e he heq.symm, fun h e he heq => h e he heq.symm⟩

theorem isSome_get? (r : Record) (name : String) : (r.get? name).isSome = r.has name := by
  rw [Bool.eq_iff_iff, has_iff_mem_names, ← not_iff_not, Option.not_isSome_iff_eq_none, get?_eq_none_iff]

theorem exists_get?_of_mem {r : Record} {name : String} (h : name ∈ r.names) : ∃ v, r.get? name = some v :=
  Option.ne_none_iff_exists'.mp fun hnone => get?_eq_none_iff.mp hnone h

/-! ### Insertion -/

theorem get?_insert (r : Record) (n : String) (v : Value) (name : String) :
    (r.insert n v).get? name = if name = n then some v else r.get? name := by
  induction r with
  | nil => rw [insert, get?_cons]
  | cons e rest ih =>
    obtain ⟨m, w⟩ := e
    by_cases hm : m = n
    · subst hm
      rw [insert, if_pos rfl, get?_cons, get?_cons]
      by_cases h : name = m <;> simp [h]
    · rw [insert, if_neg hm, get?_cons, get?_cons, ih]
      by_cases h : name = m
      · have hn : name ≠ n := fun hn => hm (h.symm.trans hn)
        rw [if_pos h, if_neg hn, if_pos h]
      · rw [if_neg h, if_neg h]

theorem mem_names_insert {r : Record} {n : String} {v : Value} {name : String} :
    name ∈ (r.insert n v).names ↔ name = n ∨ name ∈ r.names := by
  rw [← not_iff_not, ← get?_eq_none_iff, get?_insert, not_or, ← get?_eq_none_iff]
  by_cases h : name = n <;> simp [h]

theorem nodup_names_insert {r : Record} (h : r.names.Nodup) (n : String) (v : Value) :
    (r.insert n v).names.Nodup := by
  induction r with
  | nil => simp [insert, names]
  | cons e rest ih =>
    obtain ⟨m, w⟩ := e
    obtain ⟨hm, hrest⟩ := List.nodup_cons.mp h
    by_cases hmn : m = n
    · subst hmn
      simpa [insert, names] using ⟨by simpa [names] using hm, by simpa [names] using hrest⟩
    · have hm' : m ∉ (insert rest n v).names := by
        rw [mem_names_insert]
        rintro (rfl | h')
        · exact hmn rfl
        · exact hm h'
      rw [insert, if_neg hmn]
      exact List.nodup_cons.mpr ⟨hm', ih hrest⟩

/-- A record that is built entry by entry has each name once. -/
theorem nodup_names_foldl {α : Type} (name : α → String) (value : α → Value) (l : List α) :
    ∀ {r : Record}, r.names.Nodup → (l.foldl (fun r a => r.insert (name a) (value a)) r).names.Nodup := by
  induction l with
  | nil => exact id
  | cons a l ih => exact fun h => ih (nodup_names_insert h _ _)

theorem nodup_names_ofEntries (entries : List (Value × Value)) : (ofEntries entries).names.Nodup :=
  nodup_names_foldl (fun e : Value × Value => e.1.key) Prod.snd entries List.nodup_nil

theorem insertAll_cons (r : Record) (e : String × Value) (more : Record) :
    r.insertAll (e :: more) = (r.insert e.1 e.2).insertAll more := rfl

/-- Of entries with one name the last counts, and an old one where there is none. -/
theorem get?_insertAll_reverse (more : Record) : ∀ (r : Record) (name : String),
    (r.insertAll more).get? name = (get? more.reverse name).or (r.get? name) := by
  induction more with
  | nil => exact fun r name => by simp [insertAll, get?]
  | cons e rest ih =>
    intro r name
    have hlast : get? (rest.reverse ++ [e]) name = (get? rest.reverse name).or (if name = e.1 then some e.2 else none) := by
      rw [get?, List.lookup_append]
      exact congrArg _ (get?_cons e.1 e.2 [] name)
    rw [insertAll_cons, ih, get?_insert, List.reverse_cons, hlast, Option.or_assoc]
    by_cases h : name = e.1 <;> simp [h]

theorem mem_names_insertAll (more : Record) : ∀ {r : Record} {name : String},
    name ∈ (r.insertAll more).names ↔ name ∈ r.names ∨ name ∈ more.names := by
  induction more with
  | nil => exact fun {r name} => by simp [insertAll, names]
  | cons e rest ih =>
    intro r name
    have hnames : names (e :: rest) = e.1 :: names rest := rfl
    rw [insertAll_cons, ih, mem_names_insert, hnames, List.mem_cons]
    tauto

theorem nodup_names_insertAll {r : Record} (h : r.names.Nodup) (more : Record) : (r.insertAll more).names.Nodup :=
  nodup_names_foldl Prod.fst Prod.snd more h

/-- A new name comes last. -/
theorem insert_of_not_mem {r : Record} {n : String} (h : n ∉ r.names) (v : Value) : r.insert n v = r ++ [(n, v)] := by
  induction r with
  | nil => rfl
  | cons e rest ih =>
    obtain ⟨m, w⟩ := e
    obtain ⟨hm, hrest⟩ := not_or.mp (mt List.mem_cons.mpr h)
    rw [insert, if_neg fun heq => hm heq.symm, ih hrest]
    rfl

theorem insertAll_of_disjoint (more : Record) : ∀ {r : Record}, more.names.Nodup →
    (∀ name ∈ more.names, name ∉ r.names) → r.insertAll more = r ++ more := by
  induction more with
  | nil => exact fun {r} _ _ => (List.append_nil r).symm
  | cons e rest ih =>
    intro r hnodup hnew
    obtain ⟨hn, hrest⟩ := List.nodup_cons.mp hnodup
    obtain ⟨hnew, hothers⟩ := List.forall_mem_cons.mp hnew
    rw [insertAll_cons, insert_of_not_mem hnew, ih hrest, List.append_assoc, List.singleton_append]
    intro name hname hmem
    rw [names, List.map_append, List.mem_append] at hmem
    rcases hmem with hmem | hmem
    · exact hothers name hname hmem
    · obtain rfl := List.mem_singleton.mp hmem
      exact hn hname

theorem names_insert_of_mem {r : Record} {n : String} (h : n ∈ r.names) (v : Value) : (r.insert n v).names = r.names := by
  induction r with
  | nil => cases h
  | cons e rest ih =>
    obtain ⟨m, w⟩ := e
    by_cases hm : m = n
    · rw [insert, if_pos hm]
      rfl
    · rw [insert, if_neg hm]
      exact congrArg (m :: ·) (ih ((List.mem_cons.mp h).resolve_left fun heq => hm heq.symm))

theorem length_names (r : Record) : r.names.length = r.length := List.length_map _

/-- A record gets longer by as many entries as are put in, if and only if none of them has the name of another. -/
theorem length_insertAll (more : Record) : ∀ {r : Record}, r.names.Nodup →
    (r.insertAll more).length ≤ r.length + more.length ∧
      ((r.insertAll more).length = r.length + more.length ↔ (r ++ more).names.Nodup) := by
  induction more with
  | nil =>
    intro r hr
    rw [List.append_nil]
    exact ⟨Nat.le_refl _, iff_of_true rfl hr⟩
  | cons e rest ih =>
    intro r hr
    obtain ⟨hle, hiff⟩ := ih (nodup_names_insert hr e.1 e.2)
    rw [insertAll_cons, List.length_cons]
    by_cases hname : e.1 ∈ r.names
    · have hlength : (r.insert e.1 e.2).length = r.length := by
        rw [← length_names, names_insert_of_mem hname, length_names]
      rw [hlength] at hle
      refine ⟨by omega, iff_of_false (by omega) fun hnodup => ?_⟩
      rw [names, List.map_append, List.nodup_append] at hnodup
      exact hnodup.2.2 e.1 hname e.1 List.mem_cons_self rfl
    · rw [insert_of_not_mem hname] at hle hiff ⊢
      rw [List.length_append, List.length_singleton] at hle hiff
      rw [List.append_assoc] at hiff
      exact ⟨by omega, by rw [← Nat.add_assoc, Nat.add_right_comm, hiff]; rfl⟩

/-- A record is that of the map with its entries. -/
theorem ofEntries_of_nodup {r : Record} (h : r.names.Nodup) : ofEntries (r.map fun e => (.str e.1, e.2)) = r := by
  rw [ofEntries, List.foldl_map]
  exact insertAll_of_disjoint r (r := []) h fun _ _ => List.not_mem_nil

/-! ### Removal -/

/-- A record without the names that fail a test. -/
theorem get?_filter (r : Record) (keeps : String → Bool) (name : String) :
    get? (r.filter fun e => keeps e.1) name = if keeps name then r.get? name else none := by
  induction r with
  | nil => simp [get?]
  | cons e rest ih =>
    obtain ⟨m, v⟩ := e
    cases hm : keeps m with
    | true =>
      rw [List.filter_cons_of_pos (by exact hm), get?_cons, ih, get?_cons]
      by_cases h : name = m
      · rw [if_pos h, if_pos h, h, if_pos hm]
      · rw [if_neg h, if_neg h]
    | false =>
      rw [List.filter_cons_of_neg (by simp [hm]), ih, get?_cons]
      by_cases h : name = m
      · simp [h, hm]
      · rw [if_neg h]

theorem get?_erase (r : Record) (n name : String) :
    (r.erase n).get? name = if name = n then none else r.get? name := by
  rw [erase, get?_filter r (· != n)]
  by_cases h : name = n <;> simp [h]

theorem nodup_names_erase {r : Record} (h : r.names.Nodup) (n : String) : (r.erase n).names.Nodup :=
  h.sublist (List.filter_sublist.map Prod.fst)

/-! ### Order -/

/-- A record whose names stand once has under a name what it has an entry of. -/
theorem get?_eq_some_iff {r : Record} (hnodup : r.names.Nodup) {name : String} {v : Value} :
    r.get? name = some v ↔ (name, v) ∈ r := by
  induction r with
  | nil => simp [get?]
  | cons e rest ih =>
    obtain ⟨n, w⟩ := e
    obtain ⟨hn, hrest⟩ := List.nodup_cons.mp hnodup
    rw [get?_cons, List.mem_cons, Prod.mk.injEq]
    by_cases hname : name = n
    · subst hname
      have hnone : (name, v) ∉ rest := fun hmem => hn (List.mem_map.mpr ⟨_, hmem, rfl⟩)
      simp [hnone, eq_comm]
    · simp [hname, ih hrest]

/-- A record whose names stand once is a map: the order of its entries does not count. -/
theorem get?_of_perm {r r' : Record} (h : r.Perm r') (hnodup : r.names.Nodup) (name : String) :
    r.get? name = r'.get? name := by
  have hnodup' : r'.names.Nodup := (h.map Prod.fst).nodup_iff.mp hnodup
  refine Option.ext fun v => ?_
  rw [get?_eq_some_iff hnodup, get?_eq_some_iff hnodup', h.mem_iff]

theorem get?_insertAll (more : Record) (r : Record) (hmore : more.names.Nodup) (name : String) :
    (r.insertAll more).get? name = (more.get? name).or (r.get? name) := by
  rw [get?_insertAll_reverse, get?_of_perm more.reverse_perm.symm hmore]

theorem perm_arranged (order : List String) (r : Record) : (r.arranged order).Perm r := List.mergeSort_perm _ _

theorem nodup_names_arranged {r : Record} (h : r.names.Nodup) (order : List String) : (r.arranged order).names.Nodup :=
  ((perm_arranged order r).map Prod.fst).nodup_iff.mpr h

theorem mem_names_arranged {order : List String} {r : Record} {name : String} :
    name ∈ (r.arranged order).names ↔ name ∈ r.names :=
  ((perm_arranged order r).map Prod.fst).mem_iff

theorem get?_arranged {r : Record} (h : r.names.Nodup) (order : List String) (name : String) :
    (r.arranged order).get? name = r.get? name :=
  get?_of_perm (perm_arranged order r) (nodup_names_arranged h order) name

end Conform.Record

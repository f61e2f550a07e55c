import Conform.Proofs.Constraint.Mended
import Conform.Proofs.Conversion.Exact
import Conform.Proofs.Conversion.Nested
import Conform.Proofs.Value.Equality

/-! Conversions make proper values of proper values. What a document or a literal says has each key of a map once and each
    member of a set once, since both are put together by insertion; pairs and gathered parts of a query are, too. -/

namespace Conform

/-! ### Sets and maps that are put together -/

namespace Value

theorem mem_of_mem_distinct {v : Value} {items : List Value} (h : v ∈ distinct items) : v ∈ items :=
  (distinct_sublist items).subset h

theorem proper_distinct {items : List Value} (h : ∀ v ∈ items, Proper v) : Proper (.set (distinct items)) :=
  .set (fun v hv => h v (mem_of_mem_distinct hv)) (apart_distinct items)

theorem proper_entriesOf {entries : List (Value × Value)} (h : ∀ e ∈ entries, Proper e.1 ∧ Proper e.2) :
    Proper (.map (entriesOf entries)) := by
  suffices hfold : ∀ es : List (Value × Value), (∀ e ∈ es, Proper e.1 ∧ Proper e.2) → Apart (es.map Prod.fst) →
      Proper (.map (entries.foldl (fun map e => insertEntry e.1 e.2 map) es)) from hfold [] (List.forall_mem_nil _) .nil
  induction entries with
  | nil => exact fun es hes hapart => .map (fun e he => (hes e he).1) (fun e he => (hes e he).2) hapart
  | cons e rest ih =>
    obtain ⟨he, hrest⟩ := List.forall_mem_cons.mp h
    intro es hes hapart
    exact ih hrest (insertEntry e.1 e.2 es) (forall_insertEntry he.1 he.2 hes) (apart_insertEntry hapart)

/-- Texts as keys, each there once. -/
theorem proper_textKeys {α : Type} (key : α → String) {value : α → Value} {l : List α} (hkeys : (l.map key).Nodup)
    (hvalues : ∀ a ∈ l, Proper (value a)) : Proper (.map (l.map fun a => (.str (key a), value a))) := by
  refine .map (List.forall_mem_map.mpr fun a _ => .scalar rfl) (List.forall_mem_map.mpr hvalues) ?_
  rw [List.map_map]
  refine List.pairwise_map.mpr ((List.pairwise_map.mp hkeys).imp fun {a b} hne => ?_)
  simpa [same] using Ne.symm hne

end Value

/-! ### Documents -/

namespace Json

open Value (Proper)

theorem mem_sortMembers {α : Type} {m : String × α} {members : List (String × α)} (h : m ∈ sortMembers members) : m ∈ members := by
  suffices hfold : ∀ sorted : List (String × α), m ∈ members.foldl (fun sorted m => insertMember m.1 m.2 sorted) sorted →
      m ∈ sorted ∨ m ∈ members from (hfold [] h).resolve_left List.not_mem_nil
  clear h
  induction members with
  | nil => exact fun _ h => .inl h
  | cons n rest ih =>
    intro sorted h
    obtain hm | hm := ih _ h
    · exact (mem_insertMember hm).symm.imp_right fun heq : m = n => heq ▸ List.mem_cons_self
    · exact .inr (List.mem_cons_of_mem _ hm)

theorem proper_object {members : List (String × Json)} (h : ∀ m ∈ members, m.2.toValue.Proper) :
    (Json.object (sortMembers members)).toValue.Proper := by
  rw [toValue_object]
  refine Value.proper_textKeys (fun m => m.1) ?_ fun m hm => h m (mem_sortMembers hm)
  exact (List.pairwise_map.mpr (ordered_sortMembers members)).imp fun hlt => hlt.ne

theorem proper_array {items : List Json} (h : ∀ j ∈ items, j.toValue.Proper) : (Json.array items).toValue.Proper := by
  rw [toValue_array]
  exact .list (List.forall_mem_map.mpr h)

theorem proper_integer (i : Int) : (Json.integer i).toValue.Proper := by
  rw [toValue]
  split <;> exact .scalar rfl

theorem proper_float (x : Binary64) : (Json.float x).toValue.Proper := by
  rw [toValue]
  exact .scalar rfl

variable {j : Json} {cs rest : List Char} {negative : Bool} {significand : Nat} {e : Int}

theorem proper_of_floatOf? (h : floatOf? negative significand e = some j) : j.toValue.Proper := by
  obtain ⟨x, -, rfl⟩ := Option.map_eq_some_iff.mp h
  exact proper_float _

theorem proper_of_finishFloat? (h : finishFloat? negative significand e cs = some (j, rest)) : j.toValue.Proper := by
  unfold finishFloat? at h
  split at h
  · split at h
    · obtain ⟨⟨exponent, behind⟩, -, h⟩ := Option.bind_eq_some_iff.mp h
      cases exponent with
      | exact more =>
        obtain ⟨x, hx, h⟩ := Option.bind_eq_some_iff.mp h
        cases h
        exact proper_of_floatOf? hx
      | beyond small =>
        dsimp only at h
        split at h
        · cases h
          exact proper_float _
        · cases h
    · obtain ⟨x, hx, h⟩ := Option.bind_eq_some_iff.mp h
      cases h
      exact proper_of_floatOf? hx
  · obtain ⟨x, hx, h⟩ := Option.bind_eq_some_iff.mp h
    cases h
    exact proper_of_floatOf? hx

theorem proper_of_takeUnsigned? (h : takeUnsigned? negative cs = some (j, rest)) : j.toValue.Proper := by
  unfold takeUnsigned? at h
  dsimp only at h
  split at h
  · cases h
  split at h
  · split at h
    · cases h
    · exact proper_of_finishFloat? h
  · split at h
    · exact proper_of_finishFloat? h
    split at h
    · split at h <;> cases h
      · exact proper_float _
      · exact proper_integer _
    · cases h
      exact proper_integer _

theorem proper_of_takeNumber? (h : takeNumber? cs = some (j, rest)) : j.toValue.Proper := by
  unfold takeNumber? at h
  split at h <;> exact proper_of_takeUnsigned? h

/-- What is taken of a text with so much fuel is proper, whether it is a value, the items of a list or the members of an
    object. -/
structure TakesProper (fuel : Nat) : Prop where
  value {depth : Nat} {cs rest : List Char} {j : Json} : takeValue? fuel depth cs = some (j, rest) → j.toValue.Proper
  items {depth : Nat} {cs rest : List Char} {items : List Json} :
    takeItems? fuel depth cs = some (items, rest) → ∀ j ∈ items, j.toValue.Proper
  members {depth : Nat} {cs rest : List Char} {members : List (String × Json)} :
    takeMembers? fuel depth cs = some (members, rest) → ∀ m ∈ members, m.2.toValue.Proper

namespace TakesProper

variable {fuel depth : Nat} {items : List Json} {members : List (String × Json)}

theorem value_succ (h : TakesProper fuel) (htaken : takeValue? (fuel + 1) depth cs = some (j, rest)) :
    j.toValue.Proper := by
  rw [takeValue?] at htaken
  split at htaken
  case h_1 =>
    split at htaken
    · cases htaken
    split at htaken
    · cases htaken
      exact proper_array (List.forall_mem_nil _)
    · obtain ⟨⟨items, behind⟩, hitems, htaken⟩ := Option.bind_eq_some_iff.mp htaken
      cases htaken
      exact proper_array (h.items hitems)
  case h_2 =>
    split at htaken
    · cases htaken
    split at htaken
    · cases htaken
      have hnone : ∀ m ∈ ([] : List (String × Json)), m.2.toValue.Proper := List.forall_mem_nil _
      exact proper_object hnone
    · obtain ⟨⟨members, behind⟩, hmembers, htaken⟩ := Option.bind_eq_some_iff.mp htaken
      cases htaken
      exact proper_object (h.members hmembers)
  case h_3 =>
    obtain ⟨⟨chars, behind⟩, -, htaken⟩ := Option.bind_eq_some_iff.mp htaken
    cases htaken
    exact .scalar rfl
  case h_4 | h_5 | h_6 =>
    unfold takeWord? at htaken
    split at htaken
    · cases htaken
      exact .scalar rfl
    · cases htaken
  case h_7 => exact proper_of_takeNumber? htaken

theorem items_succ (h : TakesProper fuel) (htaken : takeItems? (fuel + 1) depth cs = some (items, rest)) :
    ∀ j ∈ items, j.toValue.Proper := by
  rw [takeItems?] at htaken
  obtain ⟨⟨item, behind⟩, hitem, htaken⟩ := Option.bind_eq_some_iff.mp htaken
  have hfirst := h.value hitem
  dsimp only at htaken
  split at htaken
  · obtain ⟨⟨more, behind⟩, hmore, htaken⟩ := Option.bind_eq_some_iff.mp htaken
    cases htaken
    exact List.forall_mem_cons.mpr ⟨hfirst, h.items hmore⟩
  · cases htaken
    exact List.forall_mem_singleton.mpr hfirst
  · cases htaken

theorem members_succ (h : TakesProper fuel) (htaken : takeMembers? (fuel + 1) depth cs = some (members, rest)) :
    ∀ m ∈ members, m.2.toValue.Proper := by
  rw [takeMembers?] at htaken
  split at htaken
  · obtain ⟨⟨key, behind⟩, -, htaken⟩ := Option.bind_eq_some_iff.mp htaken
    dsimp only at htaken
    split at htaken
    · obtain ⟨⟨value, behind⟩, hvalue, htaken⟩ := Option.bind_eq_some_iff.mp htaken
      have hfirst := h.value hvalue
      dsimp only at htaken
      split at htaken
      · obtain ⟨⟨more, behind⟩, hmore, htaken⟩ := Option.bind_eq_some_iff.mp htaken
        cases htaken
        exact List.forall_mem_cons.mpr ⟨hfirst, h.members hmore⟩
      · cases htaken
        exact List.forall_mem_singleton.mpr hfirst
      · cases htaken
    · cases htaken
  · cases htaken

end TakesProper

theorem takesProper (fuel : Nat) : TakesProper fuel := by
  induction fuel with
  | zero =>
    refine ⟨fun h => ?_, fun h => ?_, fun h => ?_⟩
    · cases (takeValue?_zero _ _).symm.trans h
    · cases (takeItems?_zero _ _).symm.trans h
    · cases (takeMembers?_zero _ _).symm.trans h
  | succ fuel ih => exact ⟨ih.value_succ, ih.items_succ, ih.members_succ⟩

theorem proper_of_ofChars? (h : ofChars? cs = some j) : j.toValue.Proper := by
  obtain ⟨⟨value, rest⟩, htaken, h⟩ := Option.bind_eq_some_iff.mp h
  dsimp only at h
  split at h
  · cases h
    exact (takesProper _).value htaken
  · cases h

end Json

/-! ### Results with a property -/

/-- Whatever the result is, it has a property. -/
def Ensures {ε α : Type} (p : α → Prop) (x : Except ε α) : Prop := ∀ ⦃a⦄, x = .ok a → p a

namespace Ensures

variable {ε α β : Type} {p : α → Prop} {q : β → Prop} {x : Except ε α}

theorem ok {a : α} (h : p a) : Ensures p (.ok a : Except ε α) := fun _ heq => Except.ok.inj heq ▸ h

theorem error (e : ε) : Ensures p (.error e : Except ε α) := nofun

theorem bind {k : α → Except ε β} (hx : Ensures p x) (hk : ∀ a, p a → Ensures q (k a)) : Ensures q (x >>= k) := by
  cases x with
  | error e => exact error e
  | ok a => exact hk a (hx rfl)

/-- What a step gives does not matter to the next one. -/
theorem after {k : α → Except ε β} (hk : ∀ a, Ensures q (k a)) : Ensures q (x >>= k) :=
  bind (p := fun _ => True) (fun _ _ => trivial) fun a _ => hk a

theorem map {f : α → β} (h : Ensures (fun a => q (f a)) x) : Ensures q (x.map f) := by
  cases x with
  | error e => exact error e
  | ok a => exact ok (h rfl)

end Ensures

/-! ### Literals -/

namespace Literal

open Value (Proper)

theorem proper_wordValue (word : String) : (wordValue word).Proper := by
  unfold wordValue
  split_ifs <;> exact .scalar rfl

theorem proper_takeNumber (cs : List Char) : Ensures (fun read => read.1.Proper) (takeNumber cs) := by
  unfold takeNumber
  dsimp only
  split_ifs
  · split
    · exact .ok (.scalar rfl)
    · exact .error _
  · split
    · exact .ok (.scalar rfl)
    · exact .error _
  · exact .map fun _ _ => Proper.scalar rfl

/-- What is taken of a text with so much fuel is proper, whether it is a value, items, entries or what stands in braces. -/
structure TakesProper (fuel : Nat) : Prop where
  value (cs : List Char) : Ensures (fun read => read.1.Proper) (takeValue fuel cs)
  items (close : Char) (cs : List Char) : Ensures (fun read => ∀ v ∈ read.1, v.Proper) (takeItems fuel close cs)
  entries (cs : List Char) : Ensures (fun read => ∀ e ∈ read.1, e.1.Proper ∧ e.2.Proper) (takeEntries fuel cs)
  braced (cs : List Char) : Ensures (fun read => read.1.Proper) (takeBraced fuel cs)

namespace TakesProper

variable {fuel : Nat}

theorem value_succ (h : TakesProper fuel) (cs : List Char) :
    Ensures (fun read => read.1.Proper) (takeValue (fuel + 1) cs) := by
  rw [takeValue]
  split
  · exact .error _
  · exact .bind (h.items _ _) fun read h => .ok (.list h)
  · exact .bind (h.items _ _) fun read h => .ok (.tuple h)
  · exact h.braced _
  · exact .after fun _ => .ok (.scalar rfl)
  · exact .after fun _ => .ok (.scalar rfl)
  · split
    · exact proper_takeNumber _
    · exact .map fun _ _ => proper_wordValue _

theorem items_succ (h : TakesProper fuel) (close : Char) (cs : List Char) :
    Ensures (fun read => ∀ v ∈ read.1, v.Proper) (takeItems (fuel + 1) close cs) := by
  rw [takeItems]
  dsimp only
  split
  · exact .ok (List.forall_mem_nil _)
  · refine .bind (h.value _) fun first hfirst => ?_
    split
    · exact .bind (h.items _ _) fun more hmore => .ok (List.forall_mem_cons.mpr ⟨hfirst, hmore⟩)
    · exact .after fun _ => .ok (List.forall_mem_singleton.mpr hfirst)

theorem entries_succ (h : TakesProper fuel) (cs : List Char) :
    Ensures (fun read => ∀ e ∈ read.1, e.1.Proper ∧ e.2.Proper) (takeEntries (fuel + 1) cs) := by
  rw [takeEntries]
  dsimp only
  split
  · exact .ok (List.forall_mem_nil _)
  · refine .after fun rest => ?_
    split
    · exact .ok (List.forall_mem_nil _)
    · refine .bind (h.value _) fun key hkey => .after fun behind => .bind (h.value _) fun value hentry => ?_
      exact .bind (h.entries _) fun more hmore => .ok (List.forall_mem_cons.mpr ⟨⟨hkey, hentry⟩, hmore⟩)

theorem braced_succ (h : TakesProper fuel) (cs : List Char) :
    Ensures (fun read => read.1.Proper) (takeBraced (fuel + 1) cs) := by
  rw [takeBraced]
  dsimp only
  split
  · exact .ok (.map (List.forall_mem_nil _) (List.forall_mem_nil _) .nil)
  · refine .bind (h.value _) fun first hfirst => ?_
    split
    · refine .bind (h.value _) fun value hentry => .bind (h.entries _) fun more hmore => .ok ?_
      exact Value.proper_entriesOf (List.forall_mem_cons.mpr ⟨⟨hfirst, hentry⟩, hmore⟩)
    split
    · exact .ok (.set (List.forall_mem_singleton.mpr hfirst) (List.pairwise_singleton _ _))
    · refine .after fun rest => .bind (h.items _ _) fun more hmore => .ok ?_
      exact Value.proper_distinct (List.forall_mem_cons.mpr ⟨hfirst, hmore⟩)

end TakesProper

theorem takesProper (fuel : Nat) : TakesProper fuel := by
  induction fuel with
  | zero =>
    refine ⟨fun cs => ?_, fun close cs => ?_, fun cs => ?_, fun cs => ?_⟩
    · exact takeValue_zero cs ▸ .error _
    · exact takeItems_zero close cs ▸ .error _
    · exact takeEntries_zero cs ▸ .error _
    · exact takeBraced_zero cs ▸ .error _
  | succ fuel ih => exact ⟨ih.value_succ, ih.items_succ, ih.entries_succ, ih.braced_succ⟩

theorem proper_read (cs : List Char) : Ensures Proper (read cs) := by
  refine .bind ((takesProper _).value cs) fun taken h => ?_
  dsimp only
  split
  · exact .ok h
  · exact .error _

end Literal

/-! ### Texts of forms -/

namespace Text.FormData

variable {groups : List (String × List String)}

theorem mem_keys_addPair {pair : String × String} {key : String} (h : key ∈ (addPair groups pair).map Prod.fst) :
    key = pair.1 ∨ key ∈ groups.map Prod.fst := by
  induction groups with
  | nil => exact .inl (List.mem_singleton.mp h)
  | cons group rest ih =>
    obtain ⟨k, values⟩ := group
    rw [addPair] at h
    split at h
    · exact .inr h
    · obtain rfl | h := List.mem_cons.mp h
      · exact .inr List.mem_cons_self
      · exact (ih h).imp_right (List.mem_cons_of_mem _)

theorem nodup_addPair {pair : String × String} (h : (groups.map Prod.fst).Nodup) : ((addPair groups pair).map Prod.fst).Nodup := by
  induction groups with
  | nil => exact List.nodup_singleton _
  | cons group rest ih =>
    obtain ⟨k, values⟩ := group
    obtain ⟨hk, hrest⟩ := List.nodup_cons.mp h
    rw [addPair]
    split
    · exact h
    next hne =>
      refine List.nodup_cons.mpr ⟨fun hmem => ?_, ih hrest⟩
      exact (mem_keys_addPair hmem).elim hne hk

/-- Each key is there once. -/
theorem nodup_gather (pairs : List (String × String)) : ((gather pairs).map Prod.fst).Nodup := by
  suffices hfold : ∀ groups : List (String × List String), (groups.map Prod.fst).Nodup →
      ((pairs.foldl addPair groups).map Prod.fst).Nodup from hfold [] .nil
  induction pairs with
  | nil => exact fun _ h => h
  | cons pair rest ih => exact fun groups h => ih _ (nodup_addPair h)

end Text.FormData

/-! ### Conversions -/

namespace Converter

open Value (Proper)

variable {s : Scope} {t : Target} {v w : Value} {cs : List Char}

theorem proper_structured? (h : structured? cs = some v) : v.Proper := by
  unfold structured? at h
  split at h
  next hread =>
    cases h
    exact Json.proper_of_ofChars? hread
  next =>
    cases hliteral : Literal.read cs with
    | error e =>
      rw [hliteral] at h
      cases h
    | ok u =>
      rw [hliteral] at h
      cases h
      exact Literal.proper_read cs hliteral

theorem proper_of_items? {items : List Value} (hv : v.Proper) (h : v.items? = some items) : ∀ u ∈ items, u.Proper := by
  cases v with
  | list others =>
    cases h
    exact Value.proper_list.mp hv
  | tuple others =>
    cases h
    exact Value.proper_tuple.mp hv
  | set others =>
    cases h
    exact (Value.proper_set.mp hv).1
  | _ => cases h

theorem proper_parts (separator : Char) (cs : List Char) : ∀ u ∈ parts separator cs, u.Proper :=
  List.forall_mem_map.mpr fun _ _ => .scalar rfl

theorem proper_of_structured_items {items : List Value} (h : (structured? cs).bind Value.items? = some items) :
    ∀ u ∈ items, u.Proper := by
  obtain ⟨u, hu, hitems⟩ := Option.bind_eq_some_iff.mp h
  exact proper_of_items? (proper_structured? hu) hitems

theorem proper_listed (cs : List Char) : Ensures (fun items => ∀ u ∈ items, u.Proper) (listed cs) := by
  unfold listed
  split
  · exact .ok (List.forall_mem_nil _)
  · split
    · next hitems => exact .ok (proper_of_structured_items hitems)
    · exact .error _
  · split
    · next hitems => exact .ok (proper_of_structured_items hitems)
    · exact .error _
  · split
    · next hitems => exact .ok (proper_of_structured_items hitems)
    · exact .error _
  · split_ifs
    · exact .ok (proper_parts _ _)
    · exact .ok (proper_parts _ _)
    · exact .ok (List.forall_mem_singleton.mpr (.scalar rfl))

theorem proper_items (hv : v.Proper) : Ensures (fun items => ∀ u ∈ items, u.Proper) (items v) := by
  unfold items
  split
  · exact .ok (Value.proper_list.mp hv)
  · exact .ok (Value.proper_tuple.mp hv)
  · exact .ok (Value.proper_set.mp hv).1
  · exact .error _
  · exact .error _
  · split
    · exact proper_listed _
    · exact .error _
  · split
    · exact proper_listed _
    · exact .error _
  · exact .ok (List.forall_mem_singleton.mpr hv)

theorem proper_toSequence (hv : v.Proper) : Ensures Proper (toSequence s v t) := by
  unfold toSequence
  split
  · exact .error _
  next hitems =>
    have hproper := proper_items hv hitems
    split
    · exact .ok (.list hproper)
    · exact .ok (.tuple hproper)
    · split
      · exact .ok (Value.proper_distinct hproper)
      · exact .after fun _ => .ok (Value.proper_distinct hproper)
    · exact .error _

theorem proper_ofGroups {groups : List (String × List String)} (h : (groups.map Prod.fst).Nodup) : (ofGroups groups).Proper := by
  refine Value.proper_textKeys Prod.fst h fun group _ => ?_
  split
  · exact .scalar rfl
  · exact .list (List.forall_mem_map.mpr fun _ _ => .scalar rfl)

theorem proper_mapped (cs : List Char) : Ensures Proper (mapped cs) := by
  unfold mapped
  split
  · exact .ok (.map (List.forall_mem_nil _) (List.forall_mem_nil _) .nil)
  · split
    next hread => exact .ok (proper_structured? hread)
    · exact .error _
  · split_ifs
    · exact .error _
    · exact .ok (proper_ofGroups (Text.FormData.nodup_gather _))
    · exact .ok (proper_ofGroups (Text.FormData.nodup_gather _))

theorem proper_of_pair? {key value : Value} (hv : v.Proper) (h : pair? v = some (key, value)) : key.Proper ∧ value.Proper := by
  unfold pair? at h
  split at h
  · cases h
    have hitems := Value.proper_list.mp hv
    exact ⟨hitems _ (by simp), hitems _ (by simp)⟩
  · cases h
    have hitems := Value.proper_tuple.mp hv
    exact ⟨hitems _ (by simp), hitems _ (by simp)⟩
  · cases h

theorem proper_of_mapM {items : List Value} {entries : List (Value × Value)} (hitems : ∀ u ∈ items, u.Proper)
    (h : items.mapM pair? = some entries) : ∀ e ∈ entries, e.1.Proper ∧ e.2.Proper := by
  intro e he
  obtain ⟨u, hu, hpair⟩ := exists_of_mapM h e he
  exact proper_of_pair? (hitems u hu) hpair

theorem proper_ofPairs {items : List Value} (h : ∀ u ∈ items, u.Proper) : Ensures Proper (ofPairs items) := by
  unfold ofPairs
  split
  next hentries => exact .ok (Value.proper_entriesOf (proper_of_mapM h hentries))
  · exact .error _

theorem proper_entries (hv : v.Proper) : Ensures Proper (entries v) := by
  unfold entries
  split
  · exact proper_mapped _
  · exact proper_mapped _
  · exact proper_ofPairs (Value.proper_list.mp hv)
  · exact proper_ofPairs (Value.proper_tuple.mp hv)
  · exact proper_ofPairs (Value.proper_set.mp hv).1
  · exact .error _

theorem proper_toMap (hv : v.Proper) : Ensures Proper (toMap s v t) := by
  unfold toMap
  split
  next hentries => exact .ok (proper_entries hv hentries)
  · exact .error _

/-- What becomes a map is one, whether a schema reads it or not. -/
theorem kind_toMap : Ensures (fun w => w.kind = .map) (toMap s v t) := by
  unfold toMap
  split
  next map hentries =>
    have hexact : Target.map.isExact map = true := lands_toMap (s := s) v (by rw [toMap, hentries])
    exact .ok (Option.some.inj (beq_iff_eq.mp hexact)).symm
  · exact .error _

end Converter

namespace Registry

open Value (Proper)

variable {s : Strictness} {t : Target} {v w : Value}

/-- What holds of a value, of what is stored in it and of what the converter of the target's kind gives holds of what the
    value is converted to. -/
theorem ensures_convert {r : Registry} {p : Value → Prop} {converter : Converter}
    (hresolve : t.kind?.bind r.resolve? = some converter) (hexact : ∀ u, u = v ∨ u = unwrapped t v → t.isExact u = true → p u)
    (hconverter : ∀ scope, Ensures p (converter scope (unwrapped t v) t)) : Ensures p (r.convert s v t) := by
  unfold convert convertWith convertAt
  split
  next h => exact .ok (hexact v (.inl rfl) h)
  split
  · exact .error _
  dsimp only
  split
  next h => exact .ok (hexact _ (.inr rfl) h)
  rw [hresolve]
  exact hconverter _

theorem proper_unwrapped (hv : v.Proper) : (unwrapped t v).Proper := by
  unfold unwrapped
  split
  · exact hv
  · exact Value.proper_member.mp hv
  · exact hv

/-- What is converted to a kind is of that kind; a value that a schema has yet to read is a map. -/
theorem kind_of_convert {k : Kind} (ht : t.kind? = some k) (h : standard.convert s v t = .ok w) : w.kind = k := by
  have hexact (hplain : t.namesEntity = false) (hw : t.isExact w = true) : w.kind = k := by
    cases t with
    | any | entity | reference => first | cases ht; done | cases hplain
    | enum e =>
      cases ht
      cases w <;> first | rfl | cases hw
    | _ =>
      cases ht
      exact (Option.some.inj (beq_iff_eq.mp hw)).symm
  by_cases hentity : t.namesEntity = true
  · obtain rfl : k = .map := by cases t <;> first | cases hentity; done | (cases ht; rfl)
    have hresolve : t.kind?.bind standard.resolve? = some Converter.toMap := by rw [ht]; rfl
    refine ensures_convert hresolve (fun u _ hu => ?_) (fun _ => Converter.kind_toMap) h
    cases t <;> first | cases hentity; done | exact (Option.some.inj (beq_iff_eq.mp hu)).symm
  · have hplain : t.namesEntity = false := Bool.not_eq_true _ ▸ hentity
    exact hexact hplain (isExact_of_convert hplain h)

/-- What a proper value is converted to is proper. -/
theorem proper_of_convert {k : Kind} (ht : t.kind? = some k) (hk : k ≠ .enum) (hv : v.Proper)
    (h : standard.convert s v t = .ok w) : w.Proper := by
  have hkind := kind_of_convert ht h
  by_cases hscalar : (k.isSequence || k == .map) = true
  · obtain ⟨converter, hresolve, hproper⟩ : ∃ converter : Converter, t.kind?.bind standard.resolve? = some converter ∧
        ∀ scope, Ensures Proper (converter scope (unwrapped t v) t) := by
      rw [ht]
      cases k with
      | list | tuple | set => exact ⟨Converter.toSequence, rfl, fun _ => Converter.proper_toSequence (proper_unwrapped hv)⟩
      | map => exact ⟨Converter.toMap, rfl, fun _ => Converter.proper_toMap (proper_unwrapped hv)⟩
      | _ => cases hscalar
    refine ensures_convert hresolve (fun u hu _ => ?_) hproper h
    obtain rfl | rfl := hu
    · exact hv
    · exact proper_unwrapped hv
  · refine .scalar ?_
    rw [Value.isScalar, hkind]
    cases k <;> first | rfl | exact absurd rfl hscalar | exact absurd rfl hk

end Registry

end Conform

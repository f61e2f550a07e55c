import Conform.Proofs.Numeric.Binary64
import Conform.Value.Equality

/-! Equality as data is an equivalence of the values that can be built. Sets and maps are compared one way only, by what
    each member of the first has among the second; since they have as many members, and none of them twice, the other
    way follows. -/

namespace Conform

/-! ### Sets and maps -/

namespace Value

/-- Values none of which is equal to one before it. -/
def Apart (items : List Value) : Prop := items.Pairwise fun u v => v.same u = false

theorem isAmong_eq_false {v : Value} {items : List Value} : v.isAmong items = false ↔ ∀ u ∈ items, v.same u = false := by
  simp [isAmong]

theorem apart_append_singleton {items : List Value} {v : Value} (h : Apart items) (hv : v.isAmong items = false) :
    Apart (items ++ [v]) := by
  refine List.pairwise_append.mpr ⟨h, List.pairwise_singleton _ v, fun u hu w hw => ?_⟩
  obtain rfl := List.mem_singleton.mp hw
  exact isAmong_eq_false.mp hv u hu

theorem apart_distinct (items : List Value) : Apart (distinct items) := by
  suffices h : ∀ kept : List Value, Apart kept → Apart (items.foldl insertItem kept) from h [] .nil
  induction items with
  | nil => exact fun kept hkept => hkept
  | cons v rest ih =>
    intro kept hkept
    refine ih _ ?_
    unfold insertItem
    split
    case isTrue => exact hkept
    case isFalse hnew => exact apart_append_singleton hkept (by simpa using hnew)

/-- Values that are apart stay as they are. -/
theorem distinct_of_apart {items : List Value} (h : Apart items) : distinct items = items := by
  suffices hfold : ∀ kept : List Value, Apart (kept ++ items) → items.foldl insertItem kept = kept ++ items from
    hfold [] h
  clear h
  induction items with
  | nil =>
    intro kept _
    rw [List.append_nil]
    rfl
  | cons v rest ih =>
    intro kept h
    have hnew : v.isAmong kept = false :=
      isAmong_eq_false.mpr fun u hu => (List.pairwise_append.mp h).2.2 u hu v List.mem_cons_self
    rw [List.append_cons] at h ⊢
    rw [List.foldl_cons, insertItem, if_neg (by rw [hnew]; exact Bool.false_ne_true)]
    exact ih (kept ++ [v]) h

theorem keys_insertEntry (k v : Value) (es : List (Value × Value)) :
    (insertEntry k v es).map Prod.fst =
      if k.isAmong (es.map Prod.fst) then es.map Prod.fst else es.map Prod.fst ++ [k] := by
  induction es with
  | nil => rfl
  | cons e rest ih =>
    obtain ⟨k', v'⟩ := e
    rw [insertEntry, List.map_cons, isAmong, List.any_cons]
    cases k.same k' with
    | true => rfl
    | false =>
      rw [if_neg Bool.false_ne_true, List.map_cons, ih, Bool.false_or, isAmong]
      split <;> rfl

theorem apart_insertEntry {k v : Value} {es : List (Value × Value)} (h : Apart (es.map Prod.fst)) :
    Apart ((insertEntry k v es).map Prod.fst) := by
  rw [keys_insertEntry]
  split
  case isTrue => exact h
  case isFalse hnew => exact apart_append_singleton h (by simpa using hnew)

theorem insertEntry_of_new {k v : Value} {es : List (Value × Value)} (h : k.isAmong (es.map Prod.fst) = false) :
    insertEntry k v es = es ++ [(k, v)] := by
  induction es with
  | nil => rfl
  | cons e rest ih =>
    obtain ⟨k', v'⟩ := e
    rw [List.map_cons, isAmong, List.any_cons, Bool.or_eq_false_iff] at h
    rw [insertEntry, if_neg (by rw [h.1]; exact Bool.false_ne_true), ih h.2, List.cons_append]

/-- So do entries whose keys are apart. -/
theorem entriesOf_of_apart {es : List (Value × Value)} (h : Apart (es.map Prod.fst)) : entriesOf es = es := by
  suffices hfold : ∀ kept : List (Value × Value), Apart ((kept ++ es).map Prod.fst) →
      es.foldl (fun map e => insertEntry e.1 e.2 map) kept = kept ++ es from hfold [] h
  clear h
  induction es with
  | nil => exact fun kept _ => kept.append_nil.symm
  | cons e rest ih =>
    intro kept h
    have hnew : e.1.isAmong (kept.map Prod.fst) = false := isAmong_eq_false.mpr fun k hk =>
      (List.pairwise_append.mp (List.map_append ▸ h)).2.2 k hk e.1 List.mem_cons_self
    rw [List.append_cons] at h ⊢
    rw [List.foldl_cons, insertEntry_of_new hnew]
    exact ih (kept ++ [e]) h

/-- A key that is there already keeps its form, so every key and every value is one of before or the new one. -/
theorem forall_insertEntry {p q : Value → Prop} {k v : Value} {es : List (Value × Value)} (hk : p k) (hv : q v)
    (h : ∀ e ∈ es, p e.1 ∧ q e.2) : ∀ e ∈ insertEntry k v es, p e.1 ∧ q e.2 := by
  induction es with
  | nil => exact List.forall_mem_singleton.mpr ⟨hk, hv⟩
  | cons e rest ih =>
    obtain ⟨he, hrest⟩ := List.forall_mem_cons.mp h
    obtain ⟨k', v'⟩ := e
    rw [insertEntry]
    split
    · exact List.forall_mem_cons.mpr ⟨⟨he.1, hv⟩, hrest⟩
    · exact List.forall_mem_cons.mpr ⟨he, ih hrest⟩

/-! ### Coverage -/

section Coverage

variable {α β : Type} {R : α → β → Prop} {as : List α} {bs : List β}

theorem exists_mem_append {before after : List β} {a : α} {b : β} (h : ∃ b' ∈ before ++ b :: after, R a b') (hb : ¬R a b) :
    ∃ b' ∈ before ++ after, R a b' := by
  obtain ⟨b', hb', hab⟩ := h
  have hne : b' ≠ b := fun heq => hb (heq ▸ hab)
  rw [List.mem_append, List.mem_cons] at hb'
  exact ⟨b', List.mem_append.mpr (hb'.imp_right fun hafter => hafter.resolve_left hne), hab⟩

/-- If every element has a partner, no two of them the same, there are no fewer partners than elements. -/
theorem length_le_of_cover (hcover : ∀ a ∈ as, ∃ b ∈ bs, R a b) (hapart : as.Pairwise fun a a' => ∀ b ∈ bs, R a b → ¬R a' b) :
    as.length ≤ bs.length := by
  induction as generalizing bs with
  | nil => exact Nat.zero_le _
  | cons a rest ih =>
    obtain ⟨⟨b, hb, hab⟩, hrest⟩ := List.forall_mem_cons.mp hcover
    obtain ⟨hfirst, hothers⟩ := List.pairwise_cons.mp hapart
    obtain ⟨before, after, rfl⟩ := List.append_of_mem hb
    have hsub := ((List.sublist_cons_self b after).append_left before).subset
    have hle := ih (fun a' ha' => exists_mem_append (hrest a' ha') (hfirst a' ha' b hb hab))
      (hothers.imp fun h b' hb' => h b' (hsub hb'))
    simp only [List.length_append, List.length_cons] at hle ⊢
    omega

/-- If there are no more partners than elements either, every partner has its element. -/
theorem exists_of_length_eq (hlength : as.length = bs.length) (hcover : ∀ a ∈ as, ∃ b ∈ bs, R a b)
    (hapart : as.Pairwise fun a a' => ∀ b ∈ bs, R a b → ¬R a' b) : ∀ b ∈ bs, ∃ a ∈ as, R a b := by
  intro b hb
  by_contra hnone
  obtain ⟨before, after, rfl⟩ := List.append_of_mem hb
  have hsub := ((List.sublist_cons_self b after).append_left before).subset
  have hle := length_le_of_cover (fun a ha => exists_mem_append (hcover a ha) fun hab => hnone ⟨a, ha, hab⟩)
    (hapart.imp fun h b' hb' => h b' (hsub hb'))
  simp only [List.length_append, List.length_cons] at hle hlength
  omega

end Coverage

variable {u v w : Value}

/-! ### What a value equals -/

theorem float_same_iff {x : Binary64} : (float x).same v = true ↔ ∃ y, v = .float y ∧ x.form.denoted = y.form.denoted := by
  cases v <;> simp [same, Binary64.same_iff]

theorem decimal_same_iff {d : Decimal} : (decimal d).same v = true ↔ ∃ e, v = .decimal e ∧ d.value = e.value := by
  cases v <;> simp [same, Decimal.same_iff]

theorem instant_same_iff {s : OffsetDateTime} : (instant s).same v = true ↔ ∃ t, v = .instant t ∧ s.utc = t.utc := by
  cases v <;> simp [same, OffsetDateTime.same]

theorem list_same_iff {us : List Value} : (list us).same v = true ↔ ∃ vs, v = .list vs ∧ sameItems us vs = true := by
  cases v <;> simp [same]

theorem tuple_same_iff {us : List Value} : (tuple us).same v = true ↔ ∃ vs, v = .tuple vs ∧ sameItems us vs = true := by
  cases v <;> simp [same]

theorem set_same_iff {us : List Value} :
    (set us).same v = true ↔ ∃ vs, v = .set vs ∧ us.length = vs.length ∧ allWithin us vs = true := by
  cases v <;> simp [same]

theorem map_same_iff {es : List (Value × Value)} :
    (map es).same v = true ↔ ∃ fs, v = .map fs ∧ es.length = fs.length ∧ allEntriesWithin es fs = true := by
  cases v <;> simp [same]

/-! ### Values that can be built -/

/-- What has no values inside. -/
def isScalar (v : Value) : Bool := !(v.kind.isSequence || v.kind == .map || v.kind == .enum)

/-- Values as they are built: no member of a set and no key of a map is there twice, at whatever depth. -/
inductive Proper : Value → Prop
  | scalar {v : Value} (h : v.isScalar = true) : Proper v
  | list {items : List Value} (hitems : ∀ v ∈ items, Proper v) : Proper (.list items)
  | tuple {items : List Value} (hitems : ∀ v ∈ items, Proper v) : Proper (.tuple items)
  | set {items : List Value} (hitems : ∀ v ∈ items, Proper v) (hapart : Apart items) : Proper (.set items)
  | map {entries : List (Value × Value)} (hkeys : ∀ e ∈ entries, Proper e.1) (hvalues : ∀ e ∈ entries, Proper e.2)
      (hapart : Apart (entries.map Prod.fst)) : Proper (.map entries)
  | member {enumeration name : String} {v : Value} (h : Proper v) : Proper (.member enumeration name v)

theorem proper_list {items : List Value} : Proper (.list items) ↔ ∀ v ∈ items, Proper v := by
  refine ⟨fun h => ?_, .list⟩
  cases h with
  | list hitems => exact hitems
  | scalar h => cases h

theorem proper_tuple {items : List Value} : Proper (.tuple items) ↔ ∀ v ∈ items, Proper v := by
  refine ⟨fun h => ?_, .tuple⟩
  cases h with
  | tuple hitems => exact hitems
  | scalar h => cases h

theorem proper_set {items : List Value} : Proper (.set items) ↔ (∀ v ∈ items, Proper v) ∧ Apart items := by
  refine ⟨fun h => ?_, fun h => .set h.1 h.2⟩
  cases h with
  | set hitems hapart => exact ⟨hitems, hapart⟩
  | scalar h => cases h

theorem proper_map {entries : List (Value × Value)} : Proper (.map entries) ↔
    (∀ e ∈ entries, Proper e.1) ∧ (∀ e ∈ entries, Proper e.2) ∧ Apart (entries.map Prod.fst) := by
  refine ⟨fun h => ?_, fun h => .map h.1 h.2.1 h.2.2⟩
  cases h with
  | map hkeys hvalues hapart => exact ⟨hkeys, hvalues, hapart⟩
  | scalar h => cases h

theorem proper_member {enumeration name : String} {v : Value} : Proper (.member enumeration name v) ↔ Proper v := by
  refine ⟨fun h => ?_, .member⟩
  cases h with
  | member h => exact h
  | scalar h => cases h

/-- A value that is equal to itself, and what it is equal to is equal to the same values as it is. -/
structure Regular (u : Value) : Prop where
  refl : u.same u = true
  symm : ∀ {v : Value}, v.Proper → u.same v = true → v.same u = true
  congr : ∀ {v w : Value}, v.Proper → w.Proper → u.same v = true → v.same w = u.same w

/-- What is equal to nothing but itself. -/
theorem Regular.of_eq (hrefl : u.same u = true) (heq : ∀ v, u.same v = true → v = u) : Regular u :=
  ⟨hrefl, fun _ h => heq _ h ▸ hrefl, fun _ _ h => heq _ h ▸ rfl⟩

theorem Regular.of_same (hu : Regular u) (hv : v.Proper) (h : u.same v = true) : Regular v :=
  ⟨(hu.congr hv hv h).trans h, fun hw hvw => (hu.congr hw hv (hu.congr hv hw h ▸ hvw)).trans h,
    fun hw hx hvw => (hu.congr hw hx (hu.congr hv hw h ▸ hvw)).trans (hu.congr hv hx h).symm⟩

/-- A value is equal to those alone that denote what it denotes. -/
theorem regular_of_denoted {α β : Type} {wrap : α → Value} {denoted : α → β}
    (hsame : ∀ {a v}, (wrap a).same v = true ↔ ∃ b, v = wrap b ∧ denoted a = denoted b) (a : α) : Regular (wrap a) where
  refl := hsame.mpr ⟨a, rfl, rfl⟩
  symm {v} _ h := by
    obtain ⟨b, rfl, hb⟩ := hsame.mp h
    exact hsame.mpr ⟨a, rfl, hb.symm⟩
  congr {v w} _ _ h := by
    obtain ⟨b, rfl, hb⟩ := hsame.mp h
    rw [Bool.eq_iff_iff, hsame, hsame, hb]

theorem regular_scalar (h : u.isScalar = true) : Regular u := by
  cases u with
  | float x => exact regular_of_denoted float_same_iff x
  | decimal d => exact regular_of_denoted decimal_same_iff d
  | instant t => exact regular_of_denoted instant_same_iff t
  | list | tuple | set | map | member => cases h
  | _ =>
    refine .of_eq (by simp [same]) fun v hv => ?_
    cases v <;> simp_all [same]

/-! ### Lists -/

theorem sameItems_refl {as : List Value} (h : ∀ a ∈ as, Regular a) : sameItems as as = true := by
  induction as with
  | nil => rw [sameItems]
  | cons a rest ih =>
    obtain ⟨ha, hrest⟩ := List.forall_mem_cons.mp h
    rw [sameItems, ha.refl, ih hrest, Bool.and_self]

theorem sameItems_symm {as bs : List Value} (h : ∀ a ∈ as, Regular a) (hbs : ∀ b ∈ bs, Proper b)
    (hsame : sameItems as bs = true) : sameItems bs as = true := by
  induction as generalizing bs with
  | nil => cases bs <;> simp_all [sameItems]
  | cons a rest ih =>
    cases bs with
    | nil => simp [sameItems] at hsame
    | cons b more =>
      obtain ⟨ha, hrest⟩ := List.forall_mem_cons.mp h
      obtain ⟨hb, hmore⟩ := List.forall_mem_cons.mp hbs
      rw [sameItems, Bool.and_eq_true] at hsame
      rw [sameItems, ha.symm hb hsame.1, ih hrest hmore hsame.2, Bool.and_self]

theorem sameItems_congr {as bs cs : List Value} (h : ∀ a ∈ as, Regular a) (hbs : ∀ b ∈ bs, Proper b) (hcs : ∀ c ∈ cs, Proper c)
    (hsame : sameItems as bs = true) : sameItems bs cs = sameItems as cs := by
  induction as generalizing bs cs with
  | nil => cases bs <;> simp_all [sameItems]
  | cons a rest ih =>
    cases bs with
    | nil => simp [sameItems] at hsame
    | cons b more =>
      obtain ⟨ha, hrest⟩ := List.forall_mem_cons.mp h
      obtain ⟨hb, hmore⟩ := List.forall_mem_cons.mp hbs
      rw [sameItems, Bool.and_eq_true] at hsame
      cases cs with
      | nil => simp [sameItems]
      | cons c others =>
        obtain ⟨hc, hothers⟩ := List.forall_mem_cons.mp hcs
        rw [sameItems, sameItems, ha.congr hb hc hsame.1, ih hrest hmore hothers hsame.2]

/-! ### Sets -/

theorem allWithin_iff {as bs : List Value} : allWithin as bs = true ↔ ∀ a ∈ as, ∃ b ∈ bs, a.same b = true := by
  induction as with
  | nil => simp [allWithin]
  | cons a rest ih => rw [allWithin, Bool.and_eq_true, ih, List.any_eq_true, List.forall_mem_cons]

/-- No two members of a set are equal to the same value. -/
theorem Apart.pairwise {as bs : List Value} (hapart : Apart as) (h : ∀ a ∈ as, Regular a) (has : ∀ a ∈ as, Proper a)
    (hbs : ∀ b ∈ bs, Proper b) : as.Pairwise fun a a' => ∀ b ∈ bs, a.same b = true → ¬a'.same b = true := by
  refine hapart.imp_of_mem fun {a a'} ha ha' hne b hb hab hab' => ?_
  have hback : b.same a = a'.same a := (h a' ha').congr (hbs b hb) (has a ha) hab'
  rw [(h a ha).symm (hbs b hb) hab, hne] at hback
  cases hback

section Sets

variable {as bs cs : List Value} (h : ∀ a ∈ as, Regular a) (has : ∀ a ∈ as, Proper a) (hapart : Apart as)
  (hbs : ∀ b ∈ bs, Proper b) (hlength : as.length = bs.length) (hsame : allWithin as bs = true)

include h has hapart hbs hlength hsame

/-- Each member of the second of two equal sets is equal to one of the first. -/
theorem exists_of_allWithin : ∀ b ∈ bs, ∃ a ∈ as, a.same b = true :=
  exists_of_length_eq hlength (allWithin_iff.mp hsame) (hapart.pairwise h has hbs)

theorem allWithin_symm : allWithin bs as = true := by
  refine allWithin_iff.mpr fun b hb => ?_
  obtain ⟨a, ha, hab⟩ := exists_of_allWithin h has hapart hbs hlength hsame b hb
  exact ⟨a, ha, (h a ha).symm (hbs b hb) hab⟩

theorem allWithin_congr (hcs : ∀ c ∈ cs, Proper c) : allWithin bs cs = allWithin as cs := by
  rw [Bool.eq_iff_iff, allWithin_iff, allWithin_iff]
  constructor
  · intro hbc a ha
    obtain ⟨b, hb, hab⟩ := allWithin_iff.mp hsame a ha
    obtain ⟨c, hc, hbc⟩ := hbc b hb
    exact ⟨c, hc, (h a ha).congr (hbs b hb) (hcs c hc) hab ▸ hbc⟩
  · intro hac b hb
    obtain ⟨a, ha, hab⟩ := exists_of_allWithin h has hapart hbs hlength hsame b hb
    obtain ⟨c, hc, hac⟩ := hac a ha
    exact ⟨c, hc, ((h a ha).congr (hbs b hb) (hcs c hc) hab).trans hac⟩

end Sets

/-! ### Maps -/

/-- Entries with equal keys and equal values. -/
def Matches (e f : Value × Value) : Prop := e.1.same f.1 = true ∧ e.2.same f.2 = true

/-- Of the keys of a map one at most is equal to a value, so that the first is the only one. -/
theorem find?_iff {k : Value} {fs : List (Value × Value)} (hk : Regular k) (hfs : ∀ f ∈ fs, Proper f.1)
    (hapart : Apart (fs.map Prod.fst)) {p : Value × Value → Prop} :
    (∃ f, fs.find? (fun f => k.same f.1) = some f ∧ p f) ↔ ∃ f ∈ fs, k.same f.1 = true ∧ p f := by
  constructor
  · rintro ⟨f, hfind, hp⟩
    exact ⟨f, List.mem_of_find?_eq_some hfind, List.find?_some (p := fun f : Value × Value => k.same f.1) hfind, hp⟩
  · rintro ⟨f, hf, hkf, hp⟩
    obtain ⟨g, hfind⟩ := Option.isSome_iff_exists.mp 
      (List.find?_isSome (p := fun f : Value × Value => k.same f.1) |>.mpr ⟨f, hf, hkf⟩)
    have hg := List.mem_of_find?_eq_some hfind
    have hkg : k.same g.1 = true := List.find?_some (p := fun f : Value × Value => k.same f.1) hfind
    refine ⟨g, hfind, ?_⟩
    by_cases heq : f = g
    · exact heq ▸ hp
    · have hsymm : Std.Symm fun x y : Value × Value => ¬(x.1.same y.1 = true ∧ y.1.same x.1 = true) :=
        ⟨fun _ _ hne hboth => hne hboth.symm⟩
      have hpairwise : fs.Pairwise fun x y => ¬(x.1.same y.1 = true ∧ y.1.same x.1 = true) :=
        (List.pairwise_map.mp hapart).imp fun {x y} (hne : y.1.same x.1 = false) hboth =>
          Bool.false_ne_true (hne.symm.trans hboth.2)
      have hfg : f.1.same g.1 = true := (hk.congr (hfs f hf) (hfs g hg) hkf).trans hkg
      have hgf : g.1.same f.1 = true := (hk.congr (hfs g hg) (hfs f hf) hkg).trans hkf
      exact absurd ⟨hfg, hgf⟩ (hpairwise.forall hf hg heq)

theorem allEntriesWithin_iff {es fs : List (Value × Value)} (hes : ∀ e ∈ es, Regular e.1) (hfs : ∀ f ∈ fs, Proper f.1)
    (hapart : Apart (fs.map Prod.fst)) : allEntriesWithin es fs = true ↔ ∀ e ∈ es, ∃ f ∈ fs, Matches e f := by
  induction es with
  | nil => simp [allEntriesWithin]
  | cons e rest ih =>
    obtain ⟨he, hrest⟩ := List.forall_mem_cons.mp hes
    have hfound := find?_iff he hfs hapart (p := fun f => e.2.same f.2 = true)
    rw [allEntriesWithin, Bool.and_eq_true, ih hrest, List.forall_mem_cons]
    refine and_congr_left fun _ => ?_
    unfold Matches
    rw [← hfound]
    cases fs.find? fun f => e.1.same f.1 with
    | none => simp
    | some f => simp

/-- No two entries of a map match the same entry. -/
theorem Apart.pairwise_entries {es fs : List (Value × Value)} (hapart : Apart (es.map Prod.fst)) (hkeys : ∀ e ∈ es, Regular e.1)
    (hproper : ∀ e ∈ es, Proper e.1) (hfkeys : ∀ f ∈ fs, Proper f.1) :
    es.Pairwise fun e e' => ∀ f ∈ fs, Matches e f → ¬Matches e' f := by
  refine (List.pairwise_map.mp hapart).imp_of_mem fun {e e'} he he' hne f hf hef hef' => ?_
  have hback : f.1.same e.1 = e'.1.same e.1 := (hkeys e' he').congr (hfkeys f hf) (hproper e he) hef'.1
  rw [(hkeys e he).symm (hfkeys f hf) hef.1, hne] at hback
  cases hback

section Maps

variable {es fs gs : List (Value × Value)} (hkeys : ∀ e ∈ es, Regular e.1) (hvalues : ∀ e ∈ es, Regular e.2)
  (hproper : ∀ e ∈ es, Proper e.1) (hapart : Apart (es.map Prod.fst))
  (hfkeys : ∀ f ∈ fs, Proper f.1) (hfvalues : ∀ f ∈ fs, Proper f.2) (hfapart : Apart (fs.map Prod.fst))
  (hlength : es.length = fs.length) (hsame : allEntriesWithin es fs = true)

include hkeys hproper hapart hfkeys hfapart hlength hsame

/-- Each entry of the second of two equal maps is equal to one of the first. -/
theorem exists_of_allEntriesWithin : ∀ f ∈ fs, ∃ e ∈ es, Matches e f :=
  exists_of_length_eq hlength ((allEntriesWithin_iff hkeys hfkeys hfapart).mp hsame)
    (hapart.pairwise_entries hkeys hproper hfkeys)

include hvalues hfvalues

theorem allEntriesWithin_symm : allEntriesWithin fs es = true := by
  have hback := exists_of_allEntriesWithin hkeys hproper hapart hfkeys hfapart hlength hsame
  refine (allEntriesWithin_iff (fun f hf => ?_) hproper hapart).mpr fun f hf => ?_
  · obtain ⟨e, he, hef⟩ := hback f hf
    exact (hkeys e he).of_same (hfkeys f hf) hef.1
  · obtain ⟨e, he, hef⟩ := hback f hf
    exact ⟨e, he, (hkeys e he).symm (hfkeys f hf) hef.1, (hvalues e he).symm (hfvalues f hf) hef.2⟩

theorem allEntriesWithin_congr (hgkeys : ∀ g ∈ gs, Proper g.1) (hgvalues : ∀ g ∈ gs, Proper g.2)
    (hgapart : Apart (gs.map Prod.fst)) : allEntriesWithin fs gs = allEntriesWithin es gs := by
  have hback := exists_of_allEntriesWithin hkeys hproper hapart hfkeys hfapart hlength hsame
  have hregular : ∀ f ∈ fs, Regular f.1 := fun f hf => by
    obtain ⟨e, he, hef⟩ := hback f hf
    exact (hkeys e he).of_same (hfkeys f hf) hef.1
  have hmatches {e f g : Value × Value} (he : e ∈ es) (hf : f ∈ fs) (hg : g ∈ gs) (hef : Matches e f) :
      Matches f g ↔ Matches e g := by
    rw [Matches, Matches, (hkeys e he).congr (hfkeys f hf) (hgkeys g hg) hef.1,
      (hvalues e he).congr (hfvalues f hf) (hgvalues g hg) hef.2]
  rw [Bool.eq_iff_iff, allEntriesWithin_iff hregular hgkeys hgapart, allEntriesWithin_iff hkeys hgkeys hgapart]
  constructor
  · intro hfg e he
    obtain ⟨f, hf, hef⟩ := (allEntriesWithin_iff hkeys hfkeys hfapart).mp hsame e he
    obtain ⟨g, hg, hfg⟩ := hfg f hf
    exact ⟨g, hg, (hmatches he hf hg hef).mp hfg⟩
  · intro heg f hf
    obtain ⟨e, he, hef⟩ := hback f hf
    obtain ⟨g, hg, heg⟩ := heg e he
    exact ⟨g, hg, (hmatches he hf hg hef).mpr heg⟩

end Maps

/-! ### Every value that can be built -/

/-- Lists and tuples are compared item by item with their own kind. -/
theorem regular_items {wrap : List Value → Value}
    (hsame : ∀ {as v}, (wrap as).same v = true ↔ ∃ bs, v = wrap bs ∧ sameItems as bs = true)
    (hproper : ∀ {as}, Proper (wrap as) → ∀ a ∈ as, Proper a) {items : List Value} (h : ∀ v ∈ items, Regular v) :
    Regular (wrap items) where
  refl := hsame.mpr ⟨items, rfl, sameItems_refl h⟩
  symm {v} hv huv := by
    obtain ⟨others, rfl, hothers⟩ := hsame.mp huv
    exact hsame.mpr ⟨items, rfl, sameItems_symm h (hproper hv) hothers⟩
  congr {v w} hv hw huv := by
    obtain ⟨others, rfl, hothers⟩ := hsame.mp huv
    rw [Bool.eq_iff_iff, hsame, hsame]
    refine exists_congr fun more => and_congr_right ?_
    rintro rfl
    rw [sameItems_congr h (hproper hv) (hproper hw) hothers]

theorem regular_set {items : List Value} (h : ∀ v ∈ items, Regular v) (hitems : ∀ v ∈ items, Proper v) (hapart : Apart items) :
    Regular (.set items) where
  refl := set_same_iff.mpr ⟨items, rfl, rfl, allWithin_iff.mpr fun v hv => ⟨v, hv, (h v hv).refl⟩⟩
  symm {v} hv hsame := by
    obtain ⟨others, rfl, hlength, hwithin⟩ := set_same_iff.mp hsame
    exact set_same_iff.mpr
      ⟨items, rfl, hlength.symm, allWithin_symm h hitems hapart (proper_set.mp hv).1 hlength hwithin⟩
  congr {v w} hv hw hsame := by
    obtain ⟨others, rfl, hlength, hwithin⟩ := set_same_iff.mp hsame
    rw [Bool.eq_iff_iff, set_same_iff, set_same_iff, hlength]
    refine exists_congr fun more => and_congr_right ?_
    rintro rfl
    rw [allWithin_congr h hitems hapart (proper_set.mp hv).1 hlength hwithin (proper_set.mp hw).1]

theorem regular_map {entries : List (Value × Value)} (hkeys : ∀ e ∈ entries, Regular e.1) (hvalues : ∀ e ∈ entries, Regular e.2)
    (hproper : ∀ e ∈ entries, Proper e.1) (hapart : Apart (entries.map Prod.fst)) : Regular (.map entries) where
  refl := map_same_iff.mpr ⟨entries, rfl, rfl, (allEntriesWithin_iff hkeys hproper hapart).mpr fun e he =>
    ⟨e, he, (hkeys e he).refl, (hvalues e he).refl⟩⟩
  symm {v} hv hsame := by
    obtain ⟨others, rfl, hlength, hwithin⟩ := map_same_iff.mp hsame
    obtain ⟨hothers, hvalues', hapart'⟩ := proper_map.mp hv
    exact map_same_iff.mpr ⟨entries, rfl, hlength.symm,
      allEntriesWithin_symm hkeys hvalues hproper hapart hothers hvalues' hapart' hlength hwithin⟩
  congr {v w} hv hw hsame := by
    obtain ⟨others, rfl, hlength, hwithin⟩ := map_same_iff.mp hsame
    obtain ⟨hothers, hvalues', hapart'⟩ := proper_map.mp hv
    rw [Bool.eq_iff_iff, map_same_iff, map_same_iff, hlength]
    refine exists_congr fun more => and_congr_right ?_
    rintro rfl
    obtain ⟨hmore, hvalues'', hapart''⟩ := proper_map.mp hw
    rw [allEntriesWithin_congr hkeys hvalues hproper hapart hothers hvalues' hapart' hlength hwithin hmore hvalues'' hapart'']

theorem regular_member {enumeration name : String} (h : Regular u) : Regular (.member enumeration name u) where
  refl := member_same_iff.mpr ⟨u, rfl, h.refl⟩
  symm {v} hv hsame := by
    obtain ⟨v, rfl, huv⟩ := member_same_iff.mp hsame
    exact member_same_iff.mpr ⟨u, rfl, h.symm (proper_member.mp hv) huv⟩
  congr {v w} hv hw hsame := by
    obtain ⟨v, rfl, huv⟩ := member_same_iff.mp hsame
    rw [Bool.eq_iff_iff, member_same_iff, member_same_iff]
    refine exists_congr fun w => and_congr_right ?_
    rintro rfl
    rw [h.congr (proper_member.mp hv) (proper_member.mp hw) huv]

/-- Equality is an equivalence of the values that can be built. -/
theorem Proper.regular (h : Proper u) : Regular u := by
  induction h with
  | scalar h => exact regular_scalar h
  | list _ ih => exact regular_items list_same_iff proper_list.mp ih
  | tuple _ ih => exact regular_items tuple_same_iff proper_tuple.mp ih
  | set hitems hapart ih => exact regular_set ih hitems hapart
  | map hkeys _ hapart ihkeys ihvalues => exact regular_map ihkeys ihvalues hkeys hapart
  | member _ ih => exact regular_member ih

theorem Proper.same_comm (hu : Proper u) (hv : Proper v) : u.same v = v.same u :=
  Bool.eq_iff_iff.mpr ⟨hu.regular.symm hv, hv.regular.symm hu⟩

/-- Sets are equal if they have the same members. -/
theorem same_set_iff {us vs : List Value} (hu : Proper (.set us)) (hv : Proper (.set vs)) :
    (Value.set us).same (.set vs) = true ↔
      (∀ a ∈ us, ∃ b ∈ vs, a.same b = true) ∧ ∀ b ∈ vs, ∃ a ∈ us, a.same b = true := by
  obtain ⟨hus, hapart⟩ := proper_set.mp hu
  obtain ⟨hvs, hapart'⟩ := proper_set.mp hv
  have hregular : ∀ a ∈ us, Regular a := fun a ha => (hus a ha).regular
  have hregular' : ∀ b ∈ vs, Regular b := fun b hb => (hvs b hb).regular
  rw [same, Bool.and_eq_true, beq_iff_eq]
  constructor
  · rintro ⟨hlength, hwithin⟩
    exact ⟨allWithin_iff.mp hwithin, exists_of_allWithin hregular hus hapart hvs hlength hwithin⟩
  · rintro ⟨hwithin, hback⟩
    have hback : ∀ b ∈ vs, ∃ a ∈ us, b.same a = true := fun b hb => by
      obtain ⟨a, ha, hab⟩ := hback b hb
      exact ⟨a, ha, (hregular a ha).symm (hvs b hb) hab⟩
    exact ⟨le_antisymm (length_le_of_cover hwithin (hapart.pairwise hregular hus hvs))
      (length_le_of_cover hback (hapart'.pairwise hregular' hvs hus)), allWithin_iff.mpr hwithin⟩

/-- Maps are equal if they have the same entries. -/
theorem same_map_iff {es fs : List (Value × Value)} (hu : Proper (.map es)) (hv : Proper (.map fs)) :
    (Value.map es).same (.map fs) = true ↔ (∀ e ∈ es, ∃ f ∈ fs, Matches e f) ∧ ∀ f ∈ fs, ∃ e ∈ es, Matches e f := by
  obtain ⟨hes, hvalues, hapart⟩ := proper_map.mp hu
  obtain ⟨hfs, hvalues', hapart'⟩ := proper_map.mp hv
  have hkeys : ∀ e ∈ es, Regular e.1 := fun e he => (hes e he).regular
  have hkeys' : ∀ f ∈ fs, Regular f.1 := fun f hf => (hfs f hf).regular
  rw [same, Bool.and_eq_true, beq_iff_eq]
  constructor
  · rintro ⟨hlength, hwithin⟩
    exact ⟨(allEntriesWithin_iff hkeys hfs hapart').mp hwithin,
      exists_of_allEntriesWithin hkeys hes hapart hfs hapart' hlength hwithin⟩
  · rintro ⟨hwithin, hback⟩
    have hback : ∀ f ∈ fs, ∃ e ∈ es, Matches f e := fun f hf => by
      obtain ⟨e, he, hef⟩ := hback f hf
      exact ⟨e, he, (hkeys e he).symm (hfs f hf) hef.1, (hvalues e he).regular.symm (hvalues' f hf) hef.2⟩
    exact ⟨le_antisymm (length_le_of_cover hwithin (hapart.pairwise_entries hkeys hes hfs))
      (length_le_of_cover hback (hapart'.pairwise_entries hkeys' hfs hes)),
      (allEntriesWithin_iff hkeys hfs hapart').mpr hwithin⟩

end Value

end Conform

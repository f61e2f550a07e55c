import Mathlib.Data.List.Find
import Conform.Proofs.Value.Fingerprint
import Conform.Proofs.Value.Order

/-! Spellings of a value. Values that are equal as data may still be spelled differently: a decimal with trailing zeros, an
    instant as another clock shows it, a set in another order. No comparison with them tells them apart, be it for order or
    for equality. The value that is compared with them may be any at all, so the keys of maps among them must be
    such that nothing is equal to them but what can be built. -/

namespace Conform

/-! ### Numbers -/

namespace Binary64

variable {x y : Binary64}

theorem eq_zero_of_isZero (h : x.isZero = true) : x = zero x.negative := by
  have hparts (a : Bool) : (zero a).negative = a ∧ (zero a).magnitudeBits = 0 := by
    cases a <;> decide
  exact eq_of_parts (hparts _).1.symm ((beq_iff_eq.mp h).trans (hparts _).2.symm)

theorem form_of_isZero (h : x.isZero = true) : x.form = .finite x.negative 0 (-1074) := by
  rw [eq_zero_of_isZero h]
  cases x.negative <;> decide +kernel

/-- What is divided by zero is no number, or is infinite. -/
theorem div_of_isZero (h : y.isZero = true) : x.div y = nan ∨ ∃ a, x.div y = infinity a := by
  rw [div, form_of_isZero h]
  cases x.form with
  | nan => exact .inl rfl
  | infinite a => exact .inr ⟨_, rfl⟩
  | finite a k e =>
    dsimp only
    rw [if_pos rfl]
    split
    · exact .inl rfl
    · exact .inr ⟨_, rfl⟩

/-- Zero that is divided is zero. -/
theorem exists_zero_div (hx : x.isZero = true) (hnan : y.isNaN = false) (hzero : y.isZero = false) : ∃ a, x.div y = zero a := by
  rw [div, form_of_isZero hx]
  cases hy : y.form with
  | nan => exact absurd (isNaN_iff.mpr hy) (Bool.eq_false_iff.mp hnan)
  | infinite b => exact ⟨_, rfl⟩
  | finite b k f =>
    have hk : k ≠ 0 := by
      rintro rfl
      refine Bool.eq_false_iff.mp hzero (isZero_iff_denoted.mpr ?_)
      simp [hy, Form.denoted]
    refine ⟨x.negative != b, ?_⟩
    dsimp only
    rw [if_neg hk, scaled, Nat.zero_mul, ofRatio, if_pos rfl]

theorem value_ofBinary64?_of_isZero (h : x.isZero = true) : (Decimal.ofBinary64? x).map Decimal.value = some 0 := by
  rw [eq_zero_of_isZero h]
  cases x.negative <;> decide +kernel

/-- Floats that are the same are one pattern, unless they are zero or no numbers. -/
theorem eq_or_of_same (h : x.same y = true) : x = y ∨ x.isZero = true ∧ y.isZero = true ∨ x.isNaN = true ∧ y.isNaN = true := by
  rw [same_iff] at h
  by_cases hnan : x.isNaN = true
  · exact .inr (.inr ⟨hnan, isNaN_iff_denoted.mpr (h ▸ isNaN_iff_denoted.mp hnan)⟩)
  by_cases hzero : x.isZero = true
  · exact .inr (.inl ⟨hzero, isZero_iff_denoted.mpr (h ▸ isZero_iff_denoted.mp hzero)⟩)
  · exact .inl (eq_of_denoted h (Bool.eq_false_iff.mpr hnan) (Bool.eq_false_iff.mpr hzero))

/-- Floats that are the same are written as decimals of one value, or as none. -/
theorem value_ofBinary64?_of_same (h : x.same y = true) :
    (Decimal.ofBinary64? x).map Decimal.value = (Decimal.ofBinary64? y).map Decimal.value := by
  obtain rfl | ⟨hx, hy⟩ | ⟨hx, hy⟩ := eq_or_of_same h
  · rfl
  · rw [value_ofBinary64?_of_isZero hx, value_ofBinary64?_of_isZero hy]
  · rw [isNaN_iff] at hx hy
    rw [ofBinary64?_eq_none (by simp [hx]), ofBinary64?_eq_none (by simp [hy])]

end Binary64

namespace Value

variable {u v w : Value}

/-! ### Order -/

theorem same_stored {u w : Value} (h : u.same w = true) : u.stored.same w.stored = true := by
  cases u with
  | member e m u =>
    obtain ⟨w, rfl, huw⟩ := member_same_iff.mp h
    rw [stored, stored]
    exact same_stored huw
  | _ => cases w <;> first | exact h | simp [same] at h

/-- Order to a number depends on the number alone. -/
theorem comparePlain?_congr (h : u.same w = true) (v : Value) : v.comparePlain? u = v.comparePlain? w := by
  unfold same at h
  split at h
  case h_4 x y =>
    have hdecimal (d : Decimal) : (Decimal.ofBinary64? x).map d.compare = (Decimal.ofBinary64? y).map d.compare := by
      have hvalue := congrArg (Option.map (compare d.value)) (Binary64.value_ofBinary64?_of_same h)
      simpa only [Option.map_map, Function.comp_def, ← compare_value] using hvalue
    have hfloat (z : Binary64) : z.compare? x = z.compare? y := by
      rw [Binary64.compare?_eq_written, Binary64.compare?_eq_written, Binary64.written?_of_same h]
    cases v with
    | decimal d => exact hdecimal d
    | bool | int | float => exact hfloat _
    | _ => rfl
  case h_5 d e =>
    rw [comparePlain?_to_decimal, comparePlain?_to_decimal]
    exact congrArg (v.toDecimal?.map ·) (funext fun a => by rw [compare_value, compare_value, Decimal.same_iff.mp h])
  case h_11 s t =>
    have hutc : s.utc = t.utc := of_decide_eq_true h
    cases v with
    | instant r => exact congrArg some (by rw [OffsetDateTime.compare, OffsetDateTime.compare, hutc])
    | _ => rfl
  case h_19 => cases h
  case h_1 => rfl
  case h_14 | h_15 | h_16 | h_17 | h_18 => cases v <;> rfl
  all_goals rw [beq_iff_eq.mp h]

theorem compare?_congr (h : u.same w = true) (v : Value) : v.compare? u = v.compare? w :=
  comparePlain?_congr (same_stored h) v.stored

/-! ### Equality -/

theorem same_of_kind_ne (h : u.kind ≠ w.kind) : u.same w = false := Bool.eq_false_iff.mpr fun huw => h (kind_of_same huw)

theorem sameItems_iff {us ws : List Value} : sameItems us ws = true ↔ List.Forall₂ (fun u w => u.same w = true) us ws := by
  induction us generalizing ws with
  | nil => cases ws <;> simp [sameItems]
  | cons u rest ih =>
    cases ws with
    | nil => simp [sameItems]
    | cons w more => rw [sameItems, Bool.and_eq_true, ih, List.forall₂_cons]

theorem allEntriesWithin_iff_find? {es fs : List (Value × Value)} : allEntriesWithin es fs = true ↔
    ∀ e ∈ es, ∃ f, fs.find? (fun f => e.1.same f.1) = some f ∧ e.2.same f.2 = true := by
  induction es with
  | nil => simp [allEntriesWithin]
  | cons e rest ih =>
    rw [allEntriesWithin, Bool.and_eq_true, ih, List.forall_mem_cons]
    refine and_congr_left fun _ => ?_
    cases fs.find? fun f => e.1.same f.1 <;> simp

/-- Values without a set or a map inside. -/
inductive Flat : Value → Prop
  | scalar {v : Value} (h : v.isScalar = true) : Flat v
  | list {items : List Value} (hitems : ∀ v ∈ items, Flat v) : Flat (.list items)
  | tuple {items : List Value} (hitems : ∀ v ∈ items, Flat v) : Flat (.tuple items)
  | member {enumeration name : String} {v : Value} (h : Flat v) : Flat (.member enumeration name v)

theorem Flat.proper (h : Flat u) : u.Proper := by
  induction h with
  | scalar h => exact .scalar h
  | list _ ih => exact .list ih
  | tuple _ ih => exact .tuple ih
  | member _ ih => exact .member ih

theorem flat_of_sameItems {us vs : List Value} (hflat : ∀ u ∈ us, ∀ {v}, v.same u = true ∨ u.same v = true → Flat v)
    (h : sameItems vs us = true ∨ sameItems us vs = true) : ∀ v ∈ vs, Flat v := by
  have hpairs : List.Forall₂ (fun u v => v.same u = true ∨ u.same v = true) us vs := by
    obtain h | h := h
    · exact (sameItems_iff.mp h).flip.imp fun _ _ h => .inl h
    · exact (sameItems_iff.mp h).imp fun _ _ h => .inr h
  clear h
  induction hpairs with
  | nil => exact List.forall_mem_nil _
  | cons h _ ih =>
    obtain ⟨hu, hmore⟩ := List.forall_mem_cons.mp hflat
    exact List.forall_mem_cons.mpr ⟨hu h, ih hmore⟩

/-- Only such values are equal to them. -/
theorem Flat.of_same (hu : Flat u) (h : v.same u = true ∨ u.same v = true) : Flat v := by
  have hkind {u v : Value} (h : v.same u = true ∨ u.same v = true) : v.kind = u.kind :=
    h.elim kind_of_same fun h => (kind_of_same h).symm
  induction hu generalizing v with
  | scalar hu => exact .scalar (by rwa [isScalar, hkind h])
  | list _ ih =>
    cases v with
    | list vs => exact .list (flat_of_sameItems ih (by simpa only [same] using h))
    | _ => cases hkind h
  | tuple _ ih =>
    cases v with
    | tuple vs => exact .tuple (flat_of_sameItems ih (by simpa only [same] using h))
    | _ => cases hkind h
  | member _ ih =>
    cases v with
    | member f n v =>
      simp only [same, Bool.and_eq_true] at h
      exact .member (ih (h.imp And.right And.right))
    | _ => cases hkind h

theorem Flat.same_congr (hu : Flat u) (hw : Flat w) (h : u.same w = true) (v : Value) : u.same v = w.same v := by
  by_cases hv : Flat v
  · exact (hu.proper.regular.congr hw.proper hv.proper h).symm
  · have hne (huv : u.same v = true) : False := hv (hu.of_same (.inr huv))
    have hne' (hwv : w.same v = true) : False := hv (hw.of_same (.inr hwv))
    rw [Bool.eq_false_iff.mpr hne, Bool.eq_false_iff.mpr hne']

/-- Values as they are built, with no set and no map inside a key of a map. -/
inductive Keyed : Value → Prop
  | scalar {v : Value} (h : v.isScalar = true) : Keyed v
  | list {items : List Value} (hitems : ∀ v ∈ items, Keyed v) : Keyed (.list items)
  | tuple {items : List Value} (hitems : ∀ v ∈ items, Keyed v) : Keyed (.tuple items)
  | set {items : List Value} (hitems : ∀ v ∈ items, Keyed v) (hapart : Apart items) : Keyed (.set items)
  | map {entries : List (Value × Value)} (hkeys : ∀ e ∈ entries, Flat e.1) (hvalues : ∀ e ∈ entries, Keyed e.2)
      (hapart : Apart (entries.map Prod.fst)) : Keyed (.map entries)
  | member {enumeration name : String} {v : Value} (h : Keyed v) : Keyed (.member enumeration name v)

theorem Keyed.proper (h : Keyed u) : u.Proper := by
  induction h with
  | scalar h => exact .scalar h
  | list _ ih => exact .list ih
  | tuple _ ih => exact .tuple ih
  | set _ hapart ih => exact .set ih hapart
  | map hkeys _ hapart ih => exact .map (fun e he => (hkeys e he).proper) ih hapart
  | member _ ih => exact .member ih

/-- What is equal to the value is equal to what the value is equal to, well built or not. -/
def Passes (u : Value) : Prop := ∀ {v w : Value}, v.same u = true → u.same w = true → v.same w = true

theorem sameItems_trans {us vs ws : List Value} (h : ∀ u ∈ us, Passes u) (hvu : sameItems vs us = true)
    (huw : sameItems us ws = true) : sameItems vs ws = true := by
  rw [sameItems_iff] at hvu huw ⊢
  induction hvu generalizing ws with
  | nil => exact huw
  | cons hvu _ ih =>
    obtain ⟨hu, hrest⟩ := List.forall_mem_cons.mp h
    cases huw with
    | cons huw hmore => exact .cons (hu hvu huw) (ih hrest hmore)

theorem allWithin_trans {us vs ws : List Value} (h : ∀ u ∈ us, Passes u) (hvu : allWithin vs us = true)
    (huw : allWithin us ws = true) : allWithin vs ws = true := by
  rw [allWithin_iff] at hvu huw ⊢
  intro v hv
  obtain ⟨u, hu, hvu⟩ := hvu v hv
  obtain ⟨w, hw, huw⟩ := huw u hu
  exact ⟨w, hw, h u hu hvu huw⟩

theorem allEntriesWithin_trans {es fs gs : List (Value × Value)} (hkeys : ∀ f ∈ fs, Flat f.1) (hvalues : ∀ f ∈ fs, Passes f.2)
    (hef : allEntriesWithin es fs = true) (hfg : allEntriesWithin fs gs = true) : allEntriesWithin es gs = true := by
  rw [allEntriesWithin_iff_find?] at hef hfg ⊢
  intro e he
  obtain ⟨f, hfind, hef⟩ := hef e he
  have hf := List.mem_of_find?_eq_some hfind
  have hkey : e.1.same f.1 = true := List.find?_some (p := fun f : Value × Value => e.1.same f.1) hfind
  obtain ⟨g, hfound, hfg⟩ := hfg f hf
  -- A key equal to one without sets and maps has none itself, so both find the same entry.
  have hflat : Flat e.1 := (hkeys f hf).of_same (.inl hkey)
  refine ⟨g, ?_, hvalues f hf hef hfg⟩
  rw [← hfound]
  exact List.find?_congr fun g _ => hflat.same_congr (hkeys f hf) hkey g.1

/-- Equality passes on through values whose maps have no sets and no maps among their keys. -/
theorem Keyed.passes (hu : Keyed u) : Passes u := by
  induction hu with
  | scalar hu =>
    intro v w hvu huw
    have hv : v.Proper := .scalar (by rwa [isScalar, kind_of_same hvu])
    have hw : w.Proper := .scalar (by rwa [isScalar, ← kind_of_same huw])
    exact (hv.regular.congr (.scalar hu) hw hvu).symm.trans huw
  | list _ ih =>
    intro v w hvu huw
    obtain ⟨ws, rfl, hws⟩ := list_same_iff.mp huw
    cases v with
    | list vs =>
      rw [same] at hvu ⊢
      exact sameItems_trans ih hvu hws
    | _ => simp [same] at hvu
  | tuple _ ih =>
    intro v w hvu huw
    obtain ⟨ws, rfl, hws⟩ := tuple_same_iff.mp huw
    cases v with
    | tuple vs =>
      rw [same] at hvu ⊢
      exact sameItems_trans ih hvu hws
    | _ => simp [same] at hvu
  | set _ _ ih =>
    intro v w hvu huw
    obtain ⟨ws, rfl, hlength, hws⟩ := set_same_iff.mp huw
    cases v with
    | set vs =>
      rw [same, Bool.and_eq_true, beq_iff_eq] at hvu ⊢
      exact ⟨hvu.1.trans hlength, allWithin_trans ih hvu.2 hws⟩
    | _ => simp [same] at hvu
  | map hkeys _ _ ih =>
    intro v w hvu huw
    obtain ⟨gs, rfl, hlength, hgs⟩ := map_same_iff.mp huw
    cases v with
    | map es =>
      rw [same, Bool.and_eq_true, beq_iff_eq] at hvu ⊢
      exact ⟨hvu.1.trans hlength, allEntriesWithin_trans hkeys ih hvu.2 hgs⟩
    | _ => simp [same] at hvu
  | member _ ih =>
    intro v w hvu huw
    obtain ⟨w, rfl, hw⟩ := member_same_iff.mp huw
    cases v with
    | member f n v =>
      simp only [same, Bool.and_eq_true] at hvu ⊢
      exact ⟨hvu.1, ih hvu.2 hw⟩
    | _ => simp [same] at hvu

/-! ### Spellings -/

/-- Two equal values that may be spelled differently. -/
structure Respelled (u w : Value) : Prop where
  keyed : u.Keyed
  keyed' : w.Keyed
  same : u.same w = true

namespace Respelled

theorem symm (h : u.Respelled w) : w.Respelled u :=
  ⟨h.keyed', h.keyed, h.keyed.proper.regular.symm h.keyed'.proper h.same⟩

/-- What is equal to one of the two is equal to the other. -/
theorem same_right (h : u.Respelled w) (v : Value) : v.same u = v.same w := by
  rw [Bool.eq_iff_iff]
  exact ⟨fun hvu => h.keyed.passes hvu h.same, fun hvw => h.keyed'.passes hvw h.symm.same⟩

theorem same_left (h : u.Respelled w) (v : Value) : u.same v = w.same v := by
  rw [Bool.eq_iff_iff]
  exact ⟨fun huv => h.keyed.passes h.symm.same huv, fun hwv => h.keyed'.passes h.same hwv⟩

end Respelled

/-- Values that are the same but for the spelling of what they are made of. -/
inductive Agrees : Value → Value → Prop
  | refl (v : Value) : Agrees v v
  | respelled {u w : Value} (h : u.Respelled w) : Agrees u w
  | list {us ws : List Value} (hlength : us.length = ws.length) (hitems : ∀ p ∈ us.zip ws, Agrees p.1 p.2) :
      Agrees (.list us) (.list ws)
  | tuple {us ws : List Value} (hlength : us.length = ws.length) (hitems : ∀ p ∈ us.zip ws, Agrees p.1 p.2) :
      Agrees (.tuple us) (.tuple ws)
  | set {us ws : List Value} (hlength : us.length = ws.length) (hitems : ∀ p ∈ us.zip ws, Agrees p.1 p.2) :
      Agrees (.set us) (.set ws)
  | map {es fs : List (Value × Value)} (hlength : es.length = fs.length) (hkeys : ∀ p ∈ es.zip fs, Agrees p.1.1 p.2.1)
      (hvalues : ∀ p ∈ es.zip fs, Agrees p.1.2 p.2.2) : Agrees (.map es) (.map fs)

variable {v' w' : Value}

theorem Agrees.kind_eq (h : v.Agrees w) : v.kind = w.kind := by
  cases h with
  | respelled h => exact kind_of_same h.same
  | _ => rfl

/-! ### Comparisons with spellings -/

theorem rel_self {S : Value → Value → Prop} (hS : ∀ v, S v v) (x : Option Value) : Option.Rel S x x := by
  cases x with
  | none => exact .none
  | some v => exact .some (hS v)

theorem forall₂_of_zip {α β : Type} {R : α → β → Prop} {as : List α} {bs : List β} (hlength : as.length = bs.length)
    (h : ∀ p ∈ as.zip bs, R p.1 p.2) : List.Forall₂ R as bs :=
  List.forall₂_iff_zip.mpr ⟨hlength, fun hp => h _ hp⟩

theorem any_congr {p q : Value → Bool} {vs ws : List Value} (h : List.Forall₂ (fun v w => p v = q w) vs ws) :
    vs.any p = ws.any q := by
  induction h with
  | nil => rfl
  | cons h _ ih => rw [List.any_cons, List.any_cons, h, ih]

section Items

variable {R S : Value → Value → Prop} (hRS : ∀ {u u' v v' : Value}, R u u' → S v v' → u.same v = u'.same v')

include hRS

theorem sameItems_of_related {us us' vs vs' : List Value} (hus : List.Forall₂ R us us') (hvs : List.Forall₂ S vs vs') :
    sameItems us vs = sameItems us' vs' := by
  induction hus generalizing vs vs' with
  | nil => cases hvs <;> simp only [sameItems]
  | cons hu _ ih =>
    cases hvs with
    | nil => simp only [sameItems]
    | cons hv hrest => rw [sameItems, sameItems, hRS hu hv, ih hrest]

theorem allWithin_of_related {us us' vs vs' : List Value} (hus : List.Forall₂ R us us') (hvs : List.Forall₂ S vs vs') :
    allWithin us vs = allWithin us' vs' := by
  induction hus with
  | nil => simp only [allWithin]
  | cons hu _ ih => rw [allWithin, allWithin, any_congr (hvs.imp fun _ _ hv => hRS hu hv), ih]

theorem find?_of_related {k k' : Value} (hk : R k k') {es fs : List (Value × Value)}
    (h : List.Forall₂ (fun e f => S e.1 f.1 ∧ S e.2 f.2) es fs) :
    Option.Rel (fun e f => S e.2 f.2) (es.find? fun e => k.same e.1) (fs.find? fun f => k'.same f.1) := by
  induction h with
  | nil => exact .none
  | cons hef _ ih =>
    rw [List.find?_cons, List.find?_cons, hRS hk hef.1]
    split
    · exact .some hef.2
    · exact ih

theorem allEntriesWithin_of_related {es es' fs fs' : List (Value × Value)}
    (hes : List.Forall₂ (fun e f => R e.1 f.1 ∧ R e.2 f.2) es es') (hfs : List.Forall₂ (fun e f => S e.1 f.1 ∧ S e.2 f.2) fs fs') :
    allEntriesWithin es fs = allEntriesWithin es' fs' := by
  induction hes with
  | nil => simp only [allEntriesWithin]
  | @cons e e' _ _ he _ ih =>
    have hfind := find?_of_related hRS he.1 hfs
    rw [allEntriesWithin, allEntriesWithin, ih]
    generalize fs.find? (fun f => e.1.same f.1) = x at hfind ⊢
    generalize fs'.find? (fun f => e'.1.same f.1) = y at hfind ⊢
    cases hfind with
    | none => rfl
    | some hf => simp only [hRS he.2 hf]

end Items

/-- What is the same as one of two values that agree is the same as the other. -/
theorem Agrees.same_right (h : v.Agrees w) (u : Value) : u.same v = u.same w := by
  have hitem {u u' v w : Value} (hu : u = u') (hv : ∀ u : Value, u.same v = u.same w) : u.same v = u'.same w := hu ▸ hv u
  induction h generalizing u with
  | refl => rfl
  | respelled h => exact h.same_right u
  | list hlength _ ih =>
    cases u with
    | list us =>
      rw [same, same]
      exact sameItems_of_related hitem (List.forall₂_refl us) (forall₂_of_zip hlength ih)
    | _ => exact (same_of_kind_ne (by nofun)).trans (same_of_kind_ne (by nofun)).symm
  | tuple hlength _ ih =>
    cases u with
    | tuple us =>
      rw [same, same]
      exact sameItems_of_related hitem (List.forall₂_refl us) (forall₂_of_zip hlength ih)
    | _ => exact (same_of_kind_ne (by nofun)).trans (same_of_kind_ne (by nofun)).symm
  | set hlength _ ih =>
    cases u with
    | set us => rw [same, same, hlength, allWithin_of_related hitem (List.forall₂_refl us) (forall₂_of_zip hlength ih)]
    | _ => exact (same_of_kind_ne (by nofun)).trans (same_of_kind_ne (by nofun)).symm
  | map hlength _ _ ihkeys ihvalues =>
    cases u with
    | map gs =>
      rw [same, same, hlength, allEntriesWithin_of_related hitem (List.forall₂_same.mpr fun _ _ => ⟨rfl, rfl⟩)
        (forall₂_of_zip hlength fun p hp => ⟨ihkeys p hp, ihvalues p hp⟩)]
    | _ => exact (same_of_kind_ne (by nofun)).trans (same_of_kind_ne (by nofun)).symm

theorem Agrees.same_left (h : v.Agrees w) (u : Value) : v.same u = w.same u := by
  have hitem {v w u u' : Value} (hv : ∀ u : Value, v.same u = w.same u) (hu : u = u') : v.same u = w.same u' := hu ▸ hv u
  induction h generalizing u with
  | refl => rfl
  | respelled h => exact h.same_left u
  | list hlength _ ih =>
    cases u with
    | list us =>
      rw [same, same]
      exact sameItems_of_related hitem (forall₂_of_zip hlength ih) (List.forall₂_refl us)
    | _ => exact (same_of_kind_ne (by nofun)).trans (same_of_kind_ne (by nofun)).symm
  | tuple hlength _ ih =>
    cases u with
    | tuple us =>
      rw [same, same]
      exact sameItems_of_related hitem (forall₂_of_zip hlength ih) (List.forall₂_refl us)
    | _ => exact (same_of_kind_ne (by nofun)).trans (same_of_kind_ne (by nofun)).symm
  | set hlength _ ih =>
    cases u with
    | set us => rw [same, same, hlength, allWithin_of_related hitem (forall₂_of_zip hlength ih) (List.forall₂_refl us)]
    | _ => exact (same_of_kind_ne (by nofun)).trans (same_of_kind_ne (by nofun)).symm
  | map hlength _ _ ihkeys ihvalues =>
    cases u with
    | map gs =>
      rw [same, same, hlength, allEntriesWithin_of_related hitem
        (forall₂_of_zip hlength fun p hp => ⟨ihkeys p hp, ihvalues p hp⟩) (List.forall₂_same.mpr fun _ _ => ⟨rfl, rfl⟩)]
    | _ => exact (same_of_kind_ne (by nofun)).trans (same_of_kind_ne (by nofun)).symm

theorem Agrees.same_congr (hv : v.Agrees v') (hw : w.Agrees w') : v.same w = v'.same w' :=
  (hv.same_left w).trans (hw.same_right v')

/-- Such values are equal as data where they are well built. -/
theorem Agrees.same (h : v.Agrees w) (hv : v.Proper) : v.same w = true := (h.same_right v).symm.trans hv.regular.refl

theorem Agrees.compare?_right (h : v.Agrees w) (u : Value) : u.compare? v = u.compare? w := by
  cases h with
  | refl => rfl
  | respelled h => exact compare?_congr h.same u
  | list | tuple | set | map =>
    rw [Value.compare?, Value.compare?]
    cases u.stored <;> rfl

theorem Agrees.compare? (hv : v.Agrees v') (hw : w.Agrees w') : v.compare? w = v'.compare? w' := by
  rw [hw.compare?_right v, compare?_swap w' v, compare?_swap w' v', hv.compare?_right w']

theorem Agrees.equivalent (hv : v.Agrees v') (hw : w.Agrees w') : v.equivalent w = v'.equivalent w' := by
  rw [Value.equivalent, Value.equivalent, hv.same_congr hw, hv.kind_eq, hw.kind_eq, hv.compare? hw]

/-! ### What agrees in its parts -/

theorem keyed_list {items : List Value} : Keyed (.list items) ↔ ∀ v ∈ items, Keyed v := by
  refine ⟨fun h => ?_, .list⟩
  cases h with
  | list hitems => exact hitems
  | scalar h => cases h

theorem keyed_tuple {items : List Value} : Keyed (.tuple items) ↔ ∀ v ∈ items, Keyed v := by
  refine ⟨fun h => ?_, .tuple⟩
  cases h with
  | tuple hitems => exact hitems
  | scalar h => cases h

variable {us ws : List Value}

theorem agree_refl (us : List Value) : List.Forall₂ Agrees us us := List.forall₂_same.mpr fun u _ => .refl u

theorem agree_of_sameItems (hus : ∀ u ∈ us, Keyed u) (hws : ∀ w ∈ ws, Keyed w) (h : sameItems us ws = true) :
    List.Forall₂ Agrees us ws := by
  have hsame := sameItems_iff.mp h
  refine List.forall₂_iff_zip.mpr ⟨hsame.length_eq, fun hp => ?_⟩
  obtain ⟨hu, hw⟩ := List.of_mem_zip hp
  exact .respelled ⟨hus _ hu, hws _ hw, List.forall₂_zip hsame hp⟩

theorem Agrees.items (h : (Value.list us).Agrees w) : ∃ ws, w = .list ws ∧ List.Forall₂ Agrees us ws := by
  cases h with
  | refl => exact ⟨us, rfl, agree_refl us⟩
  | list hlength hitems => exact ⟨_, rfl, forall₂_of_zip hlength hitems⟩
  | respelled h =>
    have hkind := kind_of_same h.same
    cases w with
    | list ws =>
      have hsame := h.same
      rw [Value.same] at hsame
      exact ⟨ws, rfl, agree_of_sameItems (keyed_list.mp h.keyed) (keyed_list.mp h.keyed') hsame⟩
    | _ => cases hkind

theorem Agrees.positions (h : (Value.tuple us).Agrees w) : ∃ ws, w = .tuple ws ∧ List.Forall₂ Agrees us ws := by
  cases h with
  | refl => exact ⟨us, rfl, agree_refl us⟩
  | tuple hlength hitems => exact ⟨_, rfl, forall₂_of_zip hlength hitems⟩
  | respelled h =>
    have hkind := kind_of_same h.same
    cases w with
    | tuple ws =>
      have hsame := h.same
      rw [Value.same] at hsame
      exact ⟨ws, rfl, agree_of_sameItems (keyed_tuple.mp h.keyed) (keyed_tuple.mp h.keyed') hsame⟩
    | _ => cases hkind

/-- Texts and bytes have one spelling. -/
theorem Agrees.eq_of_isText (h : v.Agrees w) (hv : v.kind.isText = true) : v = w := by
  cases h with
  | refl => rfl
  | respelled h =>
    have hsame := h.same
    unfold Value.same at hsame
    split at hsame
    case h_6 | h_7 => rw [beq_iff_eq.mp hsame]
    case h_19 => cases hsame
    all_goals cases hv
  | list | tuple | set | map => cases hv

theorem Agrees.size?_eq (h : v.Agrees w) : v.size? = w.size? := by
  cases h with
  | refl => rfl
  | respelled h =>
    have hsame := h.same
    unfold Value.same at hsame
    split at hsame
    case h_6 | h_7 => rw [beq_iff_eq.mp hsame]
    case h_14 | h_15 => exact congrArg some (sameItems_iff.mp hsame).length_eq
    case h_16 | h_17 => exact congrArg some (beq_iff_eq.mp (Bool.and_eq_true_iff.mp hsame).1)
    case h_19 => cases hsame
    all_goals rfl
  | list hlength | tuple hlength | set hlength | map hlength => exact congrArg some hlength

theorem Agrees.value_toDecimal? (h : v.Agrees w) : v.toDecimal?.map Decimal.value = w.toDecimal?.map Decimal.value := by
  cases h with
  | refl => rfl
  | respelled h =>
    have hsame := h.same
    unfold Value.same at hsame
    split at hsame
    case h_2 | h_3 => rw [beq_iff_eq.mp hsame]
    case h_4 => exact Binary64.value_ofBinary64?_of_same hsame
    case h_5 => exact congrArg some (Decimal.same_iff.mp hsame)
    case h_19 => cases hsame
    all_goals rfl
  | list | tuple | set | map => rfl

/-- Values that agree are numbers alike, or none is one. -/
theorem Agrees.rel_toDecimal? (h : v.Agrees w) : Option.Rel (fun d e => d.value = e.value) v.toDecimal? w.toDecimal? := by
  have hvalue := h.value_toDecimal?
  generalize v.toDecimal? = x at hvalue ⊢
  generalize w.toDecimal? = y at hvalue ⊢
  cases x with
  | none =>
    cases y with
    | none => exact .none
    | some e => cases hvalue
  | some d =>
    cases y with
    | none => cases hvalue
    | some e => exact .some (Option.some.inj hvalue)

/-- Whether a value is one of some depends on no spelling. -/
theorem Agrees.any_equivalent (hv : v.Agrees v') (h : List.Forall₂ Agrees us ws) : us.any v.equivalent = ws.any v'.equivalent :=
  any_congr (h.imp fun _ _ huw => hv.equivalent huw)

theorem Agrees.isAmong (hv : v.Agrees v') (h : List.Forall₂ Agrees us ws) : v.isAmong us = v'.isAmong ws :=
  any_congr (h.imp fun _ _ huw => hv.same_congr huw)

theorem allDistinct_of_agree (h : List.Forall₂ Agrees us ws) : allDistinct us = allDistinct ws := by
  induction h with
  | nil => rfl
  | cons hv h ih => rw [allDistinct, allDistinct, hv.isAmong h, ih]

theorem agree_insertItem (h : List.Forall₂ Agrees us ws) (hv : v.Agrees v') :
    List.Forall₂ Agrees (insertItem us v) (insertItem ws v') := by
  rw [insertItem, insertItem, hv.isAmong h]
  split
  · exact h
  · exact List.rel_append h (.cons hv .nil)

/-- Repetitions are found alike. -/
theorem agree_distinct (h : List.Forall₂ Agrees us ws) : List.Forall₂ Agrees (distinct us) (distinct ws) :=
  List.rel_foldl (P := List.Forall₂ Agrees) (R := Agrees) (fun _ _ hkept _ _ hv => agree_insertItem hkept hv) .nil h

theorem forall₂_insertEntry {S : Value → Value → Prop} (hS : ∀ v w, S v w → v.Agrees w) {es fs : List (Value × Value)}
    (h : List.Forall₂ (fun e f => S e.1 f.1 ∧ S e.2 f.2) es fs) (hv : S v v') (hw : S w w') :
    List.Forall₂ (fun e f => S e.1 f.1 ∧ S e.2 f.2) (insertEntry v w es) (insertEntry v' w' fs) := by
  induction h with
  | nil => exact .cons ⟨hv, hw⟩ .nil
  | @cons e f _ _ hef hrest ih =>
    rw [insertEntry, insertEntry, (hS _ _ hv).same_congr (hS _ _ hef.1)]
    split
    · exact .cons ⟨hef.1, hw⟩ hrest
    · exact .cons hef ih

end Value

end Conform

import Conform.Proofs.Value.Equality
import Conform.Value.Fingerprint

/-! Values that are equal as data have one fingerprint. A number has one form among those that denote it: of floats the
    pattern itself, zeros and what is no number apart, and of decimals the one without trailing zeros. A set or a map
    shows its size only, which equal ones share in whatever order. -/

namespace Conform

/-! ### Floats -/

namespace Binary64

variable {x y : Binary64}

theorem isNaN_iff_denoted : x.isNaN = true ↔ x.form.denoted = none := by
  rw [isNaN_iff]
  cases x.form <;> simp [Form.denoted]

theorem isZero_iff_denoted : x.isZero = true ↔ x.form.denoted = some (.inr 0) := by
  have hpower : twoTo 52 = 4503599627370496 := rfl
  have hinfinity : infinityBits = 9218868437227405312 := rfl
  rw [isZero, beq_iff_eq]
  cases hx : x.form with
  | nan =>
    have hnan : x.isNaN = true := isNaN_iff.mpr hx
    rw [isNaN, decide_eq_true_eq, hinfinity] at hnan
    exact iff_of_false (by omega) (by simp [Form.denoted])
  | infinite a =>
    obtain ⟨-, hbits⟩ := parts_of_infinite hx
    exact iff_of_false (by omega) (by simp [Form.denoted])
  | finite a m e =>
    obtain ⟨hcanonical, -, hbits⟩ := parts_of_form hx
    obtain ⟨-, hleast, hfull⟩ := canonical_iff.mp hcanonical
    have hzero : x.magnitudeBits = 0 ↔ m = 0 := by omega
    have hunit : Decimal.unit a ≠ 0 := by cases a <;> norm_num [Decimal.unit]
    have hpos : (2 : ℚ) ^ e ≠ 0 := zpow_ne_zero e two_ne_zero
    simp [hzero, Form.denoted, hunit, hpos]

/-- Floats that denote the same, be it an infinity or a number other than zero, are one pattern. -/
theorem eq_of_denoted (h : x.form.denoted = y.form.denoted) (hnan : x.isNaN = false) (hzero : x.isZero = false) :
    x = y := by
  have hnumber : x.form.denoted ≠ none := fun hnone => by simp [isNaN_iff_denoted.mpr hnone] at hnan
  have hne : x.form.denoted ≠ some (.inr 0) := fun heq => by simp [isZero_iff_denoted.mpr heq] at hzero
  cases hx : x.form with
  | nan => exact absurd (congrArg Form.denoted hx) hnumber
  | infinite a =>
    cases hy : y.form with
    | infinite b =>
      obtain ⟨hxsign, hxbits⟩ := parts_of_infinite hx
      obtain ⟨hysign, hybits⟩ := parts_of_infinite hy
      have hsign : a = b := by simpa [hx, hy, Form.denoted] using h
      exact eq_of_parts (hxsign.trans (hsign.trans hysign.symm)) (hxbits.trans hybits.symm)
    | nan | finite => simp [hx, hy, Form.denoted] at h
  | finite a m e =>
    cases hy : y.form with
    | nan | infinite => simp [hx, hy, Form.denoted] at h
    | finite b n f =>
      obtain ⟨hm, hxsign, hxbits⟩ := parts_of_form hx
      obtain ⟨hn, hysign, hybits⟩ := parts_of_form hy
      simp only [hx, hy, Form.denoted, Option.some.injEq, Sum.inr.injEq, mul_assoc, ne_eq] at h hne
      have hmpos : (0 : ℚ) < m * 2 ^ e := lt_of_le_of_ne (by positivity) fun heq => hne (by rw [← heq, mul_zero])
      have hnpos : (0 : ℚ) < n * 2 ^ f := lt_of_le_of_ne (by positivity) fun heq => hne (by rw [h, ← heq, mul_zero])
      obtain ⟨hsign, hsize⟩ := Decimal.eq_of_unit_mul hmpos hnpos h
      obtain ⟨rfl, rfl⟩ := hm.eq_of_value hn hsize
      exact eq_of_parts (hxsign.trans (hsign.trans hysign.symm)) (by omega)

/-- Floats that are the same have one representative. -/
theorem representative_eq_of_same (h : x.same y = true) : x.representative = y.representative := by
  rw [same_iff] at h
  have hnan : x.isNaN = y.isNaN := by rw [Bool.eq_iff_iff, isNaN_iff_denoted, isNaN_iff_denoted, h]
  have hzero : x.isZero = y.isZero := by rw [Bool.eq_iff_iff, isZero_iff_denoted, isZero_iff_denoted, h]
  rw [representative, representative, ← hzero, ← hnan]
  split_ifs with hxzero hxnan
  · rfl
  · rfl
  · exact eq_of_denoted h (Bool.eq_false_iff.mpr hxnan) (Bool.eq_false_iff.mpr hxzero)

end Binary64

/-! ### Values -/

namespace Value

mutual

/-- Values that are equal as data have one fingerprint, well built or not. -/
theorem fingerprint_eq_of_same {u v : Value} (h : u.same v = true) : u.fingerprint = v.fingerprint := by
  cases u with
  | float x =>
    obtain ⟨y, rfl, hdenoted⟩ := float_same_iff.mp h
    rw [fingerprint, fingerprint, Binary64.representative_eq_of_same (Binary64.same_iff.mpr hdenoted)]
  | decimal d =>
    obtain ⟨e, rfl, hvalue⟩ := decimal_same_iff.mp h
    rw [fingerprint, fingerprint, Decimal.normalized_eq_of_value hvalue]
  | instant s =>
    obtain ⟨t, rfl, hutc⟩ := instant_same_iff.mp h
    rw [fingerprint, fingerprint, hutc]
  | list us =>
    obtain ⟨vs, rfl, hitems⟩ := list_same_iff.mp h
    obtain ⟨hlength, hmarks⟩ := fingerprints_eq_of_sameItems hitems
    rw [fingerprint, fingerprint, hlength, hmarks]
  | tuple us =>
    obtain ⟨vs, rfl, hitems⟩ := tuple_same_iff.mp h
    obtain ⟨hlength, hmarks⟩ := fingerprints_eq_of_sameItems hitems
    rw [fingerprint, fingerprint, hlength, hmarks]
  | set us =>
    obtain ⟨vs, rfl, hlength, -⟩ := set_same_iff.mp h
    rw [fingerprint, fingerprint, hlength]
  | map es =>
    obtain ⟨fs, rfl, hlength, -⟩ := map_same_iff.mp h
    rw [fingerprint, fingerprint, hlength]
  | member enumeration name u =>
    obtain ⟨v, rfl, huv⟩ := member_same_iff.mp h
    rw [fingerprint, fingerprint, fingerprint_eq_of_same huv]
  | _ => cases v <;> simp_all [same, fingerprint]

theorem fingerprints_eq_of_sameItems {us vs : List Value} (h : sameItems us vs = true) :
    us.length = vs.length ∧ fingerprints us = fingerprints vs := by
  cases us with
  | nil => cases vs <;> simp_all [sameItems]
  | cons u us =>
    cases vs with
    | nil => simp [sameItems] at h
    | cons v vs =>
      rw [sameItems, Bool.and_eq_true] at h
      obtain ⟨hlength, hmarks⟩ := fingerprints_eq_of_sameItems h.2
      rw [fingerprints, fingerprints, fingerprint_eq_of_same h.1, hmarks, List.length_cons, List.length_cons, hlength]
      exact ⟨rfl, rfl⟩

end

variable {u v w : Value}

/-- Equality as data is an equivalence of the values that can be built, and equal ones have one fingerprint. It keeps kinds
    apart, and what it says of sets and maps is that they have the same members and the same entries. -/
theorem same_equivalence (hu : u.Proper) (hv : v.Proper) (hw : w.Proper) :
    u.same u = true ∧ (u.same v = true → v.same u = true) ∧
      (u.same v = true → v.same w = true → u.same w = true) ∧
        (u.same v = true → u.fingerprint = v.fingerprint ∧ u.kind = v.kind) ∧
      (∀ us vs, u = .set us → v = .set vs → (u.same v = true ↔
        (∀ a ∈ us, ∃ b ∈ vs, a.same b = true) ∧ ∀ b ∈ vs, ∃ a ∈ us, a.same b = true)) ∧
      ∀ es fs, u = .map es → v = .map fs → (u.same v = true ↔
        (∀ e ∈ es, ∃ f ∈ fs, Matches e f) ∧ ∀ f ∈ fs, ∃ e ∈ es, Matches e f) := by
  refine ⟨hu.regular.refl, hu.regular.symm hv, fun huv hvw => (hu.regular.congr hv hw huv).symm.trans hvw,
    fun huv => ⟨fingerprint_eq_of_same huv, kind_of_same huv⟩, ?_, ?_⟩
  · rintro us vs rfl rfl
    exact same_set_iff hu hv
  · rintro es fs rfl rfl
    exact same_map_iff hu hv

/-- Two maps in different order, with what is no number in two patterns, two zeros, a set of two with a number that has a
    trailing zero or not, and an instant as two clocks show it; and the first of them once more. -/
theorem same_equivalence_of_mixed :
    let clock : DateTime := ⟨⟨19790, by decide, by decide⟩, ⟨36000, 0, by decide, by decide⟩⟩
    let marks : List Value := [.decimal ⟨false, 150, 2, by decide, by decide⟩, .int 1]
    let marks' : List Value := [.int 1, .decimal ⟨false, 15, 1, by decide, by decide⟩]
    let es : List (Value × Value) := [(.str "readings", .list [.float .nan, .float (.zero true)]),
      (.set marks, .instant ⟨clock, 7200, by decide⟩)]
    let fs : List (Value × Value) := [(.set marks', .instant ⟨clock, 0, by decide⟩),
      (.str "readings", .list [.float (Binary64.neg .nan), .float (.zero false)])]
    (Proper (.map es) ∧ Proper (.map fs)) ∧
      (Value.map es).same (.map fs) = true ∧ (Value.map fs).same (.map es) = true ∧ (Value.map es).same (.map es) = true ∧
      (Value.map es).fingerprint = (Value.map fs).fingerprint ∧
      (Value.set marks).same (.set marks') = true ∧ ∀ f ∈ fs, ∃ e ∈ es, Matches e f := by
  intro clock marks marks' es fs
  have hpair {α : Type} {p : α → Prop} {a b : α} (ha : p a) (hb : p b) : ∀ c ∈ [a, b], p c :=
    List.forall_mem_cons.mpr ⟨ha, List.forall_mem_singleton.mpr hb⟩
  have hmarks : Proper (.set marks) := .set (hpair (.scalar rfl) (.scalar rfl)) (List.pairwise_pair.mpr (by simp [same]))
  have hmarks' : Proper (.set marks') := .set (hpair (.scalar rfl) (.scalar rfl)) (List.pairwise_pair.mpr (by simp [same]))
  have hes : Proper (.map es) := .map (hpair (.scalar rfl) hmarks) (hpair (.list (hpair (.scalar rfl) (.scalar rfl))) (.scalar rfl))
    (List.pairwise_pair.mpr (by simp [same]))
  have hfs : Proper (.map fs) := .map (hpair hmarks' (.scalar rfl)) (hpair (.scalar rfl) (.list (hpair (.scalar rfl) (.scalar rfl))))
    (List.pairwise_pair.mpr (by simp [same]))
  obtain ⟨-, hsymm, htrans, hkept, -, hmaps⟩ := same_equivalence hes hfs hes
  obtain ⟨-, -, -, -, hsets, -⟩ := same_equivalence hmarks hmarks' hmarks
  have hsame : (Value.map es).same (.map fs) = true := by decide +kernel
  refine ⟨⟨hes, hfs⟩, hsame, hsymm hsame, htrans hsame (hsymm hsame), (hkept hsame).1, ?_, ((hmaps _ _ rfl rfl).mp hsame).2⟩
  exact (hsets _ _ rfl rfl).mpr (by decide +kernel)

end Value

end Conform

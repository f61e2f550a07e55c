import Conform.Text.Ranges

/-! The members of a set that is given by ranges. The canonical form of a list of ranges has the same members, and its
    gaps are the members of the complement, as long as no range ends before it begins. -/

namespace Conform.Text.Ranges

variable {ranges r s : Ranges} {first last next n : Nat} {c : Char}

/-- A code point lies in one of the ranges. -/
def Covers (ranges : Ranges) (n : Nat) : Prop := ∃ r ∈ ranges, r.1 ≤ n ∧ n ≤ r.2

/-- No range ends before it begins. -/
def Proper (ranges : Ranges) : Prop := ∀ r ∈ ranges, r.1 ≤ r.2

/-- The ranges come in the order in which they begin. -/
def Ascending (ranges : Ranges) : Prop := ranges.Pairwise fun r s => r.1 ≤ s.1

/-- Each range ends before the next one begins. -/
def Parted (ranges : Ranges) : Prop := ranges.Pairwise fun r s => r.2 < s.1

theorem contains_iff : ranges.contains c = true ↔ Covers ranges c.toNat := by simp [contains, Covers]

theorem covers_cons : Covers ((first, last) :: ranges) n ↔ (first ≤ n ∧ n ≤ last) ∨ Covers ranges n := by simp [Covers]

/-- Nothing is covered before the first range begins. -/
theorem not_covers_of_lt (h : ∀ r ∈ ranges, n < r.1) : ¬Covers ranges n := by
  rintro ⟨r, hr, hle, -⟩
  exact absurd (h r hr) (Nat.not_lt.mpr hle)

/-! ### Canonical form -/

/-- A range takes in those that it reaches without gaining or losing a member. -/
theorem covers_extend (hfirst : ∀ r ∈ ranges, first ≤ r.1) (hascending : Ascending ranges) :
    Covers (coalesce.extend first last ranges) n ↔ (first ≤ n ∧ n ≤ last) ∨ Covers ranges n := by
  induction ranges generalizing first last with
  | nil => rw [coalesce.extend, covers_cons]
  | cons range ranges ih =>
    obtain ⟨first', last'⟩ := range
    obtain ⟨hhead, htail⟩ := List.pairwise_cons.mp hascending
    have hle : first ≤ first' := hfirst _ List.mem_cons_self
    rw [coalesce.extend]
    split
    next hreach =>
      rw [ih (fun r hr => Nat.le_trans hle (hhead r hr)) htail, covers_cons, ← or_assoc]
      refine or_congr_left ?_
      omega
    next => rw [covers_cons, ih hhead htail, covers_cons]

/-- What a range extends to begins with it, and its ranges are apart. -/
theorem extend_spec (hrange : first ≤ last) (hfirst : ∀ r ∈ ranges, first ≤ r.1) (hascending : Ascending ranges)
    (hproper : Proper ranges) :
    (∀ r ∈ coalesce.extend first last ranges, first ≤ r.1) ∧ Proper (coalesce.extend first last ranges) ∧
      Parted (coalesce.extend first last ranges) := by
  induction ranges generalizing first last with
  | nil => simp [coalesce.extend, Proper, Parted, hrange]
  | cons range ranges ih =>
    obtain ⟨first', last'⟩ := range
    obtain ⟨hhead, htail⟩ := List.pairwise_cons.mp hascending
    obtain ⟨hrange', hproper⟩ := List.forall_mem_cons.mp hproper
    have hle : first ≤ first' := hfirst _ List.mem_cons_self
    rw [coalesce.extend]
    split
    next => exact ih (Nat.le_trans hrange (Nat.le_max_left ..)) (fun r hr => Nat.le_trans hle (hhead r hr)) htail hproper
    next hgap =>
      obtain ⟨hbegin, hrest, hparted⟩ := ih hrange' hhead htail hproper
      refine ⟨?_, List.forall_mem_cons.mpr ⟨hrange, hrest⟩, List.pairwise_cons.mpr ⟨fun r hr => ?_, hparted⟩⟩
      · exact List.forall_mem_cons.mpr ⟨Nat.le_refl _, fun r hr => Nat.le_trans hle (hbegin r hr)⟩
      · have := hbegin r hr
        dsimp only
        omega

theorem ascending_mergeSort (ranges : Ranges) : Ascending (ranges.mergeSort fun r s => r.1 ≤ s.1) := by
  have htrans (a b c : Nat × Nat) (hab : decide (a.1 ≤ b.1) = true) (hbc : decide (b.1 ≤ c.1) = true) : decide (a.1 ≤ c.1) = true :=
    decide_eq_true (Nat.le_trans (of_decide_eq_true hab) (of_decide_eq_true hbc))
  have htotal (a b : Nat × Nat) : (decide (a.1 ≤ b.1) || decide (b.1 ≤ a.1)) = true := by simpa using Nat.le_total a.1 b.1
  exact (List.pairwise_mergeSort htrans htotal ranges).imp of_decide_eq_true

/-- The canonical form has the same members. -/
theorem covers_canonical : Covers ranges.canonical n ↔ Covers ranges n := by
  have hperm := List.mergeSort_perm ranges fun r s => r.1 ≤ s.1
  have hascending := ascending_mergeSort ranges
  have hsame : Covers (ranges.mergeSort fun r s => r.1 ≤ s.1) n ↔ Covers ranges n := by simp only [Covers, hperm.mem_iff]
  rw [← hsame, canonical]
  cases hsorted : ranges.mergeSort fun r s => r.1 ≤ s.1 with
  | nil => rw [coalesce]
  | cons range rest =>
    rw [hsorted] at hascending
    obtain ⟨hhead, htail⟩ := List.pairwise_cons.mp hascending
    rw [coalesce, covers_extend hhead htail, covers_cons]

/-- The ranges of the canonical form are apart. -/
theorem canonical_spec (hproper : Proper ranges) : Proper ranges.canonical ∧ Parted ranges.canonical := by
  have hperm := List.mergeSort_perm ranges fun r s => r.1 ≤ s.1
  have hascending := ascending_mergeSort ranges
  have hsame : Proper (ranges.mergeSort fun r s => r.1 ≤ s.1) := fun r hr => hproper r (hperm.mem_iff.mp hr)
  rw [canonical]
  cases hsorted : ranges.mergeSort fun r s => r.1 ≤ s.1 with
  | nil => simp [coalesce, Proper, Parted]
  | cons range rest =>
    rw [hsorted] at hascending hsame
    obtain ⟨hhead, htail⟩ := List.pairwise_cons.mp hascending
    obtain ⟨hrange, hrest⟩ := List.forall_mem_cons.mp hsame
    exact (extend_spec hrange hhead htail hrest).2

/-! ### Complements -/

/-- The gaps between ranges that are apart have the members that no range has. -/
theorem covers_gapsFrom (hproper : Proper ranges) (hparted : Parted ranges) (hnext : ∀ r ∈ ranges, next ≤ r.1)
    (hn : n ≤ lastCode) : Covers (gapsFrom next ranges) n ↔ next ≤ n ∧ ¬Covers ranges n := by
  induction ranges generalizing next with
  | nil =>
    rw [gapsFrom]
    split
    next => simp [Covers, hn]
    next => simp [Covers]; omega
  | cons range ranges ih =>
    obtain ⟨first, last⟩ := range
    obtain ⟨hrange, hproper⟩ := List.forall_mem_cons.mp hproper
    obtain ⟨hhead, htail⟩ := List.pairwise_cons.mp hparted
    have hle : next ≤ first := hnext _ List.mem_cons_self
    -- Later ranges lie above this one, so none of them has what lies before it.
    have hbefore (hlt : n < first) : ¬Covers ranges n :=
      not_covers_of_lt fun r hr => Nat.lt_of_lt_of_le (Nat.lt_of_lt_of_le hlt hrange) (Nat.le_of_lt (hhead r hr))
    have hrest := ih hproper htail fun r hr => hhead r hr
    rw [gapsFrom, covers_cons]
    dsimp only at hrange
    split
    next hgap =>
      rw [covers_cons, hrest]
      by_cases hcovers : Covers ranges n
      · simp only [hcovers, not_true, and_false, or_true, or_false, iff_false]
        rintro ⟨-, hlast⟩
        exact hbefore (by omega) hcovers
      · simp only [hcovers, not_false_eq_true, and_true, or_false]
        omega
    next =>
      rw [hrest]
      by_cases hcovers : Covers ranges n
      · simp [hcovers]
      · simp only [hcovers, not_false_eq_true, and_true, or_false]
        omega

theorem proper_gapsFrom : Proper (gapsFrom next ranges) := by
  induction ranges generalizing next with
  | nil =>
    rw [gapsFrom]
    split <;> simp [Proper, *]
  | cons range ranges ih =>
    rw [gapsFrom]
    split
    next hlt => exact List.forall_mem_cons.mpr ⟨by dsimp only; omega, ih⟩
    next => exact ih

/-- The complement has the characters that the set does not have. -/
theorem contains_complement (hproper : Proper ranges) : ranges.complement.contains c = !ranges.contains c := by
  have hproper : Proper ((0xd800, 0xdfff) :: ranges) := List.forall_mem_cons.mpr ⟨by decide, hproper⟩
  have hvalid : ¬(0xd800 ≤ c.toNat ∧ c.toNat ≤ 0xdfff) ∧ c.toNat ≤ lastCode := by
    have hcode : c.toNat < 0xd800 ∨ 0xdfff < c.toNat ∧ c.toNat < 0x110000 := c.valid
    have hlast : lastCode = 0x10ffff := rfl
    omega
  obtain ⟨hapart, hparted⟩ := canonical_spec hproper
  rw [Bool.eq_iff_iff, Bool.not_eq_true', ← Bool.not_eq_true, contains_iff, contains_iff, complement,
    covers_gapsFrom hapart hparted (fun _ _ => Nat.zero_le _) hvalid.2, covers_canonical, covers_cons]
  simp [hvalid.1]

/-- The difference has the characters that the one set has and the other does not. -/
theorem contains_difference (hr : Proper r) (hs : Proper s) : (r.difference s).contains c = (r.contains c && !s.contains c) := by
  have happend : Proper (r.complement ++ s) := List.forall_mem_append.mpr ⟨proper_gapsFrom, hs⟩
  rw [difference, contains_complement happend, contains_append, contains_complement hr, Bool.not_or, Bool.not_not]

/-! ### Tables -/

theorem read_ofList (cs : List Char) : read (String.ofList cs) = readFrom [] cs := by rw [read, String.toList_ofList]

end Conform.Text.Ranges

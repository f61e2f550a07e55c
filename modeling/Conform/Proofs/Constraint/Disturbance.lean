import Conform.Proofs.Constraint.Mended

/-! Which constraints disturb each other. Constraints are checked once, one after another, so what a lax one puts
    in the place of a value is not checked again by a strict one before it. It can be refused by that one in
    seven ways, told apart by the keywords and the kind of the new value; in no other way is anything lost. -/

namespace Conform

/-- A way in which a lax constraint may put a value that a strict one before it refuses: the keyword of the
    strict one, that of the lax one, and the new value. `least` is how many items have to satisfy a rule. -/
inductive Disturbs (least : Nat) : Keyword → Keyword → Value → Prop
  -- The nearest multiple may lie beyond any bound.
  | rounded {s : Keyword} {u : Value} : s ∈ [.gt, .ge, .lt, .le] → Disturbs least s .multipleOf u
  -- What lies within an upper bound may lie below a lower one.
  | clamped {s l : Keyword} {u : Value} : s ∈ [.gt, .ge] → l ∈ [.lt, .le] → Disturbs least s l u
  -- With fewer places a number is another one.
  | shortened {s l : Keyword} {u : Value} : s ∈ [.gt, .ge, .lt, .le, .multipleOf] → l ∈ [.decimalPlaces, .maxDigits] →
    u.kind ∈ [.float, .decimal] → Disturbs least s l u
  -- The float for a decimal of few places may be written with more of them.
  | respelled {u : Value} : u.kind = .float → Disturbs least .decimalPlaces .maxDigits u
  -- A beginning comes earlier in the order, and may lack what a pattern looks for.
  | cut {s l : Keyword} {u : Value} : s ∈ [.gt, .ge, .regex] → l ∈ [.length, .maxLength] → Disturbs least s l u
  -- Without repetitions there are fewer items.
  | thinned {s : Keyword} {u : Value} : s ∈ [.length, .minLength] → u.kind ∈ [.list, .tuple] →
    Disturbs least s .uniqueItems u
  -- Items that are the same may differ in whether they satisfy a rule.
  | uncounted {u : Value} : u.kind ∈ [.list, .tuple] → 0 < least → Disturbs least .contains .uniqueItems u

/-! ### Keywords

    What comes before a keyword, or after it, in the order in which constraints are checked. A fixed value stands
    alone, so there is none. -/

namespace Keyword

variable {j k : Keyword}

theorem before_precision (hk : k ∈ [.decimalPlaces, .maxDigits]) (hrank : j.rank < k.rank)
    (hfree : j ∉ [.const, .enum]) :
    j ∈ [.gt, .ge, .lt, .le, .multipleOf] ∨ j = .regex ∨ j = .decimalPlaces ∧ k = .maxDigits := by
  revert hk hrank hfree
  cases k <;> cases j <;> decide

theorem before_length (hk : k ∈ [.length, .minLength, .maxLength]) (hmin : k ≠ .minLength) (hrank : j.rank < k.rank)
    (hfree : j ∉ [.const, .enum]) :
    j ∈ [.gt, .ge, .regex] ∨ j ∈ [.lt, .le] ∨ j ∈ [.multipleOf, .decimalPlaces, .maxDigits] ∨
      j ∈ [.length, .minLength] ∧ k = .maxLength := by
  revert hk hmin hrank hfree
  cases k <;> cases j <;> decide

theorem before_unique (hrank : j.rank < Keyword.uniqueItems.rank) (hfree : j ∉ [.const, .enum]) :
    j ∈ [.gt, .ge, .lt, .le] ∨ j ∈ [.multipleOf, .decimalPlaces, .maxDigits] ∨ j = .regex ∨
      j ∈ [.length, .minLength] ∨ j = .maxLength ∨ j ∈ [.contains, .minContains, .maxContains] := by
  revert hrank hfree
  cases j <;> decide

theorem after_contains (hrank : Keyword.contains.rank < k.rank) :
    k ∈ [.enum, .regex, .contains, .minContains, .maxContains] ∨ k = .uniqueItems := by
  revert hrank
  cases k <;> decide

theorem before_bound (hk : k ∈ [.gt, .ge, .lt, .le]) (hrank : j.rank < k.rank) (hlower : j = .gt → k ≠ .ge)
    (hupper : j = .lt → k ≠ .le) : j ∈ [.gt, .ge] ∧ k ∈ [.lt, .le] := by
  revert hk hrank hlower hupper
  cases k <;> cases j <;> decide

theorem before_multiple (hrank : j.rank < Keyword.multipleOf.rank) : j ∈ [.gt, .ge, .lt, .le] := by
  revert hrank
  cases j <;> decide

theorem families (k : Keyword) :
    k = .const ∨ k ∈ [.gt, .ge, .lt, .le] ∨ k = .multipleOf ∨ k ∈ [.enum, .regex, .contains, .minContains, .maxContains] ∨
      k ∈ [.decimalPlaces, .maxDigits] ∨ k ∈ [.length, .minLength, .maxLength] ∨ k = .uniqueItems := by
  cases k <;> decide

end Keyword

namespace Constraint

variable {ρ : Type} {s l : Constraint ρ} {v u b : Value} {least count : Nat} {keyword : Keyword} {lax : Bool}

/-- What is settled between two constraints of one declaration, the first of which is checked before the second. -/
structure Agree (s l : Constraint ρ) : Prop where
  before : s.keyword.rank < l.keyword.rank
  lower : s.keyword = .gt → l.keyword ≠ .ge
  upper : s.keyword = .lt → l.keyword ≠ .le
  first : s.keyword ∉ [.const, .enum]
  second : l.keyword ∉ [.const, .enum]
  lengths : s.keyword ∈ [.length, .minLength] → l.keyword = .maxLength → s.count ≤ l.count

/-! ### Verdicts by keyword -/

theorem verdict_bound (h : s.keyword ∈ [.gt, .ge, .lt, .le]) (v : Value) :
    s.verdict v = checkBound s.keyword s.lax s.scalar v := by
  unfold verdict
  cases hk : s.keyword <;> first | rfl | exact absurd (hk ▸ h) (by decide)

theorem verdict_multiple (h : s.keyword = .multipleOf) (v : Value) : s.verdict v = checkMultiple s.lax s.scalar v := by
  rw [verdict, h]

theorem verdict_const (h : s.keyword = .const) (v : Value) : s.verdict v = checkConst s.lax s.scalar v := by
  rw [verdict, h]

theorem verdict_unique (h : s.keyword = .uniqueItems) (v : Value) : s.verdict v = checkUnique s.lax v := by
  rw [verdict, h]

theorem verdict_precision (h : s.keyword ∈ [.decimalPlaces, .maxDigits]) (v : Value) :
    s.verdict v = checkPrecision s.keyword s.lax s.count v := by
  unfold verdict
  cases hk : s.keyword <;> first | rfl | exact absurd (hk ▸ h) (by decide)

theorem verdict_length (h : s.keyword ∈ [.length, .minLength, .maxLength]) (v : Value) :
    s.verdict v = checkLength s.keyword s.lax s.count v := by
  unfold verdict
  cases hk : s.keyword <;> first | rfl | exact absurd (hk ▸ h) (by decide)

theorem verdict_contained (h : s.keyword ∈ [.contains, .minContains, .maxContains]) (v : Value) :
    s.verdict v = .kept := by
  unfold verdict
  cases hk : s.keyword <;> first | rfl | exact absurd (hk ▸ h) (by decide)

/-! ### What is replaced -/

/-- Choices, patterns and counts of items that satisfy a rule have nothing to put in the place of a value. -/
theorem not_replaced (hk : l.keyword ∈ [.enum, .regex, .contains, .minContains, .maxContains]) :
    l.verdict v ≠ .replaced u := by
  intro h
  simp only [List.mem_cons, List.not_mem_nil, or_false] at hk
  unfold verdict at h
  rcases hk with hk | hk | hk | hk | hk <;> rw [hk] at h
  · simp only at h
    unfold checkEnum at h
    split at h
    · cases (Verdict.decide_eq_replaced.mp h).2.2
    · cases h
  · simp only at h
    split at h
    · unfold checkPattern at h
      cases (Verdict.decide_eq_replaced.mp h).2.2
    · cases h
  all_goals cases h

theorem lax_of_checkBound (h : checkBound keyword lax b v = .replaced u) : lax = true := by
  unfold checkBound at h
  split at h
  · cases h
  · exact (Verdict.decide_eq_replaced.mp h).2.1

theorem lax_of_checkMultiple (h : checkMultiple lax b v = .replaced u) : lax = true := by
  unfold checkMultiple at h
  split at h
  · exact (Verdict.decide_eq_replaced.mp h).2.1
  · split at h
    · exact (Verdict.decide_eq_replaced.mp h).2.1
    · cases h

theorem lax_of_checkPrecision (h : checkPrecision keyword lax count v = .replaced u) : lax = true := by
  unfold checkPrecision at h
  split at h
  · cases h
  · dsimp only at h
    split at h <;> exact (Verdict.decide_eq_replaced.mp h).2.1

theorem lax_of_checkLength (h : checkLength keyword lax count v = .replaced u) : lax = true := by
  unfold checkLength at h
  split at h
  · cases h
  · exact (Verdict.decide_eq_replaced.mp h).2.1

theorem lax_of_checkUnique (h : checkUnique lax v = .replaced u) : lax = true := by
  cases v with
  | list | tuple => exact (Verdict.decide_eq_replaced.mp h).2.1
  | _ => cases h

/-- A constraint that is not lax puts nothing in the place of a value. -/
theorem lax_of_replaced (h : l.verdict v = .replaced u) : l.lax = true := by
  -- Whatever the family, `Verdict.decide` replaces a value under a lax constraint only.
  rcases l.keyword.families with hconst | hbound | hmultiple | hnone | hprecision | hlength | hunique
  · rw [verdict_const hconst] at h
    exact (Verdict.decide_eq_replaced.mp h).2.1
  · rw [verdict_bound hbound] at h
    exact lax_of_checkBound h
  · rw [verdict_multiple hmultiple] at h
    exact lax_of_checkMultiple h
  · exact absurd h (not_replaced hnone)
  · rw [verdict_precision hprecision] at h
    exact lax_of_checkPrecision h
  · rw [verdict_length hlength] at h
    exact lax_of_checkLength h
  · rw [verdict_unique hunique] at h
    exact lax_of_checkUnique h

/-! ### What is kept -/

/-- A number that is kept as such has no size. -/
theorem size?_eq_none_of_kept (h : s.keyword ∈ [.multipleOf, .decimalPlaces, .maxDigits]) (hs : s.verdict v = .kept) :
    v.size? = none := by
  have hnumber : (∃ d, v.toDecimal? = some d) ∨ ∃ x, v = .float x := by
    rcases List.mem_cons.mp h with hk | hk
    · rw [verdict_multiple hk, checkMultiple.eq_def] at hs
      split at hs
      · exact .inr ⟨_, rfl⟩
      · split at hs
        case h_1 d _ hd _ => exact .inl ⟨d, hd⟩
        case h_2 => cases hs
    · rw [verdict_precision hk, checkPrecision] at hs
      split at hs
      case h_1 => cases hs
      case h_2 d hd => exact .inl ⟨d, hd⟩
  rcases hnumber with ⟨d, hd⟩ | ⟨x, rfl⟩
  · exact Value.size?_eq_none_of_toDecimal? hd
  · rfl

/-- A pattern keeps nothing but texts and bytes. -/
theorem isText_of_kept (h : s.keyword = .regex) (hs : s.verdict v = .kept) (hu : s.verdict u ≠ .kept) :
    v.kind.isText := by
  cases ho : s.operand with
  | pattern p =>
    have hverdict : s.verdict v = checkPattern p v := by rw [verdict, h, ho]
    rw [hverdict] at hs
    unfold checkPattern at hs
    have hmatched := Verdict.decide_eq_kept.mp hs
    cases v with
    | str | bytes => rfl
    | _ => cases hmatched
  | value | rule =>
    refine absurd ?_ hu
    rw [verdict, h, ho]

/-- Nothing that has items is compared with anything. -/
theorem not_compare?_of_items {items : List Value} (h : v.items? = some items) (b : Value) : v.compare? b = none := by
  unfold Value.compare?
  generalize b.stored = b
  cases v with
  | list | tuple | set => cases b <;> rfl
  | _ => cases h

/-! ### What is lost -/

section Lost

variable (hagree : Agree s l) (hs : s.verdict v = .kept) (hl : l.verdict v = .replaced u) (hu : s.verdict u ≠ .kept)

include hagree hs hl hu

theorem disturbs_of_precision (hk : l.keyword ∈ [.decimalPlaces, .maxDigits]) :
    Disturbs least s.keyword l.keyword u := by
  rw [verdict_precision hk] at hl
  obtain ⟨d, places, hd, hplaces, -, rfl⟩ := checkPrecision_eq_replaced hl
  have hkind := Value.kind_of_places hd (Nat.zero_lt_of_lt hplaces)
  have hnew : (likeKind v (shortened l.keyword (l.count % twoTo 32) places d)).kind ∈ [.float, .decimal] := by
    rw [kind_likeKind hkind]
    simpa using hkind
  rcases Keyword.before_precision hk hagree.before hagree.first with hbound | hregex | ⟨hfirst, hlast⟩
  · exact .shortened hbound hk hnew
  · have htext := isText_of_kept hregex hs hu
    rcases hkind with h | h <;> rw [h] at htext <;> cases htext
  · have hfirst' : s.keyword ∈ [.decimalPlaces, .maxDigits] := hfirst ▸ List.mem_cons_self
    rw [verdict_precision hfirst', hfirst] at hs hu
    obtain ⟨_, hd', hfew⟩ := checkPrecision_places.mp hs
    cases hd.symm.trans hd'
    cases v with
    | float x =>
      rw [hfirst, hlast]
      exact .respelled rfl
    | decimal e =>
      refine absurd (checkPrecision_places.mpr ⟨_, rfl, ?_⟩) hu
      exact Nat.le_trans (places_shortened_le _ _ places d) (Nat.le_trans (Nat.le_of_lt hplaces) hfew)
    | _ => rcases hkind with h | h <;> cases h

theorem disturbs_of_length (hk : l.keyword ∈ [.length, .minLength, .maxLength]) :
    Disturbs least s.keyword l.keyword u := by
  rw [verdict_length hk] at hl
  obtain ⟨m, hm, hlong, rfl, hmin⟩ := checkLength_eq_replaced hl
  rcases Keyword.before_length hk hmin hagree.before hagree.first with hcut | hupper | hnumber | ⟨hlength, hlast⟩
  · refine .cut hcut ?_
    have hboth := hk
    simp only [List.mem_cons, List.not_mem_nil, or_false] at hboth ⊢
    exact hboth.imp id fun h => h.resolve_left hmin
  · -- What comes no later than the whole is within every upper bound of it.
    have hbound : s.keyword ∈ [.gt, .ge, .lt, .le] := List.mem_cons_of_mem _ (List.mem_cons_of_mem _ hupper)
    rw [verdict_bound hbound] at hs hu
    obtain ⟨o, ho, hwithin⟩ := checkBound_eq_kept.mp hs
    have hupper : s.keyword = .lt ∨ s.keyword = .le := by simpa using hupper
    have hne : o ≠ .gt := by
      rintro rfl
      rcases hupper with h | h <;> rw [h] at hwithin <;> cases hwithin
    refine absurd (checkBound_eq_kept.mpr ?_) hu
    rcases Value.compare?_truncated ho hne (hm ▸ rfl) l.count with hsame | hless
    · exact ⟨o, hsame, hwithin⟩
    · refine ⟨.lt, hless, ?_⟩
      rcases hupper with h | h <;> rw [h] <;> rfl
  · rw [size?_eq_none_of_kept hnumber hs] at hm
    cases hm
  · have hsize := size?_truncated hm (Nat.le_of_lt hlong)
    have hle := hagree.lengths hlength hlast
    have hs' : s.keyword ∈ [.length, .minLength, .maxLength] := List.mem_of_mem_take (i := 2) hlength
    rw [verdict_length hs', checkLength] at hs hu
    rw [hm] at hs
    rw [hsize] at hu
    simp only [Verdict.decide_eq_kept, ne_eq] at hs hu
    simp only [List.mem_cons, List.not_mem_nil, or_false] at hlength
    rcases hlength with h | h <;> rw [h] at hs hu
    · have hexact : m = s.count := by simpa using hs
      omega
    · exact absurd (decide_eq_true hle) hu

theorem disturbs_of_unique (hk : l.keyword = .uniqueItems) : Disturbs least s.keyword l.keyword u := by
  rw [verdict_unique hk] at hl
  obtain ⟨items, hitems, hdistinct, hsame, hkind⟩ := checkUnique_eq_replaced hl
  have hsize := Value.size?_of_items? hitems
  have hrank : s.keyword.rank < Keyword.uniqueItems.rank := hk ▸ hagree.before
  rcases Keyword.before_unique hrank hagree.first with hbound | hnumber | hregex | hlength | hmax | hcontained
  · rw [verdict_bound hbound] at hs
    obtain ⟨o, ho, -⟩ := checkBound_eq_kept.mp hs
    rw [not_compare?_of_items hitems] at ho
    cases ho
  · rw [size?_eq_none_of_kept hnumber hs] at hsize
    cases hsize
  · have htext := isText_of_kept hregex hs hu
    rw [← hsame] at htext
    rcases hkind with h | h <;> rw [h] at htext <;> cases htext
  · rw [hk]
    exact .thinned hlength (by simpa using hkind)
  · have hfew := (Value.distinct_sublist items).length_le
    have hnew := Value.size?_of_items? hdistinct
    have hs' : s.keyword ∈ [.length, .minLength, .maxLength] := by simp [hmax]
    rw [verdict_length hs', checkLength, hmax] at hs hu
    rw [hsize] at hs
    rw [hnew] at hu
    simp only [Verdict.decide_eq_kept, ne_eq, decide_eq_true_eq] at hs hu
    exact absurd (Nat.le_trans hfew hs) hu
  · exact absurd (verdict_contained hcontained u) hu

/-- A constraint that keeps a value and not what another puts in its place is disturbed by that one. -/
theorem disturbs_of_lost : Disturbs least s.keyword l.keyword u := by
  rcases l.keyword.families with hconst | hbound | hmultiple | hnone | hprecision | hlength | hunique
  · exact absurd (hconst ▸ List.mem_cons_self) hagree.second
  · obtain ⟨hlower, hupper⟩ := Keyword.before_bound hbound hagree.before hagree.lower hagree.upper
    exact .clamped hlower hupper
  · rw [hmultiple]
    exact .rounded (Keyword.before_multiple (hmultiple ▸ hagree.before))
  · exact absurd hl (not_replaced hnone)
  · exact disturbs_of_precision hagree hs hl hu hprecision
  · exact disturbs_of_length hagree hs hl hu hlength
  · exact disturbs_of_unique hagree hs hl hu hunique

end Lost

end Constraint

end Conform

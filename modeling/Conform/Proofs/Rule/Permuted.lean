import Mathlib.Data.List.Perm.Basic
import Conform.Proofs.Rule.Declaration
import Conform.Proofs.Conversion.Proper

/-! The order in which constraints are declared. What is refused is refused in every order, and what is not makes the
    same rule in every order: no keyword is declared twice, so a constraint is found by its keyword wherever it
    stands, and the constraints that are left are put in the order of their keywords at the end. These are orderly:
    a fixed value stands alone, the lower bound is not above the upper one, no count is below the least one, and
    bounds and fixed values are of the origin's kind. -/

namespace Conform.Rule

/-! ### Constraints in another order -/

theorem perm_mapM {α β : Type} {f : α → Declaring β} {xs ys : List α} {us : List β} (h : xs.Perm ys)
    (hus : xs.mapM f = .ok us) : ∃ vs, ys.mapM f = .ok vs ∧ us.Perm vs := by
  obtain ⟨vs, hvs, hperm⟩ := List.perm_comp_forall₂ h.symm (mapM_eq_ok.mp hus)
  exact ⟨vs, mapM_eq_ok.mpr hvs, hperm.symm⟩

section Perm

variable {cs ds : List (Constraint Rule)}

theorem valueOf?_of_perm (h : cs.Perm ds) (hnodup : (cs.map Constraint.keyword).Nodup) (k : Keyword) :
    valueOf? cs k = valueOf? ds k := by
  have hfind : cs.find? (·.keyword == k) = ds.find? (·.keyword == k) := by
    refine Option.ext fun c => ?_
    rw [find?_keyword_eq_some hnodup, find?_keyword_eq_some ((h.map _).nodup_iff.mp hnodup), h.mem_iff]
  rw [valueOf?, valueOf?, hfind]

theorem checkAgreement_of_perm (h : cs.Perm ds) (hnodup : (cs.map Constraint.keyword).Nodup) :
    checkAgreement cs = checkAgreement ds := by
  have hcount (k : Keyword) : countOf? cs k = countOf? ds k := by rw [countOf?, countOf?, valueOf?_of_perm h hnodup]
  have hbound (j k : Keyword) : boundOf? cs j k = boundOf? ds j k := by
    rw [boundOf?, boundOf?, valueOf?_of_perm h hnodup, valueOf?_of_perm h hnodup]
  have hcounts (low high blamed : Keyword) (fault : OperandFault) :
      checkCounts cs low high blamed fault = checkCounts ds low high blamed fault := by
    rw [checkCounts, checkCounts, hcount, hcount]
  have hcontained (k : Keyword) : checkContained cs k = checkContained ds k := by
    rw [checkContained, checkContained, hcount, h.any_eq]
  simp only [checkAgreement, checkBounds, hbound, hcounts, hcontained]

theorem perm_withoutSuppressed (h : cs.Perm ds) : (withoutSuppressed cs).Perm (withoutSuppressed ds) := by
  have hany (k : Keyword) : cs.any (·.keyword == k) = ds.any (·.keyword == k) := h.any_eq
  simp only [withoutSuppressed, hany]
  split
  · exact h.filter _
  · exact h

/-- There is one order of different keywords. -/
theorem sortConstraints_of_perm (h : cs.Perm ds) (hnodup : (cs.map Constraint.keyword).Nodup) :
    sortConstraints cs = sortConstraints ds := by
  have hperm : (sortConstraints cs).Perm (sortConstraints ds) :=
    (perm_sortConstraints cs).trans (h.trans (perm_sortConstraints ds).symm)
  refine hperm.eq_of_pairwise ?_ (pairwise_sortConstraints hnodup)
    (pairwise_sortConstraints ((h.map _).nodup_iff.mp hnodup))
  exact fun c d _ _ hcd hdc => absurd hdc (Nat.lt_asymm hcd)

end Perm

/-- What is not refused in one order leaves the same constraints in every other. -/
theorem declareConstraints_of_perm {origin : Target} {ds es : List Declared} (h : ds.Perm es) {cs : List (Constraint Rule)}
    (hcs : declareConstraints origin ds = .ok cs) : declareConstraints origin es = .ok cs := by
  obtain ⟨made, hmade, rfl, honce, hexclusive, hagree⟩ := declareConstraints_eq_ok.mp hcs
  obtain ⟨made', hmade', hperm⟩ := perm_mapM h hmade
  -- From here on keywords are distinct, so that every check finds the same in either order.
  have hkept := hperm.filter (!isVoid ·)
  have hdistinct := (checkOnce_eq_ok.mp honce).1
  have hnodup : ((made.filter (!isVoid ·)).map Constraint.keyword).Nodup :=
    (List.filter_sublist.map _).nodup (keywords_of_mapM hmade ▸ hdistinct)
  refine declareConstraints_eq_ok.mpr ⟨made', hmade', ?_, ?_, ?_, ?_⟩
  · exact sortConstraints_of_perm (perm_withoutSuppressed hkept) (((sublist_withoutSuppressed _).map _).nodup hnodup)
  · exact checkOnce_eq_ok.mpr ⟨(h.map _).nodup_iff.mp hdistinct, fun _ _ => List.not_mem_nil⟩
  · rw [checkExclusive_eq_ok] at hexclusive ⊢
    simpa only [(h.map Declared.keyword).mem_iff] using hexclusive
  · rw [← checkAgreement_of_perm hkept hnodup]
    exact hagree

/-! ### What is left -/

/-- What holds of the constraints `cs` that are left of what is declared for an origin. -/
structure Orderly (origin : Target) (declared : List Declared) (cs : List (Constraint Rule)) : Prop where
  distinct : (cs.map Constraint.keyword).Nodup
  ascending : cs.Pairwise fun c d => c.keyword.priority < d.keyword.priority ∨
    c.keyword.priority = d.keyword.priority ∧ c.keyword.rank < d.keyword.rank
  constant : .const ∈ declared.map Declared.keyword → cs.map Constraint.keyword = [.const]
  choice : .enum ∈ declared.map Declared.keyword → .const ∉ declared.map Declared.keyword →
    cs.map Constraint.keyword = [.enum]
  exclusive : ¬ (.gt ∈ cs.map Constraint.keyword ∧ .ge ∈ cs.map Constraint.keyword) ∧
    ¬ (.lt ∈ cs.map Constraint.keyword ∧ .le ∈ cs.map Constraint.keyword)
  bounds : ∀ low ∈ cs, ∀ high ∈ cs, low.keyword ∈ [.gt, .ge] → high.keyword ∈ [.lt, .le] →
    low.scalar.compare? high.scalar ≠ some .gt
  counts : ∀ low ∈ cs, ∀ high ∈ cs, (low.keyword, high.keyword) ∈ countedPairs →
    ∃ m n : Int64, low.operand = .value (.int m) ∧ high.operand = .value (.int n) ∧ m.toInt ≤ n.toInt
  declaredCounts : ∀ low ∈ declared, ∀ high ∈ declared, (low.keyword, high.keyword) ∈ countedPairs →
    ∃ m n : Int64, low.toValue = .int m ∧ high.toValue = .int n ∧ m.toInt ≤ n.toInt
  scalars : ∀ c ∈ cs, c.keyword ∈ [.gt, .ge, .lt, .le, .const] → c.operand = .value c.scalar ∧
    ∀ k, origin.kind? = some k → c.scalar.kind = k
  items : ∀ c ∈ cs, c.keyword = .enum → ∃ items, c.operand = .value (.list items) ∧
    ∀ k, origin.kind? = some k → ∀ v ∈ items, v.kind = k

theorem Before.ascending {c d : Constraint Rule} (h : Before c d) : c.keyword.priority < d.keyword.priority ∨
    c.keyword.priority = d.keyword.priority ∧ c.keyword.rank < d.keyword.rank :=
  (Nat.lt_or_eq_of_le (Keyword.priority_le_of_rank_le (Nat.le_of_lt h))).imp_right fun heq => ⟨heq, h⟩

/-- Of constraints of different keywords, the one of a keyword is left alone. -/
theorem keywords_filter {cs : List (Constraint Rule)} (h : (cs.map Constraint.keyword).Nodup) {c : Constraint Rule}
    (hc : c ∈ cs) : (cs.filter (·.keyword == c.keyword)).map Constraint.keyword = [c.keyword] := by
  have hmap : (cs.filter (·.keyword == c.keyword)).map Constraint.keyword =
      (cs.map Constraint.keyword).filter (· == c.keyword) := by
    rw [List.filter_map]
    rfl
  rw [hmap, List.filter_beq, List.count_eq_one_of_mem h (List.mem_map_of_mem hc), List.replicate_one]

section Made

variable {origin : Target} {declared : List Declared} {kept : List (Constraint Rule)}

theorem withoutSuppressed_of_const {c : Constraint Rule} (hc : c ∈ kept) (hconst : c.keyword = .const) :
    withoutSuppressed kept = kept.filter (·.keyword == .const) := by
  have hany : kept.any (·.keyword == .const) = true := List.any_eq_true.mpr ⟨c, hc, by rw [hconst]; rfl⟩
  simp only [withoutSuppressed, List.find?_cons, hany]

/-- A choice of values suppresses all others but a fixed value. -/
theorem withoutSuppressed_of_enum {c : Constraint Rule} (hc : c ∈ kept) (henum : c.keyword = .enum)
    (hconst : ∀ d ∈ kept, d.keyword ≠ .const) : withoutSuppressed kept = kept.filter (·.keyword == .enum) := by
  have hnone : kept.any (·.keyword == .const) = false :=
    List.any_eq_false.mpr fun d hd heq => hconst d hd (beq_iff_eq.mp heq)
  have hany : kept.any (·.keyword == .enum) = true := List.any_eq_true.mpr ⟨c, hc, by rw [henum]; rfl⟩
  simp only [withoutSuppressed, List.find?_cons, hnone, hany]

theorem keywords_sorted {k : Keyword} (h : (withoutSuppressed kept).map Constraint.keyword = [k]) :
    (sortConstraints (withoutSuppressed kept)).map Constraint.keyword = [k] :=
  List.perm_singleton.mp (h ▸ (perm_sortConstraints _).map _)

namespace Made

variable (h : Made origin declared kept)

include h

theorem exists_of_mem {k : Keyword} (hk : k ∈ declared.map Declared.keyword) (hunique : k ≠ .uniqueItems) :
    ∃ c ∈ kept, c.keyword = k := by
  obtain ⟨d, hd, rfl⟩ := List.mem_map.mp hk
  obtain ⟨c, hc, hof⟩ := h.whole d hd hunique
  exact ⟨c, hc, (constraintOf_eq_ok hof).1⟩

theorem keyword_mem {c : Constraint Rule} (hc : c ∈ kept) : c.keyword ∈ declared.map Declared.keyword := by
  obtain ⟨d, hd, hof⟩ := h.source c hc
  rw [(constraintOf_eq_ok hof).1]
  exact List.mem_map_of_mem hd

theorem constant (hconst : .const ∈ declared.map Declared.keyword) :
    (sortConstraints (withoutSuppressed kept)).map Constraint.keyword = [.const] := by
  obtain ⟨c, hc, hk⟩ := h.exists_of_mem hconst (by decide)
  refine keywords_sorted ?_
  rw [withoutSuppressed_of_const hc hk, ← hk]
  exact keywords_filter h.distinct hc

theorem choice (henum : .enum ∈ declared.map Declared.keyword) (hconst : .const ∉ declared.map Declared.keyword) :
    (sortConstraints (withoutSuppressed kept)).map Constraint.keyword = [.enum] := by
  obtain ⟨c, hc, hk⟩ := h.exists_of_mem henum (by decide)
  refine keywords_sorted ?_
  rw [withoutSuppressed_of_enum hc hk fun d hd heq => hconst (heq ▸ h.keyword_mem hd), ← hk]
  exact keywords_filter h.distinct hc

theorem scalar {c : Constraint Rule} (hc : c ∈ kept) (hk : c.keyword ∈ [.gt, .ge, .lt, .le, .const]) :
    c.operand = .value c.scalar ∧ ∀ k, origin.kind? = some k → c.scalar.kind = k := by
  obtain ⟨d, -, hof⟩ := h.source c hc
  obtain ⟨u, lax, -, hoperand, hconvert⟩ := convert_of_constraintOf hof hk
  exact ⟨hoperand, fun k horigin => Registry.kind_of_convert horigin hconvert⟩

theorem items {c : Constraint Rule} (hc : c ∈ kept) (henum : c.keyword = .enum) :
    ∃ items, c.operand = .value (.list items) ∧ ∀ k, origin.kind? = some k → ∀ v ∈ items, v.kind = k := by
  obtain ⟨d, -, hof⟩ := h.source c hc
  obtain ⟨hkeyword, hoperand, -⟩ := constraintOf_eq_ok hof
  obtain ⟨v, lax, rfl⟩ : ∃ v lax, d = .value .enum v lax := by
    cases d with
    | value k v lax => exact ⟨v, lax, congrArg (Declared.value · v lax) (hkeyword.symm.trans henum)⟩
    | _ => exact nomatch hkeyword.symm.trans henum
  obtain ⟨w, hw, hvalue⟩ := operand_value_eq_ok hoperand
  unfold operandValue at hw
  dsimp only at hw
  split at hw
  next first rest =>
    obtain ⟨items, hitems, hw⟩ := bind_eq_ok.mp hw
    cases hw
    refine ⟨items, hvalue, fun k horigin w hw => ?_⟩
    obtain ⟨v, -, hconvert⟩ := (mem_of_mapM hitems).1 w hw
    exact Registry.kind_of_convert horigin (originValue_eq_ok.mp hconvert)
  · cases hw

theorem declaredCounts {low high : Declared} (hlow : low ∈ declared) (hhigh : high ∈ declared)
    (hpair : (low.keyword, high.keyword) ∈ countedPairs) :
    ∃ m n : Int64, low.toValue = .int m ∧ high.toValue = .int n ∧ m.toInt ≤ n.toInt := by
  have hkept (d : Declared) (hd : d ∈ declared) (hcount : d.keyword ∈ counting) :
      ∃ c ∈ kept, c.keyword = d.keyword ∧ ∃ i : Int64, d.toValue = .int i ∧ c.operand = .value (.int i) := by
    obtain ⟨c, hc, hof⟩ := h.whole d hd fun heq => absurd (heq ▸ hcount) (by decide)
    obtain ⟨hkeyword, hoperand, -⟩ := constraintOf_eq_ok hof
    obtain ⟨i, lax, hd, hi⟩ := operand_of_count hoperand hcount
    exact ⟨c, hc, hkeyword, i, by rw [hd]; rfl, hi⟩
  obtain ⟨c, hc, hck, m, hm, hcm⟩ := hkept low hlow (counting_of_countedPairs hpair).1
  obtain ⟨d, hd, hdk, n, hn, hdn⟩ := hkept high hhigh (counting_of_countedPairs hpair).2
  exact ⟨m, n, hm, hn, le_of_checkAgreement h.distinct h.agreeing hc hd hcm hdn (by rw [hck, hdk]; exact hpair)⟩

theorem boundOf?_of_mem {c : Constraint Rule} (hc : c ∈ kept) (hvalue : c.operand = .value c.scalar)
    {openKeyword closedKeyword : Keyword} (hk : c.keyword ∈ [openKeyword, closedKeyword])
    (hone : ¬ (openKeyword ∈ kept.map Constraint.keyword ∧ closedKeyword ∈ kept.map Constraint.keyword)) :
    ∃ strict, boundOf? kept openKeyword closedKeyword = some (c.scalar, strict) := by
  have hfound := valueOf?_of_mem h.distinct hc hvalue
  have hmem : c.keyword ∈ kept.map Constraint.keyword := List.mem_map_of_mem hc
  simp only [List.mem_cons, List.not_mem_nil, or_false] at hk
  -- A closed bound is looked at only where there is no open one.
  rcases hk with rfl | rfl
  · exact ⟨true, by rw [boundOf?, hfound, Option.map_some, Option.some_or]⟩
  · have hnone : valueOf? kept openKeyword = none := by
      rw [valueOf?, List.find?_eq_none.mpr, Option.bind_none]
      intro d hd heq
      exact hone ⟨List.mem_map.mpr ⟨d, hd, beq_iff_eq.mp heq⟩, hmem⟩
    exact ⟨false, by rw [boundOf?, hnone, hfound, Option.map_none, Option.map_some, Option.none_or]⟩

theorem bounds {low high : Constraint Rule} (hlow : low ∈ kept) (hhigh : high ∈ kept) (hl : low.keyword ∈ [.gt, .ge])
    (hh : high.keyword ∈ [.lt, .le]) : low.scalar.compare? high.scalar ≠ some .gt := by
  obtain ⟨hlower, hupper⟩ := checkExclusive_eq_ok.mp h.exclusive
  have hlowvalue := (h.scalar hlow (List.mem_of_mem_take (i := 2) hl)).1
  have hhighvalue := (h.scalar hhigh (List.mem_of_mem_take (i := 4) (List.mem_of_mem_drop (i := 2) hh))).1
  obtain ⟨_, hlowbound⟩ := h.boundOf?_of_mem hlow hlowvalue hl hlower
  obtain ⟨_, hhighbound⟩ := h.boundOf?_of_mem hhigh hhighvalue hh hupper
  obtain ⟨_, hbounds, -⟩ := bind_eq_ok.mp (show _ = Except.ok () from h.agreeing)
  intro hgt
  rw [checkBounds, hlowbound, hhighbound] at hbounds
  dsimp only at hbounds
  rw [hgt] at hbounds
  cases hbounds

end Made

end Made

theorem orderly_of_declareConstraints {origin : Target} {declared : List Declared} {cs : List (Constraint Rule)}
    (h : declareConstraints origin declared = .ok cs) : Orderly origin declared cs := by
  have hordered := (settled_of_declareConstraints h).ordered
  obtain ⟨kept, hmade, rfl⟩ := made_of_declareConstraints h
  have hsub : (sortConstraints (withoutSuppressed kept)).map Constraint.keyword ⊆ kept.map Constraint.keyword :=
    List.map_subset _ fun _ => mem_of_mem_sorted
  obtain ⟨hlower, hupper⟩ := checkExclusive_eq_ok.mp hmade.exclusive
  constructor
  case distinct =>
    have hdistinct := ((sublist_withoutSuppressed kept).map Constraint.keyword).nodup hmade.distinct
    exact ((perm_sortConstraints _).map _).nodup_iff.mpr hdistinct
  case ascending => exact hordered.imp Before.ascending
  case constant => exact hmade.constant
  case choice => exact hmade.choice
  case exclusive => exact ⟨fun h => hlower (h.imp (hsub ·) (hsub ·)), fun h => hupper (h.imp (hsub ·) (hsub ·))⟩
  case bounds => exact fun low hlow high hhigh => hmade.bounds (mem_of_mem_sorted hlow) (mem_of_mem_sorted hhigh)
  case counts => exact fun low hlow high hhigh => hmade.counts (mem_of_mem_sorted hlow) (mem_of_mem_sorted hhigh)
  case declaredCounts => exact fun low hlow high hhigh => hmade.declaredCounts hlow hhigh
  case scalars => exact fun c hc => hmade.scalar (mem_of_mem_sorted hc)
  case items => exact fun c hc => hmade.items (mem_of_mem_sorted hc)

/-! ### Declarations in another order -/

/-- What is declared in another order makes the same rule, or is refused as well; the constraints of a rule are orderly. -/
theorem orderly_whatever_order {ds es : List Declared} (h : ds.Perm es) (origin : Target) (args : List Rule)
    (before after : Option Hook) (onError : Option ErrorPolicy) :
    (∀ r, declare origin args ds before after onError = .ok r ↔ declare origin args es before after onError = .ok r) ∧
      ∀ r, declare origin args ds before after onError = .ok r → Orderly origin ds r.constraints := by
  have hdeclare (declared : List Declared) (r : Rule) : declare origin args declared before after onError = .ok r ↔
      ∃ cs, declareConstraints origin declared = .ok cs ∧ Rule.mk ⟨some origin, args, cs, none, before, after, onError⟩ = r := by
    rw [declare, bind_eq_ok]
    exact exists_congr fun cs => and_congr_right fun _ => ⟨fun h => by cases h; rfl, fun h => by rw [h]; rfl⟩
  refine ⟨fun r => ?_, fun r hr => ?_⟩
  · rw [hdeclare, hdeclare]
    exact exists_congr fun cs => and_congr_left fun _ => ⟨declareConstraints_of_perm h, declareConstraints_of_perm h.symm⟩
  · obtain ⟨cs, hcs, rfl⟩ := (hdeclare ds r).mp hr
    exact orderly_of_declareConstraints hcs

/-- Lengths, a pattern and a bound that is given as a number end up in the order of their keywords. -/
theorem orderly_whatever_order_of_text :
    let ds : List Declared := [.value .maxLength (.int 5) false, .value .minLength (.int 2) false, .pattern "^1",
      .value .ge (.int 10) true]
    let p : Pattern := (Pattern.ofString? "^1").get rfl
    let r : Rule := .mk ⟨some .str, [], [⟨.ge, .value (.str "10"), true⟩, ⟨.regex, .pattern p, false⟩,
      ⟨.minLength, .value (.int 2), false⟩, ⟨.maxLength, .value (.int 5), false⟩], none, none, none, none⟩
    ds.Perm ds.reverse ∧ declare .str [] ds none none none = .ok r ∧
      declare .str [] ds.reverse none none none = .ok r ∧ Orderly .str ds r.constraints := by
  intro ds p r
  have hperm : ds.Perm ds.reverse := ds.reverse_perm.symm
  have hr : declare .str [] ds none none none = .ok r := rfl
  obtain ⟨hsame, horderly⟩ := orderly_whatever_order hperm .str [] none none none
  exact ⟨hperm, hr, (hsame r).mp hr, horderly r hr⟩

end Conform.Rule

import Mathlib.Data.List.Forall2
import Mathlib.Data.List.Nodup
import Conform.Rule.Declaration

/-! What declared constraints agree on. A declaration that is not refused leaves constraints in the strict
    order of their keywords, no keyword occurring twice; a fixed value stands alone, of two bounds on one side
    there is one, and no length is asked for that is beyond the greatest one allowed. -/

namespace Conform.Rule

/-! ### Declarations that are not refused -/

section Declaring

variable {α β : Type}

theorem bind_eq_ok {x : Declaring α} {k : α → Declaring β} {b : β} :
    (x >>= k) = .ok b ↔ ∃ a, x = .ok a ∧ k a = .ok b := by
  cases x with
  | error e =>
    constructor
    · intro h
      cases h
    · rintro ⟨a, h, -⟩
      cases h
  | ok a =>
    constructor
    · exact fun h => ⟨a, rfl, h⟩
    · rintro ⟨_, hx, h⟩
      cases hx
      exact h

theorem guard_eq_ok {c : Prop} [Decidable c] {e : DeclarationError} {k : Unit → Declaring β} {b : β} :
    (if c then (.error e : Declaring Unit) >>= k else k ()) = .ok b ↔ ¬ c ∧ k () = .ok b := by
  by_cases h : c
  · rw [if_pos h]
    exact iff_of_false (fun hok => nomatch hok) fun hboth => hboth.1 h
  · rw [if_neg h]
    exact ⟨fun hok => ⟨h, hok⟩, And.right⟩

theorem seq_eq_ok {x : Declaring Unit} {k : Unit → Declaring β} {b : β} :
    (x >>= k) = .ok b ↔ x = .ok () ∧ k () = .ok b := by
  rw [bind_eq_ok]
  constructor
  · rintro ⟨⟨⟩, h⟩
    exact h
  · exact fun h => ⟨(), h⟩

/-- Each of a list is made into the one at its place. -/
theorem mapM_eq_ok {f : α → Declaring β} {xs : List α} :
    ∀ {ys : List β}, xs.mapM f = .ok ys ↔ List.Forall₂ (fun x y => f x = .ok y) xs ys := by
  induction xs with
  | nil =>
    intro ys
    rw [List.mapM_nil, List.forall₂_nil_left_iff]
    exact ⟨fun h => by cases h; rfl, fun h => h ▸ rfl⟩
  | cons x rest ih =>
    intro ys
    rw [List.mapM_cons, bind_eq_ok, List.forall₂_cons_left_iff]
    refine exists_congr fun y => ?_
    rw [bind_eq_ok]
    constructor
    · rintro ⟨hy, others, hothers, h⟩
      cases h
      exact ⟨others, hy, ih.mp hothers, rfl⟩
    · rintro ⟨others, hy, hothers, rfl⟩
      exact ⟨hy, others, ih.mpr hothers, rfl⟩

theorem mem_of_mapM {f : α → Declaring β} {xs : List α} {ys : List β} (h : xs.mapM f = .ok ys) :
    (∀ y ∈ ys, ∃ x ∈ xs, f x = .ok y) ∧ ∀ x ∈ xs, ∃ y ∈ ys, f x = .ok y := by
  rw [mapM_eq_ok] at h
  induction h with
  | nil => exact ⟨List.forall_mem_nil _, List.forall_mem_nil _⟩
  | cons hxy _ ih =>
    refine ⟨List.forall_mem_cons.mpr ⟨⟨_, List.mem_cons_self, hxy⟩, fun y hy => ?_⟩,
      List.forall_mem_cons.mpr ⟨⟨_, List.mem_cons_self, hxy⟩, fun x hx => ?_⟩⟩
    · obtain ⟨x, hx, heq⟩ := ih.1 y hy
      exact ⟨x, List.mem_cons_of_mem _ hx, heq⟩
    · obtain ⟨y, hy, heq⟩ := ih.2 x hx
      exact ⟨y, List.mem_cons_of_mem _ hy, heq⟩

end Declaring

/-! ### Order -/

theorem perm_insertConstraint (c : Constraint Rule) (cs : List (Constraint Rule)) :
    (insertConstraint c cs).Perm (c :: cs) := by
  induction cs with
  | nil => exact .refl _
  | cons d rest ih =>
    rw [insertConstraint]
    split
    · exact .refl _
    · exact (ih.cons d).trans (.swap c d rest)

/-- The order of keywords. -/
def Before (c d : Constraint Rule) : Prop := c.keyword.rank < d.keyword.rank

theorem pairwise_insertConstraint {c : Constraint Rule} {cs : List (Constraint Rule)}
    (hc : ∀ d ∈ cs, d.keyword ≠ c.keyword) (h : cs.Pairwise Before) : (insertConstraint c cs).Pairwise Before := by
  induction cs with
  | nil => exact List.pairwise_singleton _ c
  | cons d rest ih =>
    obtain ⟨hd, hrest⟩ := List.pairwise_cons.mp h
    obtain ⟨hne, hnone⟩ := List.forall_mem_cons.mp hc
    rw [insertConstraint]
    split
    case isTrue hlt =>
      refine List.pairwise_cons.mpr ⟨?_, h⟩
      intro e he
      rcases List.mem_cons.mp he with rfl | he
      · exact hlt
      · exact Nat.lt_trans hlt (hd e he)
    case isFalse hge =>
      refine List.pairwise_cons.mpr ⟨?_, ih hnone hrest⟩
      intro e he
      rcases List.mem_cons.mp ((perm_insertConstraint c rest).mem_iff.mp he) with rfl | he
      · exact Nat.lt_of_le_of_ne (Nat.not_lt.mp hge) fun heq => hne (Keyword.rank_injective heq)
      · exact hd e he

theorem perm_sortConstraints (cs : List (Constraint Rule)) : (sortConstraints cs).Perm cs := by
  suffices hfold : ∀ sorted : List (Constraint Rule),
      (cs.foldl (fun sorted c => insertConstraint c sorted) sorted).Perm (sorted ++ cs) from hfold []
  induction cs with
  | nil =>
    intro sorted
    rw [List.append_nil]
    exact .refl _
  | cons c rest ih =>
    intro sorted
    have hmoved : (insertConstraint c sorted ++ rest).Perm (sorted ++ c :: rest) :=
      ((perm_insertConstraint c sorted).append_right rest).trans List.perm_middle.symm
    exact (ih (insertConstraint c sorted)).trans hmoved

/-- Constraints of different keywords are put in the strict order of these. -/
theorem pairwise_sortConstraints {cs : List (Constraint Rule)} (h : (cs.map Constraint.keyword).Nodup) :
    (sortConstraints cs).Pairwise Before := by
  suffices hfold : ∀ sorted : List (Constraint Rule), sorted.Pairwise Before →
      ((sorted ++ cs).map Constraint.keyword).Nodup →
      (cs.foldl (fun sorted c => insertConstraint c sorted) sorted).Pairwise Before from
    hfold [] .nil h
  clear h
  induction cs with
  | nil => exact fun sorted hsorted _ => hsorted
  | cons c rest ih =>
    intro sorted hsorted hnodup
    have hperm : (insertConstraint c sorted ++ rest).Perm (sorted ++ c :: rest) :=
      ((perm_insertConstraint c sorted).append_right rest).trans List.perm_middle.symm
    have hnew : ∀ d ∈ sorted, d.keyword ≠ c.keyword := by
      intro d hd heq
      rw [List.map_append, List.map_cons] at hnodup
      refine (List.nodup_append.mp hnodup).2.2 _ (List.mem_map_of_mem hd) _ List.mem_cons_self heq
    exact ih (insertConstraint c sorted) (pairwise_insertConstraint hnew hsorted) ((hperm.map _).nodup_iff.mpr hnodup)

/-! ### Agreement -/

/-- What is declared passes if no keyword is declared twice, or was seen before. -/
theorem checkOnce_eq_ok {ds : List Declared} :
    ∀ {seen : List Keyword}, checkOnce seen ds = .ok () ↔ (ds.map Declared.keyword).Nodup ∧ ∀ d ∈ ds, d.keyword ∉ seen := by
  induction ds with
  | nil => exact fun {_} => iff_of_true rfl ⟨.nil, List.forall_mem_nil _⟩
  | cons d rest ih =>
    intro seen
    rw [checkOnce, List.map_cons, List.nodup_cons, List.forall_mem_cons]
    split
    case isTrue hseen => exact iff_of_false nofun fun h => h.2.1 (List.contains_iff_mem.mp hseen)
    case isFalse hnew =>
      have hunseen : d.keyword ∉ seen := by simpa using hnew
      rw [ih]
      constructor
      · rintro ⟨hnodup, hrest⟩
        refine ⟨⟨fun hmem => ?_, hnodup⟩, hunseen, fun e he hseen => hrest e he (List.mem_cons_of_mem _ hseen)⟩
        obtain ⟨e, he, heq⟩ := List.mem_map.mp hmem
        exact hrest e he (heq ▸ List.mem_cons_self)
      · rintro ⟨⟨hd, hnodup⟩, -, hrest⟩
        refine ⟨hnodup, fun e he hmem => ?_⟩
        rcases List.mem_cons.mp hmem with heq | hmem
        · exact hd (List.mem_map.mpr ⟨e, he, heq⟩)
        · exact hrest e he hmem

/-- A constraint comes from what was declared under its keyword. -/
theorem constraintOf_eq_ok {origin : Target} {d : Declared} {c : Constraint Rule} (h : constraintOf origin d = .ok c) :
    c.keyword = d.keyword ∧ operand origin d = .ok c.operand ∧ c.lax = d.isLax := by
  unfold constraintOf at h
  obtain ⟨-, h⟩ := guard_eq_ok.mp h
  obtain ⟨-, h⟩ := guard_eq_ok.mp h
  obtain ⟨o, ho, h⟩ := bind_eq_ok.mp h
  cases h
  exact ⟨rfl, ho, rfl⟩

theorem constraintOf_of_operand {origin : Target} {d : Declared} {o : Operand Rule}
    (hsupports : (origin.kind?.any fun k => !d.keyword.supports k) = false)
    (hlax : (d.isLax && !mends origin d.keyword) = false) (ho : operand origin d = .ok o) :
    constraintOf origin d = .ok ⟨d.keyword, o, d.isLax⟩ := by
  unfold constraintOf
  refine guard_eq_ok.mpr ⟨Bool.eq_false_iff.mp hsupports, guard_eq_ok.mpr ⟨Bool.eq_false_iff.mp hlax, ?_⟩⟩
  rw [ho]
  rfl

/-- A keyword is declared for kinds that it applies to. -/
theorem supports_of_constraintOf {origin : Target} {d : Declared} {c : Constraint Rule} {k : Kind}
    (h : constraintOf origin d = .ok c) (ht : origin.kind? = some k) : c.keyword.supports k = true := by
  rw [(constraintOf_eq_ok h).1]
  unfold constraintOf at h
  obtain ⟨hsupported, -⟩ := guard_eq_ok.mp h
  simpa [ht] using hsupported

/-- Each constraint is made of one thing that is declared, in the same order. -/
theorem keywords_of_mapM {origin : Target} {declared : List Declared} {cs : List (Constraint Rule)}
    (h : declared.mapM (constraintOf origin) = .ok cs) : cs.map Constraint.keyword = declared.map Declared.keyword := by
  rw [← List.forall₂_eq_eq_eq, List.forall₂_map_left_iff, List.forall₂_map_right_iff]
  exact ((mapM_eq_ok.mp h).imp fun _ _ hof => (constraintOf_eq_ok hof).1).flip

/-- A rule in a constraint is the one that was declared. -/
theorem eq_contains_of_operand {origin : Target} {d : Declared} {q : Rule} (h : operand origin d = .ok (.rule q)) :
    d = .contains q := by
  cases d with
  | contains r =>
    cases h
    rfl
  | pattern source =>
    rw [operand] at h
    split at h <;> cases h
  | value k v lax =>
    change (operandValue origin k v).map Operand.value = .ok (.rule q) at h
    cases hv : operandValue origin k v with
    | error e | ok w =>
      rw [hv] at h
      cases h

/-- A value is brought to the form in which it is compared. -/
theorem operand_value_eq_ok {origin : Target} {k : Keyword} {v : Value} {lax : Bool} {o : Operand Rule}
    (h : operand origin (.value k v lax) = .ok o) : ∃ w, operandValue origin k v = .ok w ∧ o = .value w := by
  change (operandValue origin k v).map Operand.value = .ok o at h
  cases hw : operandValue origin k v with
  | error e =>
    rw [hw] at h
    cases h
  | ok w =>
    rw [hw] at h
    cases h
    exact ⟨w, rfl, rfl⟩

/-- A value is brought to the origin by the standard converters. -/
theorem originValue_eq_ok {origin : Target} {k : Keyword} {v w : Value} :
    originValue origin k v = .ok w ↔ Registry.standard.convert ⟨false, false⟩ v origin = .ok w := by
  unfold originValue
  split
  next hconverted =>
    rw [hconverted]
    exact ⟨fun h => by cases h; rfl, fun h => by cases h; rfl⟩
  next hfailed => exact iff_of_false nofun (by rw [hfailed]; nofun)

/-- A bound and a constant are brought to the origin. -/
theorem convert_of_constraintOf {origin : Target} {d : Declared} {c : Constraint Rule} (h : constraintOf origin d = .ok c)
    (hk : c.keyword ∈ [.gt, .ge, .lt, .le, .const]) :
    ∃ u lax, d = .value c.keyword u lax ∧ c.operand = .value c.scalar ∧
      Registry.standard.convert ⟨false, false⟩ u origin = .ok c.scalar := by
  obtain ⟨hkeyword, hoperand, -⟩ := constraintOf_eq_ok h
  rw [hkeyword] at hk ⊢
  cases d with
  | pattern source => exact absurd hk (by change Keyword.regex ∉ _; decide)
  | contains q => exact absurd hk (by change Keyword.contains ∉ _; decide)
  | value k u lax =>
    obtain ⟨b, hb, hvalue⟩ := operand_value_eq_ok hoperand
    have hscalar : c.scalar = b := by rw [Constraint.scalar, hvalue]
    refine ⟨u, lax, rfl, by rw [hscalar, hvalue], ?_⟩
    have horigin : originValue origin k u = .ok b := by
      change k ∈ _ at hk
      simp only [List.mem_cons, List.not_mem_nil, or_false] at hk
      rcases hk with rfl | rfl | rfl | rfl | rfl <;> exact hb
    rw [hscalar]
    exact originValue_eq_ok.mp horigin

/-- The keywords that count. -/
def counting : List Keyword := [.decimalPlaces, .maxDigits, .length, .minLength, .maxLength, .minContains, .maxContains]

/-- A count is given by an integer, which is kept as it is. -/
theorem operand_of_count {origin : Target} {d : Declared} {o : Operand Rule} (h : operand origin d = .ok o)
    (hcount : d.keyword ∈ counting) : ∃ (i : Int64) (lax : Bool), d = .value d.keyword (.int i) lax ∧ o = .value (.int i) := by
  cases d with
  | pattern source => exact absurd hcount (by change Keyword.regex ∉ _; decide)
  | contains r => exact absurd hcount (by change Keyword.contains ∉ _; decide)
  | value k v lax =>
    obtain ⟨w, hw, rfl⟩ := operand_value_eq_ok h
    have hint : ∃ i : Int64, v = .int i ∧ w = .int i := by
      change k ∈ counting at hcount
      simp only [counting, List.mem_cons, List.not_mem_nil, or_false] at hcount
      rcases hcount with rfl | rfl | rfl | rfl | rfl | rfl | rfl <;> unfold operandValue at hw <;>
        simp only at hw <;> split at hw <;> try cases hw
      all_goals
        split at hw
        · cases hw
          exact ⟨_, rfl, rfl⟩
        · cases hw
    obtain ⟨i, rfl, rfl⟩ := hint
    exact ⟨i, lax, rfl, rfl⟩

/-- Among constraints of different keywords, the one of a keyword is found. -/
theorem find?_keyword_eq_some {cs : List (Constraint Rule)} (h : (cs.map Constraint.keyword).Nodup) {k : Keyword}
    {c : Constraint Rule} : cs.find? (·.keyword == k) = some c ↔ c ∈ cs ∧ c.keyword = k := by
  constructor
  · exact fun hfound => ⟨List.mem_of_find?_eq_some hfound, by simpa using List.find?_some hfound⟩
  · rintro ⟨hc, rfl⟩
    have hsome : (cs.find? (·.keyword == c.keyword)).isSome := List.find?_isSome.mpr ⟨c, hc, beq_self_eq_true _⟩
    obtain ⟨d, hd⟩ := Option.isSome_iff_exists.mp hsome
    have heq : d.keyword = c.keyword := by simpa using List.find?_some hd
    rw [hd, List.inj_on_of_nodup_map h (List.mem_of_find?_eq_some hd) hc heq]

theorem valueOf?_of_mem {cs : List (Constraint Rule)} (h : (cs.map Constraint.keyword).Nodup) {c : Constraint Rule}
    (hc : c ∈ cs) {v : Value} (hv : c.operand = .value v) : valueOf? cs c.keyword = some v := by
  rw [valueOf?, (find?_keyword_eq_some h).mpr ⟨hc, rfl⟩, Option.bind_some, hv]

theorem countOf?_of_mem {cs : List (Constraint Rule)} (h : (cs.map Constraint.keyword).Nodup) {c : Constraint Rule}
    (hc : c ∈ cs) {i : Int64} (hi : c.operand = .value (.int i)) : countOf? cs c.keyword = some i := by
  rw [countOf?, valueOf?_of_mem h hc hi]
  rfl

theorem le_of_checkCounts {cs : List (Constraint Rule)} (h : (cs.map Constraint.keyword).Nodup) {low high : Constraint Rule}
    (hlow : low ∈ cs) (hhigh : high ∈ cs) {m n : Int64} (hm : low.operand = .value (.int m))
    (hn : high.operand = .value (.int n)) {blamed : Keyword} {fault : OperandFault}
    (hcounts : checkCounts cs low.keyword high.keyword blamed fault = .ok ()) : m.toInt ≤ n.toInt := by
  rw [checkCounts, countOf?_of_mem h hlow hm, countOf?_of_mem h hhigh hn] at hcounts
  have hle : ¬ n < m := by
    intro hlt
    simp only [if_pos hlt] at hcounts
    cases hcounts
  rwa [Int64.lt_iff_toInt_lt, Int.not_lt] at hle

/-- The keywords of which the first asks for no more than the second. -/
def countedPairs : List (Keyword × Keyword) :=
  [(.minLength, .maxLength), (.length, .maxLength), (.minContains, .maxContains)]

theorem counting_of_countedPairs {low high : Keyword} (h : (low, high) ∈ countedPairs) : low ∈ counting ∧ high ∈ counting := by
  revert h
  cases low <;> cases high <;> decide

theorem le_of_checkAgreement {cs : List (Constraint Rule)} (h : (cs.map Constraint.keyword).Nodup)
    (hagree : checkAgreement cs = .ok ()) {low high : Constraint Rule} (hlow : low ∈ cs) (hhigh : high ∈ cs) {m n : Int64}
    (hm : low.operand = .value (.int m)) (hn : high.operand = .value (.int n))
    (hpair : (low.keyword, high.keyword) ∈ countedPairs) : m.toInt ≤ n.toInt := by
  unfold checkAgreement at hagree
  obtain ⟨_, -, hagree⟩ := bind_eq_ok.mp hagree
  obtain ⟨_, hmin, hagree⟩ := bind_eq_ok.mp hagree
  obtain ⟨_, -, hagree⟩ := bind_eq_ok.mp hagree
  obtain ⟨_, hexact, hagree⟩ := bind_eq_ok.mp hagree
  obtain ⟨_, -, hagree⟩ := bind_eq_ok.mp hagree
  obtain ⟨_, -, hagree⟩ := bind_eq_ok.mp hagree
  obtain ⟨_, -, hcontains⟩ := bind_eq_ok.mp hagree
  simp only [countedPairs, List.mem_cons, Prod.mk.injEq, List.not_mem_nil, or_false] at hpair
  rcases hpair with ⟨hl, hh⟩ | ⟨hl, hh⟩ | ⟨hl, hh⟩
  · exact le_of_checkCounts h hlow hhigh hm hn (by rw [hl, hh]; exact hmin)
  · exact le_of_checkCounts h hlow hhigh hm hn (by rw [hl, hh]; exact hexact)
  · exact le_of_checkCounts h hlow hhigh hm hn (by rw [hl, hh]; exact hcontains)

theorem count_le_count {low high : Constraint Rule} {m n : Int64} (hm : low.operand = .value (.int m))
    (hn : high.operand = .value (.int n)) (hle : m.toInt ≤ n.toInt) : low.count ≤ high.count := by
  rw [Constraint.count, Constraint.count, hm, hn]
  exact Int.toNat_le_toNat hle

/-- What holds of the constraints of one declaration. -/
structure Settled (cs : List (Constraint Rule)) : Prop where
  ordered : cs.Pairwise Before
  lower : ∀ c ∈ cs, ∀ d ∈ cs, c.keyword = .gt → d.keyword ≠ .ge
  upper : ∀ c ∈ cs, ∀ d ∈ cs, c.keyword = .lt → d.keyword ≠ .le
  alone : ∀ c ∈ cs, ∀ d ∈ cs, c.keyword = .const ∨ c.keyword = .enum → d.keyword = c.keyword
  lengths : ∀ c ∈ cs, ∀ d ∈ cs, c.keyword = .length ∨ c.keyword = .minLength → d.keyword = .maxLength →
    c.count ≤ d.count

theorem sublist_withoutSuppressed (cs : List (Constraint Rule)) : (withoutSuppressed cs).Sublist cs := by
  unfold withoutSuppressed
  split
  · exact List.filter_sublist
  · exact .refl cs

theorem keyword_of_mem_withoutSuppressed {cs : List (Constraint Rule)} {c d : Constraint Rule}
    (hc : c ∈ withoutSuppressed cs) (hd : d ∈ withoutSuppressed cs) (hfixed : c.keyword = .const ∨ c.keyword = .enum) :
    d.keyword = c.keyword := by
  unfold withoutSuppressed at hc hd
  split at hc
  case h_1 keep hkeep =>
    rw [hkeep] at hd
    have hck := beq_iff_eq.mp (List.mem_filter.mp hc).2
    have hdk := beq_iff_eq.mp (List.mem_filter.mp hd).2
    rw [hck, hdk]
  case h_2 hnone =>
    have hany : (cs.any (·.keyword == c.keyword)) = true := List.any_eq_true.mpr ⟨c, hc, beq_self_eq_true _⟩
    refine absurd hany (List.find?_eq_none.mp hnone c.keyword ?_)
    rcases hfixed with h | h <;> rw [h] <;> decide

theorem checkExclusive_eq_ok {keywords : List Keyword} : checkExclusive keywords = .ok () ↔
    ¬ (.gt ∈ keywords ∧ .ge ∈ keywords) ∧ ¬ (.lt ∈ keywords ∧ .le ∈ keywords) := by
  unfold checkExclusive
  rw [guard_eq_ok, Bool.and_eq_true, List.contains_iff_mem, List.contains_iff_mem]
  refine and_congr_right fun _ => ?_
  split
  case isTrue hboth => exact iff_of_false nofun (not_not.mpr (by simpa using hboth))
  case isFalse hnot => exact iff_of_true rfl (by simpa using hnot)

/-- Where nothing is fixed, every constraint is left. -/
theorem withoutSuppressed_eq {cs : List (Constraint Rule)} (h : ∀ c ∈ cs, c.keyword ≠ .const ∧ c.keyword ≠ .enum) :
    withoutSuppressed cs = cs := by
  have hnone (k : Keyword) (hk : k = .const ∨ k = .enum) : cs.any (·.keyword == k) = false := by
    rw [List.any_eq_false]
    intro c hc
    rw [beq_iff_eq]
    rcases hk with rfl | rfl
    · exact (h c hc).1
    · exact (h c hc).2
  unfold withoutSuppressed
  rw [List.find?_cons_of_neg (by rw [hnone _ (.inl rfl)]; exact Bool.false_ne_true),
    List.find?_cons_of_neg (by rw [hnone _ (.inr rfl)]; exact Bool.false_ne_true)]
  rfl

section Declared

variable {origin : Target} {declared : List Declared} {cs : List (Constraint Rule)}

/-- What is left where a declaration is not refused: the constraints that ask for something, without the suppressed ones. -/
theorem declareConstraints_eq_ok : declareConstraints origin declared = .ok cs ↔
    ∃ made, declared.mapM (constraintOf origin) = .ok made ∧
      cs = sortConstraints (withoutSuppressed (made.filter (!isVoid ·))) ∧ checkOnce [] declared = .ok () ∧
        checkExclusive (declared.map Declared.keyword) = .ok () ∧ checkAgreement (made.filter (!isVoid ·)) = .ok () := by
  unfold declareConstraints
  rw [seq_eq_ok, seq_eq_ok, bind_eq_ok]
  constructor
  · rintro ⟨honce, hexclusive, made, hmade, h⟩
    obtain ⟨hagree, h⟩ := seq_eq_ok.mp h
    cases h
    exact ⟨made, hmade, rfl, honce, hexclusive, hagree⟩
  · rintro ⟨made, hmade, rfl, honce, hexclusive, hagree⟩
    exact ⟨honce, hexclusive, made, hmade, seq_eq_ok.mpr ⟨hagree, rfl⟩⟩

/-- What holds of the constraints that are made of a declaration and ask for something. -/
structure Made (origin : Target) (declared : List Declared) (kept : List (Constraint Rule)) : Prop where
  distinct : (kept.map Constraint.keyword).Nodup
  exclusive : checkExclusive (kept.map Constraint.keyword) = .ok ()
  agreeing : checkAgreement kept = .ok ()
  source : ∀ c ∈ kept, ∃ d ∈ declared, constraintOf origin d = .ok c
  whole : ∀ d ∈ declared, d.keyword ≠ .uniqueItems → ∃ c ∈ kept, constraintOf origin d = .ok c

/-- A declaration that is not refused leaves the constraints that are not suppressed. -/
theorem made_of_declareConstraints (h : declareConstraints origin declared = .ok cs) :
    ∃ kept, Made origin declared kept ∧ cs = sortConstraints (withoutSuppressed kept) := by
  obtain ⟨made, hmade, rfl, honce, hexclusive, hagree⟩ := declareConstraints_eq_ok.mp h
  obtain ⟨hfrom, hinto⟩ := mem_of_mapM hmade
  have hkept : ((made.filter (!isVoid ·)).map Constraint.keyword).Sublist (declared.map Declared.keyword) :=
    keywords_of_mapM hmade ▸ List.filter_sublist.map _
  refine ⟨made.filter (!isVoid ·), ⟨hkept.nodup (checkOnce_eq_ok.mp honce).1, ?_, hagree, ?_, ?_⟩, rfl⟩
  · obtain ⟨hlower, hupper⟩ := checkExclusive_eq_ok.mp hexclusive
    exact checkExclusive_eq_ok.mpr ⟨fun h => hlower (h.imp (hkept.subset ·) (hkept.subset ·)),
      fun h => hupper (h.imp (hkept.subset ·) (hkept.subset ·))⟩
  · exact fun c hc => hfrom c (List.mem_of_mem_filter hc)
  · intro d hd hunique
    obtain ⟨c, hc, hof⟩ := hinto d hd
    refine ⟨c, List.mem_filter.mpr ⟨hc, ?_⟩, hof⟩
    unfold isVoid
    split
    · exact absurd (constraintOf_eq_ok hof).1.symm hunique
    · rfl

/-- What is counted is given by integers, of which the lower is no greater. -/
theorem Made.counts {kept : List (Constraint Rule)} (h : Made origin declared kept) {low high : Constraint Rule}
    (hlow : low ∈ kept) (hhigh : high ∈ kept) (hpair : (low.keyword, high.keyword) ∈ countedPairs) :
    ∃ m n : Int64, low.operand = .value (.int m) ∧ high.operand = .value (.int n) ∧ m.toInt ≤ n.toInt := by
  have hint (c : Constraint Rule) (hc : c ∈ kept) (hcount : c.keyword ∈ counting) :
      ∃ i : Int64, c.operand = .value (.int i) := by
    obtain ⟨d, -, hof⟩ := h.source c hc
    obtain ⟨hkeyword, hoperand, -⟩ := constraintOf_eq_ok hof
    obtain ⟨i, -, -, hi⟩ := operand_of_count hoperand (hkeyword ▸ hcount)
    exact ⟨i, hi⟩
  obtain ⟨m, hm⟩ := hint low hlow (counting_of_countedPairs hpair).1
  obtain ⟨n, hn⟩ := hint high hhigh (counting_of_countedPairs hpair).2
  exact ⟨m, n, hm, hn, le_of_checkAgreement h.distinct h.agreeing hlow hhigh hm hn hpair⟩

/-- What is left was kept. -/
theorem mem_of_mem_sorted {kept : List (Constraint Rule)} {c : Constraint Rule}
    (hc : c ∈ sortConstraints (withoutSuppressed kept)) : c ∈ kept :=
  (sublist_withoutSuppressed kept).subset ((perm_sortConstraints _).mem_iff.mp hc)

/-- No constraint is left that was not declared. -/
theorem exists_of_declareConstraints (h : declareConstraints origin declared = .ok cs) :
    ∀ c ∈ cs, ∃ d ∈ declared, constraintOf origin d = .ok c := by
  obtain ⟨kept, hmade, rfl⟩ := made_of_declareConstraints h
  exact fun c hc => hmade.source c (mem_of_mem_sorted hc)

/-- Beside no fixed value and no choice of values, everything that is declared is left, unless it asks for nothing. -/
theorem exists_of_mem_declared (h : declareConstraints origin declared = .ok cs)
    (hfixed : ∀ d ∈ declared, d.keyword ≠ .const ∧ d.keyword ≠ .enum) {d : Declared} (hd : d ∈ declared)
    (hunique : d.keyword ≠ .uniqueItems) : ∃ c ∈ cs, constraintOf origin d = .ok c := by
  obtain ⟨kept, hmade, rfl⟩ := made_of_declareConstraints h
  obtain ⟨c, hc, hof⟩ := hmade.whole d hd hunique
  rw [withoutSuppressed_eq]
  · exact ⟨c, (perm_sortConstraints _).mem_iff.mpr hc, hof⟩
  · intro e he
    obtain ⟨d', hd', hof'⟩ := hmade.source e he
    rw [(constraintOf_eq_ok hof').1]
    exact hfixed d' hd'

/-- What is declared without a fault is settled. -/
theorem settled_of_declareConstraints (h : declareConstraints origin declared = .ok cs) : Settled cs := by
  obtain ⟨kept, hmade, rfl⟩ := made_of_declareConstraints h
  obtain ⟨hlower, hupper⟩ := checkExclusive_eq_ok.mp hmade.exclusive
  have hperm := perm_sortConstraints (withoutSuppressed kept)
  have hkeyword (c : Constraint Rule) (hc : c ∈ sortConstraints (withoutSuppressed kept)) :
      c.keyword ∈ kept.map Constraint.keyword := List.mem_map_of_mem (mem_of_mem_sorted hc)
  refine ⟨?_, ?_, ?_, ?_, ?_⟩
  · exact pairwise_sortConstraints (((sublist_withoutSuppressed kept).map _).nodup hmade.distinct)
  · intro c hc d hd hgt hge
    exact hlower ⟨hgt ▸ hkeyword c hc, hge ▸ hkeyword d hd⟩
  · intro c hc d hd hlt hle
    exact hupper ⟨hlt ▸ hkeyword c hc, hle ▸ hkeyword d hd⟩
  · intro c hc d hd hfixed
    exact keyword_of_mem_withoutSuppressed (hperm.mem_iff.mp hc) (hperm.mem_iff.mp hd) hfixed
  · intro c hc d hd hlow hhigh
    have hpair : (c.keyword, d.keyword) ∈ countedPairs := by rcases hlow with h | h <;> rw [h, hhigh] <;> decide
    obtain ⟨m, n, hm, hn, hle⟩ := hmade.counts (mem_of_mem_sorted hc) (mem_of_mem_sorted hd) hpair
    exact count_le_count hm hn hle

end Declared

/-- A declared rule has settled constraints, and the last hook that it was declared with. -/
theorem settled_of_declare {origin : Target} {args : List Rule} {declared : List Declared} {before after : Option Hook}
    {onError : Option ErrorPolicy} {r : Rule} (h : declare origin args declared before after onError = .ok r) :
    Settled r.constraints ∧ r.layer.after = after := by
  obtain ⟨cs, hcs, hr⟩ := bind_eq_ok.mp h
  cases hr
  exact ⟨settled_of_declareConstraints hcs, rfl⟩

end Conform.Rule

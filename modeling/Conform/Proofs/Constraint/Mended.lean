import Conform.Constraint

/-! What a lax constraint puts in the place of a value. A number that is shortened has places to lose and loses
    some, a text that is cut does not come later in the order, and a list without its repetitions is a part of
    itself; where a constraint is strict, nothing is put in the place of a value. -/

namespace Conform

/-! ### Decimals -/

namespace Decimal

variable {d : Decimal}

theorem scale_of_make? {negative : Bool} {mantissa scale : Nat} {e : Decimal} (h : make? negative mantissa scale = some e) :
    e.scale = scale := by
  unfold make? at h
  split at h
  · cases h
    rfl
  · cases h

/-- Trailing zeros are dropped and none is added. -/
theorem scale_normalized_le (d : Decimal) : d.normalized.scale ≤ d.scale := by
  unfold normalized
  split
  · exact Nat.zero_le _
  · simp only
    cases h : make? d.negative (d.mantissa / tenTo (Digits.dropZeros d.scale d.mantissa).2)
        (d.scale - (Digits.dropZeros d.scale d.mantissa).2) with
    | none => exact Nat.le_refl _
    | some e =>
      rw [Option.getD_some, scale_of_make? h]
      exact Nat.sub_le _ _

theorem divide_le (r : Rounding) (n m : Nat) : r.divide n m ≤ n / m + 1 := by
  have hparity : n / m % 2 ≤ 1 := Nat.le_of_lt_succ (Nat.mod_lt _ Nat.two_pos)
  unfold Rounding.divide
  split
  · exact Nat.le_succ _
  · split
    · exact Nat.le_succ _
    · split
      · exact Nat.add_le_add_left hparity _
      · exact Nat.le_refl _
  · split
    · exact Nat.le_succ _
    · exact Nat.le_refl _

/-- Fewer places leave room for the carry, so rounding never has to give up. -/
theorem exists_roundTo (r : Rounding) {places : Nat} {d : Decimal} (h : places < d.scale) : ∃ e, d.roundTo r places = e ∧
    unsignedZero? d.negative (r.divide d.mantissa (tenTo (d.scale - places))) places = some e := by
  have hone : 1 ≤ d.scale - places := by omega
  have hdrop : 10 ≤ tenTo (d.scale - places) := Nat.pow_le_pow_right (n := 10) (by decide) hone
  have hquotient : d.mantissa / tenTo (d.scale - places) ≤ d.mantissa / 10 := Nat.div_le_div_left hdrop (by decide)
  have hmantissa : r.divide d.mantissa (tenTo (d.scale - places)) < twoTo 96 := by
    have hle := divide_le r d.mantissa (tenTo (d.scale - places))
    have hlt := d.mantissa_lt
    have hbig : 2 ≤ twoTo 96 := by decide
    omega
  have hscale : places ≤ 28 := Nat.le_trans (Nat.le_of_lt h) d.scale_le
  rw [roundTo, if_neg (Nat.not_le_of_lt h), unsignedZero?, make?, dif_pos ⟨hmantissa, hscale⟩]
  exact ⟨_, rfl, rfl⟩

theorem scale_roundTo_le (r : Rounding) (places : Nat) (d : Decimal) : (d.roundTo r places).scale ≤ places := by
  obtain hlt | hle := Nat.lt_or_ge places d.scale
  · obtain ⟨e, hround, he⟩ := exists_roundTo r hlt
    rw [hround]
    exact Nat.le_of_eq (scale_of_make? he)
  · rwa [roundTo, if_pos hle]

end Decimal

/-! ### Values -/

namespace Value

variable {v b : Value} {d : Decimal}

/-- A number or a truth value has no size. -/
theorem size?_eq_none_of_toDecimal? (h : v.toDecimal? = some d) : v.size? = none := by
  cases v <;> first | rfl | cases h

theorem size?_of_items? {items : List Value} (h : v.items? = some items) : v.size? = some items.length := by
  cases v with
  | list | tuple | set =>
    obtain rfl := Option.some.inj h
    rfl
  | _ => cases h

/-- What has places behind the point is a float or a decimal. -/
theorem kind_of_places (h : v.toDecimal? = some d) (hplaces : 0 < d.digitCounts.2) :
    v.kind = .float ∨ v.kind = .decimal := by
  have whole (i : Int) (hd : Decimal.ofInt i = d) : d.digitCounts.2 = 0 := by
    have hscale : (Decimal.ofInt i).scale = 0 := by
      unfold Decimal.ofInt
      split <;> rfl
    have hle := Decimal.scale_normalized_le d
    rw [← hd, hscale] at hle
    rw [← hd]
    exact Nat.le_zero.mp hle
  cases v with
  | float x => exact .inl rfl
  | decimal e => exact .inr rfl
  | int i => exact absurd (whole _ (Option.some.inj h)) (Nat.pos_iff_ne_zero.mp hplaces)
  | bool x => exact absurd (whole _ (Option.some.inj h)) (Nat.pos_iff_ne_zero.mp hplaces)
  | _ => cases h

theorem compareBytes_take : ∀ {bs cs : List UInt8}, compareBytes bs cs ≠ .gt → ∀ n,
    compareBytes (bs.take n) cs = compareBytes bs cs ∨ compareBytes (bs.take n) cs = .lt
  | [], _, _, n => by
    rw [List.take_nil]
    exact .inl rfl
  | _ :: _, [], h, _ => absurd rfl h
  | b :: bs, c :: cs, h, 0 => .inr rfl
  | b :: bs, c :: cs, h, n + 1 => by
    rw [List.take_succ_cons]
    simp only [compareBytes] at h ⊢
    cases hfirst : Ord.compare b.toNat c.toNat with
    | lt => exact .inl rfl
    | gt =>
      rw [hfirst] at h
      exact absurd rfl h
    | eq =>
      rw [hfirst] at h
      exact compareBytes_take h n

theorem compare_take {s t : String} (h : Ord.compare s t ≠ .gt) (n : Nat) :
    Ord.compare (String.ofList (s.toList.take n)) t = Ord.compare s t ∨
      Ord.compare (String.ofList (s.toList.take n)) t = .lt := by
  have hprefix : String.ofList (s.toList.take n) ≤ s := by
    have hlist := (List.take_prefix n s.toList).le
    rw [← String.toList_ofList (l := s.toList.take n)] at hlist
    exact hlist
  have hcompare (x y : String) : Ord.compare x y = if x < y then .lt else if x = y then .eq else .gt := rfl
  by_cases hlt : s < t
  · right
    rw [hcompare, if_pos (Std.lt_of_le_of_lt hprefix hlt)]
  · by_cases heq : s = t
    · subst heq
      by_cases hsame : String.ofList (s.toList.take n) = s
      · exact .inl (congrArg (Ord.compare · s) hsame)
      · right
        rw [hcompare, if_pos (Std.lt_of_le_of_ne hprefix hsame)]
    · rw [hcompare, if_neg hlt, if_neg heq] at h
      exact absurd rfl h

/-- What a text or bytes begin with does not come later in the order. -/
theorem compare?_truncated {o : Ordering} (h : v.compare? b = some o) (ho : o ≠ .gt) (hsize : v.size?.isSome) (n : Nat) :
    (Constraint.truncated n v).compare? b = some o ∨ (Constraint.truncated n v).compare? b = some .lt := by
  unfold compare? at h ⊢
  generalize b.stored = b at h ⊢
  cases v with
  | str s =>
    cases b with
    | str t =>
      obtain rfl : Ord.compare s t = o := Option.some.inj h
      exact (compare_take ho n).imp (congrArg some) (congrArg some)
    | _ => simp [stored, comparePlain?, toDecimal?, toBinary64?] at h
  | bytes bs =>
    cases b with
    | bytes cs =>
      obtain rfl : compareBytes bs cs = o := Option.some.inj h
      exact (compareBytes_take ho n).imp (congrArg some) (congrArg some)
    | _ => simp [stored, comparePlain?, toDecimal?, toBinary64?] at h
  | list | tuple | set | map => cases b <;> simp [stored, comparePlain?, toDecimal?, toBinary64?] at h
  | _ => cases hsize

/-- What is left of a list without its repetitions, in the same order. -/
theorem distinct_sublist (items : List Value) : (distinct items).Sublist items := by
  suffices h : ∀ kept : List Value, (items.foldl insertItem kept).Sublist (kept ++ items) from h []
  induction items with
  | nil =>
    intro kept
    rw [List.append_nil]
    exact .refl kept
  | cons v rest ih =>
    intro kept
    rw [List.foldl_cons]
    refine (ih (insertItem kept v)).trans ?_
    unfold insertItem
    split
    · exact (List.sublist_cons_self v rest).append_left kept
    · exact List.append_assoc kept [v] rest ▸ .refl _

end Value

/-! ### Verdicts -/

namespace Verdict

variable {complies lax : Bool} {nearest : Option Value}

@[simp] theorem decide_eq_kept : decide complies lax nearest = .kept ↔ complies = true := by
  cases complies <;> cases lax <;> cases nearest <;> simp [decide]

@[simp] theorem decide_eq_replaced {u : Value} :
    decide complies lax nearest = .replaced u ↔ complies = false ∧ lax = true ∧ nearest = some u := by
  cases complies <;> cases lax <;> cases nearest <;> simp [decide]

end Verdict

namespace Constraint

variable {keyword : Keyword} {lax : Bool} {n count : Nat} {v u b : Value}

theorem checkBound_eq_kept :
    checkBound keyword lax b v = .kept ↔ ∃ o, v.compare? b = some o ∧ within keyword o = true := by
  unfold checkBound
  cases v.compare? b with
  | none => simp
  | some o => simp

/-- What is no float is divided as a decimal. -/
theorem checkMultiple_eq (hkind : v.kind ≠ .float) : checkMultiple lax b v =
    match v.toDecimal?, b.toDecimal? with
    | some d, some m =>
      .decide (m.isZero || d.isMultipleOf m) lax
        (do (((← d.div? m).roundTo .halfAway 0).mul? m).map (likeKind v))
    | _, _ => .violated := by
  cases v with
  | float => exact absurd rfl hkind
  | _ => rfl

/-- A number keeps its kind where it is a float or a decimal. -/
theorem kind_likeKind (h : v.kind = .float ∨ v.kind = .decimal) (d : Decimal) : (likeKind v d).kind = v.kind := by
  cases v with
  | float | decimal => rfl
  | _ => rcases h with h | h <;> cases h

/-- What is replaced has more places than there is room for, and keeps as many as there is. -/
theorem checkPrecision_eq_replaced (h : checkPrecision keyword lax count v = .replaced u) :
    ∃ d places, v.toDecimal? = some d ∧ places < d.digitCounts.2 ∧
      (if keyword = .decimalPlaces then places else d.digitCounts.1 - d.digitCounts.2 + places) = count % twoTo 32 ∧
      u = likeKind v (shortened keyword (count % twoTo 32) places d) := by
  unfold checkPrecision at h
  cases hd : v.toDecimal? with
  | none =>
    rw [hd] at h
    cases h
  | some d =>
    rw [hd] at h
    have hplaces : d.digitCounts.2 ≤ d.digitCounts.1 := Nat.le_max_right _ _
    simp only at h
    split at h
    case isTrue hkeyword =>
      obtain ⟨hmany, -, hu⟩ := Verdict.decide_eq_replaced.mp h
      exact ⟨d, _, rfl, Nat.not_le.mp (of_decide_eq_false hmany), if_pos hkeyword, (Option.some.inj hu).symm⟩
    case isFalse hkeyword =>
      obtain ⟨hmany, -, hu⟩ := Verdict.decide_eq_replaced.mp h
      have hmany := of_decide_eq_false hmany
      split at hu
      case isTrue => cases hu
      case isFalse hroom =>
        refine ⟨d, _, rfl, by omega, ?_, (Option.some.inj hu).symm⟩
        rw [if_neg hkeyword]
        omega

theorem checkPrecision_places :
    checkPrecision .decimalPlaces lax count v = .kept ↔
      ∃ d, v.toDecimal? = some d ∧ d.digitCounts.2 ≤ count % twoTo 32 := by
  unfold checkPrecision
  cases v.toDecimal? with
  | none => simp
  | some d => simp

theorem checkPrecision_digits :
    checkPrecision .maxDigits lax count v = .kept ↔
      ∃ d, v.toDecimal? = some d ∧ d.digitCounts.1 ≤ count % twoTo 32 := by
  unfold checkPrecision
  cases v.toDecimal? with
  | none => simp
  | some d => simp

/-- A number that was shortened has no more places than it was shortened to. -/
theorem places_shortened_le (keyword : Keyword) (limit places : Nat) (d : Decimal) :
    (shortened keyword limit places d).digitCounts.2 ≤ places := by
  have hrounded (r : Rounding) : (d.roundTo r places).normalized.digitCounts.2 ≤ places :=
    calc (d.roundTo r places).normalized.normalized.scale
      _ ≤ (d.roundTo r places).normalized.scale := Decimal.scale_normalized_le _
      _ ≤ (d.roundTo r places).scale := Decimal.scale_normalized_le _
      _ ≤ places := Decimal.scale_roundTo_le r places d
  unfold shortened
  simp only
  split
  · exact hrounded .down
  · exact hrounded .halfAway

theorem checkLength_eq_replaced (h : checkLength keyword lax n v = .replaced u) :
    ∃ m, v.size? = some m ∧ n < m ∧ u = truncated n v ∧ keyword ≠ .minLength := by
  unfold checkLength at h
  cases hm : v.size? with
  | none =>
    rw [hm] at h
    cases h
  | some m =>
    rw [hm] at h
    obtain ⟨hviolated, -, hu⟩ := Verdict.decide_eq_replaced.mp h
    split at hu
    case isFalse => cases hu
    case isTrue hlong =>
      refine ⟨m, rfl, hlong, (Option.some.inj hu).symm, ?_⟩
      rintro rfl
      exact of_decide_eq_false hviolated (Nat.le_of_lt hlong)

theorem size?_truncated {m : Nat} (h : v.size? = some m) (hle : n ≤ m) : (truncated n v).size? = some n := by
  cases v with
  | str s =>
    obtain rfl := Option.some.inj h
    refine congrArg some ?_
    rw [String.length_ofList, List.length_take, String.length_toList, Nat.min_eq_left hle]
  | bytes | list | tuple | set | map =>
    obtain rfl := Option.some.inj h
    simp [truncated, Value.size?, Nat.min_eq_left hle]
  | _ => cases h

/-- Only a list and a tuple lose items that occur twice. -/
theorem checkUnique_eq_replaced (h : checkUnique lax v = .replaced u) :
    ∃ items, v.items? = some items ∧ u.items? = some (Value.distinct items) ∧ u.kind = v.kind ∧
      (u.kind = .list ∨ u.kind = .tuple) := by
  cases v with
  | list items =>
    obtain ⟨-, -, hu⟩ := Verdict.decide_eq_replaced.mp h
    obtain rfl := Option.some.inj hu
    exact ⟨items, rfl, rfl, rfl, .inl rfl⟩
  | tuple items =>
    obtain ⟨-, -, hu⟩ := Verdict.decide_eq_replaced.mp h
    obtain rfl := Option.some.inj hu
    exact ⟨items, rfl, rfl, rfl, .inr rfl⟩
  | _ => cases h

end Constraint

end Conform

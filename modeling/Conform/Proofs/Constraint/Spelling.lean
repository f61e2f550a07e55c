import Conform.Proofs.Numeric.Spelling
import Conform.Proofs.Value.Spelling

/-! Constraints and spellings. A comparison comes to the same verdict whichever of two equal values it compares with, and a
    constraint may be such that it judges equal values alike. Where a value is replaced, what is put in its place shows how
    the compared value is spelled. Not all constraints are such: the first members of a set depend on their order, and whether
    a number is found to be a multiple depends on how its factor is spelled, if that is long. -/

namespace Conform

/-! ### How differently values are spelled -/

namespace Value

variable {v w : Value} {us ws : List Value}

/-- Values that agree part by part, each at its place, as do their beginnings. -/
def Placed (v w : Value) : Prop := ∀ n, (Constraint.truncated n v).Agrees (Constraint.truncated n w)

namespace Placed

theorem refl (v : Value) : Placed v v := fun _ => .refl _

theorem agrees (h : Placed v w) : v.Agrees w := by
  have hwhole {n : Nat} (v : Value) (hn : v.size?.getD 0 ≤ n) : Constraint.truncated n v = v := by
    cases v with
    | str s => rw [Constraint.truncated, List.take_of_length_le hn, String.ofList_toList]
    | bytes | list | tuple | set | map => exact congrArg _ (List.take_of_length_le hn)
    | _ => rfl
  have hall := h (max (v.size?.getD 0) (w.size?.getD 0))
  rwa [hwhole v (Nat.le_max_left ..), hwhole w (Nat.le_max_right ..)] at hall

theorem truncated (h : Placed v w) (n : Nat) : Placed (Constraint.truncated n v) (Constraint.truncated n w) := by
  have htwice (m : Nat) (v : Value) : Constraint.truncated m (Constraint.truncated n v) = Constraint.truncated (min m n) v := by
    cases v with
    | str s => simp [Constraint.truncated, List.take_take]
    | bytes | list | tuple | set | map => exact congrArg _ List.take_take
    | _ => rfl
  intro m
  rw [htwice, htwice]
  exact h _

end Placed

section Parts

variable (h : List.Forall₂ Agrees us ws)

include h

theorem placed_list : Placed (.list us) (.list ws) := fun n =>
  have htake := List.forall₂_take n h
  .list htake.length_eq fun _ hp => List.forall₂_zip htake hp

theorem placed_tuple : Placed (.tuple us) (.tuple ws) := fun n =>
  have htake := List.forall₂_take n h
  .tuple htake.length_eq fun _ hp => List.forall₂_zip htake hp

theorem placed_set : Placed (.set us) (.set ws) := fun n =>
  have htake := List.forall₂_take n h
  .set htake.length_eq fun _ hp => List.forall₂_zip htake hp

end Parts

theorem placed_map {es fs : List (Value × Value)} (h : List.Forall₂ (fun e f => e.1.Agrees f.1 ∧ e.2.Agrees f.2) es fs) :
    Placed (.map es) (.map fs) := fun n =>
  have htake := List.forall₂_take n h
  .map htake.length_eq (fun _ hp => (List.forall₂_zip htake hp).1) fun _ hp => (List.forall₂_zip htake hp).2

/-- Only sets and maps may be spelled in another order. -/
theorem Agrees.placed (h : v.Agrees w) (hset : v.kind ≠ .set) (hmap : v.kind ≠ .map) : v.Placed w := by
  have hkind := h.kind_eq
  cases v with
  | str | bytes =>
    rw [← h.eq_of_isText rfl]
    exact .refl _
  | list =>
    obtain ⟨ws, rfl, hitems⟩ := h.items
    exact placed_list hitems
  | tuple =>
    obtain ⟨ws, rfl, hitems⟩ := h.positions
    exact placed_tuple hitems
  | set => exact absurd rfl hset
  | map => exact absurd rfl hmap
  | _ =>
    intro n
    cases w <;> first | exact h | cases hkind

end Value

/-- How differently a value may be spelled: not at all, in its parts, each at its place, or as a whole, in another order, too. -/
inductive Leeway
  | none
  | parts
  | whole
deriving DecidableEq

namespace Leeway

def rank : Leeway → Nat
  | none => 0
  | parts => 1
  | whole => 2

instance : LinearOrder Leeway := .lift' rank fun a b h => by cases a <;> cases b <;> first | rfl | cases h

theorem none_le (a : Leeway) : none ≤ a := Nat.zero_le _

theorem le_none {a : Leeway} (h : a ≤ none) : a = none := le_antisymm h (none_le a)

theorem le_whole (a : Leeway) : a ≤ whole := by cases a <;> decide

/-- The leeway between containers between whose parts there is some. -/
def around : Leeway → Leeway
  | none => none
  | _ => parts

end Leeway

/-- How close values are between which there is some leeway. -/
def Value.Close : Leeway → Value → Value → Prop
  | .none => Eq
  | .parts => Placed
  | .whole => Agrees

namespace Value

variable {a b : Leeway} {v w : Value}

theorem Close.refl (a : Leeway) (v : Value) : Close a v v := by
  cases a with
  | none => rfl
  | parts => exact Placed.refl v
  | whole => exact Agrees.refl v

theorem Close.agrees (h : Close a v w) : v.Agrees w := by
  cases a with
  | none =>
    cases h
    exact .refl v
  | parts => exact Placed.agrees h
  | whole => exact h

theorem Close.mono (hab : a ≤ b) (h : Close a v w) : Close b v w := by
  cases a with
  | none =>
    cases h
    exact .refl b v
  | whole =>
    obtain rfl := le_antisymm hab (Leeway.le_whole b)
    exact h
  | parts =>
    cases b with
    | none => cases Leeway.le_none hab
    | parts => exact h
    | whole => exact Placed.agrees h

theorem Placed.close (h : v.Placed w) (ha : a ≠ .none) : Close a v w := by
  cases a with
  | none => exact absurd rfl ha
  | parts => exact h
  | whole => exact h.agrees

end Value

/-! ### Verdicts -/

/-- The same verdict on both sides, with related values in the place of what is judged. -/
inductive Verdict.Parallel (S : Value → Value → Prop) : Verdict → Verdict → Prop
  | kept : Parallel S .kept .kept
  | replaced {v w : Value} (h : S v w) : Parallel S (.replaced v) (.replaced w)
  | violated : Parallel S .violated .violated

/-- A keyword that compares the value with another one. -/
def Keyword.compares : Keyword → Bool
  | .gt | .ge | .lt | .le | .const | .enum => true
  | _ => false

/-- A constraint that judges values alike between which there is some leeway, and leaves no more between them. -/
def Constraint.tolerates {ρ : Type} (c : Constraint ρ) : Leeway → Bool
  | .none => true
  | .parts => c.keyword != .contains
  | .whole => match c.keyword with
    | .contains => false
    | .length | .minLength | .maxLength => !c.lax
    | _ => true

/-- Two spellings of a factor that numbers are divided by alike: a float, or a decimal that stands for one float and is short in
    both spellings. -/
inductive Value.DividesAlike : Value → Value → Prop
  | float {x y : Binary64} (h : x.same y = true) : DividesAlike (.float x) (.float y)
  | decimal {d e : Decimal} (hvalue : d.value = e.value) (hfloat : d.toBinary64.same e.toBinary64 = true) (hd : d.mantissa < twoTo 64)
      (he : e.mantissa < twoTo 64) : DividesAlike (.decimal d) (.decimal e)

theorem Value.DividesAlike.agrees {u w : Value} (h : u.DividesAlike w) : u.Agrees w := by
  cases h with
  | float h => exact .respelled ⟨.scalar rfl, .scalar rfl, float_same_iff.mpr ⟨_, rfl, Binary64.same_iff.mp h⟩⟩
  | decimal hvalue => exact .respelled ⟨.scalar rfl, .scalar rfl, decimal_same_iff.mpr ⟨_, rfl, hvalue⟩⟩

section Verdicts

variable {S : Value → Value → Prop} {keyword : Keyword} {u w v v' : Value} {lax : Bool}

theorem Verdict.Parallel.mono {T : Value → Value → Prop} {x y : Verdict} (h : Parallel S x y) (hST : ∀ v w, S v w → T v w) :
    Parallel T x y := by
  cases h with
  | kept => exact .kept
  | replaced h => exact .replaced (hST _ _ h)
  | violated => exact .violated

theorem Verdict.Parallel.refl (hS : ∀ v, S v v) (x : Verdict) : Parallel S x x := by
  cases x with
  | kept => exact .kept
  | replaced v => exact .replaced (hS v)
  | violated => exact .violated

theorem Verdict.parallel_decide {complies : Bool} {m n : Option Value} (h : lax = true → Option.Rel S m n) :
    Parallel S (decide complies lax m) (decide complies lax n) := by
  cases complies with
  | true => exact .kept
  | false =>
    cases lax with
    | false => exact .violated
    | true =>
      cases h rfl with
      | none => exact .violated
      | some hvw => exact .replaced hvw

namespace Constraint

section Comparisons

variable (hS : ∀ v, S v v) (hv : v.Agrees v') (huw : u.Agrees w)
  (hlax : lax = true → S u w ∧ (keyword.isOpenBound = true → u = w))

include hS hv huw hlax

theorem parallel_checkBound (hbound : keyword = .gt ∨ keyword = .ge ∨ keyword = .lt ∨ keyword = .le) :
    Verdict.Parallel S (checkBound keyword lax u v) (checkBound keyword lax w v') := by
  rw [checkBound, checkBound, hv.compare? huw]
  cases v'.compare? w with
  | none => exact .violated
  | some o =>
    refine Verdict.parallel_decide fun h => ?_
    obtain ⟨hreplaced, hopen⟩ := hlax h
    -- The step beyond an open bound starts from its spelling.
    obtain rfl | rfl | rfl | rfl := hbound
    · obtain rfl := hopen rfl
      exact Value.rel_self hS _
    · exact .some hreplaced
    · obtain rfl := hopen rfl
      exact Value.rel_self hS _
    · exact .some hreplaced

omit hS in
theorem parallel_checkConst : Verdict.Parallel S (checkConst lax u v) (checkConst lax w v') := by
  rw [checkConst, checkConst, hv.equivalent huw]
  exact Verdict.parallel_decide fun h => .some (hlax h).1

omit hS hlax in
theorem parallel_checkEnum : Verdict.Parallel S (checkEnum u v) (checkEnum w v') := by
  have hkind := huw.kind_eq
  cases u with
  | list us =>
    obtain ⟨ws, rfl, hitems⟩ := huw.items
    rw [checkEnum, checkEnum, hv.any_equivalent hitems]
    exact Verdict.parallel_decide nofun
  | _ =>
    cases w with
    | list ws => cases hkind
    | _ => exact .violated

end Comparisons

/-- Comparisons with equal values come to the same verdict. -/
theorem parallel_verdict {ρ : Type} {c d : Constraint ρ} (hS : ∀ v, S v v) (hv : v.Agrees v')
    (hkeyword : c.keyword = d.keyword) (hcompares : c.keyword.compares = true) (huw : c.scalar.Agrees d.scalar) (hlax : c.lax = d.lax)
    (hreplaced : c.lax = true → S c.scalar d.scalar ∧ (c.keyword.isOpenBound = true → c.scalar = d.scalar)) :
    Verdict.Parallel S (c.verdict v) (d.verdict v') := by
  rw [verdict, verdict, ← hkeyword, ← hlax]
  generalize c.keyword = keyword at hcompares hreplaced ⊢
  cases keyword with
  | gt | ge | lt | le => exact parallel_checkBound hS hv huw hreplaced (by simp)
  | const => exact parallel_checkConst hv huw hreplaced
  | enum => exact parallel_checkEnum hv huw
  | _ => cases hcompares

/-! ### Multiples -/

section Multiples

section Floats

open Binary64

variable {m n x y : Binary64}

/-- Where there is no ratio, nothing is a multiple. -/
theorem checkFloatMultiple_of_unfit (h : x.isNaN = true ∨ m.isNaN = true ∨ m.isZero = true) :
    checkFloatMultiple lax m x = .decide false lax (some (.float nan)) := by
  have hnan (hratio : x.div m = nan) : checkFloatMultiple lax m x = .decide false lax (some (.float nan)) := by
    have hwhole : nan.roundTo .halfAway = nan := by decide +kernel
    have hfar : ((nan.sub nan).abs.compare? tolerance == some .lt) = false := by decide +kernel
    have hnone : nan.mul m = nan := rfl
    rw [checkFloatMultiple, hratio]
    simp only [hwhole, hfar, hnone]
  obtain h | h | h := h
  · exact hnan (by rw [div, isNaN_iff.mp h])
  · refine hnan ?_
    rw [div, isNaN_iff.mp h]
    cases x.form <;> rfl
  · obtain hratio | ⟨a, hratio⟩ := div_of_isZero (x := x) h
    · exact hnan hratio
    · have hwhole : (infinity a).roundTo .halfAway = infinity a := by cases a <;> decide +kernel
      have hfar : (((infinity a).sub (infinity a)).abs.compare? tolerance == some .lt) = false := by cases a <;> decide +kernel
      have hform : (infinity a).form = .infinite a := by cases a <;> decide +kernel
      have hnone : (infinity a).mul m = nan := by
        rw [mul, hform, form_of_isZero h]
        rfl
      rw [checkFloatMultiple, hratio]
      simp only [hwhole, hfar, hnone]

/-- Zero is a multiple of what there is a ratio to. -/
theorem checkFloatMultiple_of_isZero (hx : x.isZero = true) (hnan : m.isNaN = false) (hzero : m.isZero = false) :
    checkFloatMultiple lax m x = .kept := by
  obtain ⟨a, hratio⟩ := exists_zero_div hx hnan hzero
  have hnear : (((zero a).sub ((zero a).roundTo .halfAway)).abs.compare? tolerance == some .lt) = true := by
    cases a <;> decide +kernel
  rw [checkFloatMultiple, hratio]
  simp only [hnear]
  rfl

theorem checkFloatMultiple_congr (hm : m.same n = true) (hx : x.same y = true) :
    checkFloatMultiple lax m x = checkFloatMultiple lax n y := by
  obtain rfl | ⟨hm, hn⟩ | ⟨hm, hn⟩ := eq_or_of_same hm
  · obtain rfl | ⟨hx, hy⟩ | ⟨hx, hy⟩ := eq_or_of_same hx
    · rfl
    · by_cases hunfit : m.isNaN = true ∨ m.isZero = true
      · rw [checkFloatMultiple_of_unfit (.inr hunfit), checkFloatMultiple_of_unfit (.inr hunfit)]
      · obtain ⟨hnan, hzero⟩ := not_or.mp hunfit
        rw [checkFloatMultiple_of_isZero hx (Bool.eq_false_iff.mpr hnan) (Bool.eq_false_iff.mpr hzero),
          checkFloatMultiple_of_isZero hy (Bool.eq_false_iff.mpr hnan) (Bool.eq_false_iff.mpr hzero)]
    · rw [checkFloatMultiple_of_unfit (.inl hx), checkFloatMultiple_of_unfit (.inl hy)]
  · rw [checkFloatMultiple_of_unfit (.inr (.inr hm)), checkFloatMultiple_of_unfit (.inr (.inr hn))]
  · rw [checkFloatMultiple_of_unfit (.inr (.inl hm)), checkFloatMultiple_of_unfit (.inr (.inl hn))]

theorem checkMultiple_float : checkMultiple lax u (.float x) =
    match u.toBinary64? with
    | some m => checkFloatMultiple lax m x
    | none => .violated := by
  cases u with
  | bool | int | float | decimal => rfl
  | _ =>
    simp only [checkMultiple, Value.toBinary64?, Value.toDecimal?]
    cases Decimal.ofBinary64? x <;> rfl

end Floats

theorem likeKind_congr (h : v.kind = v'.kind) (d : Decimal) : likeKind v d = likeKind v' d := by
  cases v with
  | int | float => cases v' <;> first | rfl | cases h
  | _ => cases v' <;> first | rfl | cases h

/-- A number is brought back to a kind of numbers alike, however it is spelled. -/
theorem placed_likeKind {d e : Decimal} (hkind : v.kind ≠ .float) (h : d.value = e.value) : (likeKind v d).Placed (likeKind v e) := by
  have hagrees : (Value.decimal d).Agrees (.decimal e) :=
    .respelled ⟨.scalar rfl, .scalar rfl, Value.decimal_same_iff.mpr ⟨e, rfl, h⟩⟩
  have hdecimal : (Value.decimal d).Placed (.decimal e) := hagrees.placed (by nofun) (by nofun)
  cases v with
  | float => exact absurd rfl hkind
  | int =>
    rw [likeKind, likeKind, Decimal.truncated_congr h]
    cases int64? e.truncated with
    | none => exact hdecimal
    | some i => exact .refl _
  | _ => exact hdecimal

/-- A multiple is told, and the nearest one found, from the number that is judged alone. -/
theorem checkMultiple_congr (hv : v.Agrees v') : checkMultiple lax u v = checkMultiple lax u v' := by
  have hkind := hv.kind_eq
  by_cases hfloat : v.kind = .float
  · cases v with
    | float x =>
      cases v' with
      | float y =>
        have hxy : x.same y = true := by
          cases hv with
          | refl => exact Binary64.same_iff.mpr rfl
          | respelled h =>
            have hsame := h.same
            rwa [Value.same] at hsame
        rw [checkMultiple_float, checkMultiple_float]
        cases u.toBinary64? with
        | none => rfl
        | some m => exact checkFloatMultiple_congr (Binary64.same_iff.mpr rfl) hxy
      | _ => cases hkind
    | _ => cases hfloat
  · rw [checkMultiple_eq hfloat, checkMultiple_eq (hkind ▸ hfloat)]
    have hvalue := hv.rel_toDecimal?
    generalize v.toDecimal? = x at hvalue ⊢
    generalize v'.toDecimal? = y at hvalue ⊢
    cases hvalue with
    | none => rfl
    | @some d e hde =>
      have hmultiple (m : Decimal) : d.isMultipleOf m = e.isMultipleOf m :=
        Decimal.isMultipleOf_eq (Decimal.dividesWithin_congr hde m) hde rfl
      have hquotient (m : Decimal) : d.div? m = e.div? m := Decimal.div?_congr hde rfl
      have hlike : likeKind v = likeKind v' := funext (likeKind_congr hkind)
      cases u.toDecimal? with
      | none => rfl
      | some m => simp only [hmultiple, hquotient, hlike]

theorem isMultipleOf_of_dividesAlike {m n : Decimal} (h : u.DividesAlike w) (hm : u.toDecimal? = some m) (hn : w.toDecimal? = some n)
    (d : Decimal) : (m.isZero || d.isMultipleOf m) = (n.isZero || d.isMultipleOf n) := by
  cases h with
  | decimal hvalue _ hshort hshort' =>
    cases hm
    cases hn
    have hwithin : d.dividesWithin m = d.dividesWithin n := by
      rw [Decimal.dividesWithin_of_divisor hshort, Decimal.dividesWithin_of_divisor hshort']
    rw [Decimal.isZero_congr hvalue, Decimal.isMultipleOf_eq hwithin rfl hvalue]
  | @float x _ h =>
    obtain rfl | ⟨hx, hy⟩ | ⟨hx, -⟩ := Binary64.eq_or_of_same h
    · rw [Option.some.inj (hm.symm.trans hn)]
    · have hzero {x : Binary64} {k : Decimal} (hx : x.isZero = true) (hk : Decimal.ofBinary64? x = some k) : k.isZero = true := by
        have hvalue := Binary64.value_ofBinary64?_of_isZero hx
        rw [hk] at hvalue
        exact Decimal.isZero_iff.mpr (Option.some.inj hvalue)
      rw [hzero hx hm, hzero hy hn, Bool.true_or, Bool.true_or]
    · rw [Binary64.isNaN_iff] at hx
      have hnone : Decimal.ofBinary64? x = none := Binary64.ofBinary64?_eq_none (by simp [hx])
      cases hm.symm.trans hnone

/-- A factor that numbers are divided by alike shows how it is spelled in multiples of it alone. -/
theorem parallel_checkMultiple (hv : v.Agrees v') (h : u.DividesAlike w) (hS : lax = true → ∀ a b, a.Placed b → S a b) :
    Verdict.Parallel S (checkMultiple lax u v) (checkMultiple lax w v') := by
  rw [checkMultiple_congr hv]
  by_cases hfloat : v'.kind = .float
  · have hratio {m n : Binary64} (hmn : m.same n = true) (z : Binary64) :
        Verdict.Parallel S (checkFloatMultiple lax m z) (checkFloatMultiple lax n z) := by
      rw [checkFloatMultiple_congr hmn (Binary64.same_iff.mpr rfl)]
      exact Verdict.parallel_decide fun hlax => .some (hS hlax _ _ (.refl _))
    cases v' with
    | float z =>
      rw [checkMultiple_float, checkMultiple_float]
      cases h with
      | float hxy => exact hratio hxy z
      | decimal _ hde => exact hratio hde z
    | _ => cases hfloat
  · have hvalue := h.agrees.rel_toDecimal?
    have hmultiple (m n : Decimal) := isMultipleOf_of_dividesAlike (m := m) (n := n) h
    rw [checkMultiple_eq hfloat, checkMultiple_eq hfloat]
    generalize u.toDecimal? = x at hvalue hmultiple ⊢
    generalize w.toDecimal? = y at hvalue hmultiple ⊢
    cases v'.toDecimal? with
    | none => exact .violated
    | some d =>
      cases hvalue with
      | none => exact .violated
      | @some m n hmn =>
        dsimp only
        rw [hmultiple m n rfl rfl d, Decimal.div?_congr rfl hmn]
        refine Verdict.parallel_decide fun hlax => ?_
        cases d.div? n with
        | none => exact .none
        | some ratio =>
          simp only [Option.bind_eq_bind, Option.bind_some]
          have hproduct := Decimal.mul?_congr (rfl : (ratio.roundTo .halfAway 0).value = _) hmn
          generalize (ratio.roundTo .halfAway 0).mul? m = p at hproduct ⊢
          generalize (ratio.roundTo .halfAway 0).mul? n = q at hproduct ⊢
          cases hproduct with
          | none => exact .none
          | some hvalue => exact .some (hS hlax _ _ (placed_likeKind hfloat hvalue))

end Multiples

section Tolerant

theorem parallel_checkLength (hv : v.Agrees v') (hlax : lax = true → ∀ n, S (truncated n v) (truncated n v')) (n : Nat) :
    Verdict.Parallel S (checkLength keyword lax n v) (checkLength keyword lax n v') := by
  rw [checkLength, checkLength, hv.size?_eq]
  cases v'.size? with
  | none => exact .violated
  | some size =>
    refine Verdict.parallel_decide fun h => ?_
    split
    · exact .some (hlax h n)
    · exact .none

variable (hv : v.Agrees v')

include hv

/-- A number is shortened to the same number, however many zeros it ends in. -/
theorem checkPrecision_congr (n : Nat) : checkPrecision keyword lax n v = checkPrecision keyword lax n v' := by
  have hvalue := hv.rel_toDecimal?
  have hlike : likeKind v = likeKind v' := funext (likeKind_congr hv.kind_eq)
  unfold checkPrecision
  generalize v.toDecimal? = x at hvalue ⊢
  generalize v'.toDecimal? = y at hvalue ⊢
  cases hvalue with
  | none => rfl
  | @some d e hde =>
    have hcounts : d.digitCounts = e.digitCounts := by
      rw [Decimal.digitCounts, Decimal.digitCounts, Decimal.normalized_eq_of_value hde]
    have hshortened (limit places : Nat) : shortened keyword limit places d = shortened keyword limit places e := by
      have hround (r : Rounding) : (d.roundTo r places).normalized = (e.roundTo r places).normalized :=
        Decimal.normalized_eq_of_value (Decimal.value_roundTo_congr r places hde)
      rw [shortened, shortened, hround, hround]
    simp only [hcounts, hshortened, hlike]

theorem parallel_checkPattern (p : Pattern) : Verdict.Parallel S (checkPattern p v) (checkPattern p v') := by
  by_cases htext : v.kind.isText = true
  · rw [hv.eq_of_isText htext]
    unfold checkPattern
    exact Verdict.parallel_decide nofun
  · have hviolated {u : Value} (hu : ¬u.kind.isText = true) : checkPattern p u = .violated := by
      cases u <;> first | rfl | exact absurd rfl hu
    rw [hviolated htext, hviolated (hv.kind_eq ▸ htext)]
    exact .violated

theorem parallel_checkUnique (hlist : ∀ us ws, List.Forall₂ Value.Agrees us ws → S (.list us) (.list ws))
    (htuple : ∀ us ws, List.Forall₂ Value.Agrees us ws → S (.tuple us) (.tuple ws)) :
    Verdict.Parallel S (checkUnique lax v) (checkUnique lax v') := by
  have hkind := hv.kind_eq
  have hrest {u : Value} (hu : (u.kind.isSequence || u.kind == .map) = false) : checkUnique lax u = .violated := by
    cases u <;> first | rfl | cases hu
  cases v with
  | list us =>
    obtain ⟨ws, rfl, hitems⟩ := hv.items
    rw [checkUnique, checkUnique, Value.allDistinct_of_agree hitems]
    exact Verdict.parallel_decide fun _ => .some (hlist _ _ (Value.agree_distinct hitems))
  | tuple us =>
    obtain ⟨ws, rfl, hitems⟩ := hv.positions
    rw [checkUnique, checkUnique, Value.allDistinct_of_agree hitems]
    exact Verdict.parallel_decide fun _ => .some (htuple _ _ (Value.agree_distinct hitems))
  | set | map =>
    cases v' <;> first | exact .kept | cases hkind
  | _ =>
    rw [hrest rfl, hrest (hkind ▸ rfl)]
    exact .violated

end Tolerant

/-- Tolerant constraints come to the same verdict on close values. -/
theorem parallel_verdict_of_tolerates {ρ : Type} {c : Constraint ρ} {a : Leeway} (hc : c.tolerates a = true) (hv : v.Close a v') :
    Verdict.Parallel (Value.Close a) (c.verdict v) (c.verdict v') := by
  have hself := Verdict.Parallel.refl (Value.Close.refl a)
  by_cases hnone : a = .none
  · obtain rfl := hnone
    cases hv
    exact hself _
  obtain ⟨keyword, operand, lax⟩ := c
  cases keyword with
  | gt | ge | lt | le | const | enum =>
    exact parallel_verdict (Value.Close.refl a) hv.agrees rfl rfl (.refl _) rfl fun _ => ⟨.refl a _, fun _ => rfl⟩
  | regex =>
    cases operand with
    | pattern p => exact parallel_checkPattern hv.agrees p
    | value | rule => exact .kept
  | multipleOf =>
    rw [verdict, verdict]
    exact checkMultiple_congr hv.agrees ▸ hself _
  | decimalPlaces | maxDigits =>
    rw [verdict, verdict]
    exact checkPrecision_congr hv.agrees _ ▸ hself _
  | length | minLength | maxLength =>
    rw [verdict, verdict]
    refine parallel_checkLength hv.agrees (fun hlax n => ?_) _
    cases a with
    | none => exact absurd rfl hnone
    | parts => exact Value.Placed.truncated hv n
    | whole =>
      obtain rfl : lax = true := hlax
      cases hc
  | uniqueItems =>
    exact parallel_checkUnique hv.agrees (fun _ _ h => (Value.placed_list h).close hnone)
      fun _ _ h => (Value.placed_tuple h).close hnone
  | contains | minContains | maxContains => exact .kept

end Constraint

end Verdicts

end Conform

import Conform.Proofs.Conversion.Number
import Conform.Proofs.Numeric.Exact
import Conform.Proofs.Numeric.Spelled
import Conform.Proofs.Value.Equality
import Conform.Value.Order
import Mathlib.Order.Compare

/-! Order between values. Within each kind that is no number's there is an order; numbers of all kinds are compared as the
    numbers that they are written as, unless one of them is beyond what the other is taken for: an integer of more than 53
    bits for a float, or a float of more than 28 places for a decimal. -/

namespace Conform

/-! ### Orders of kinds -/

/-- Things are in the order of what they are mapped to. -/
theorem transCmp_comap {α β : Type} (cmp : β → β → Ordering) [Std.TransCmp cmp] (f : α → β) :
    Std.TransCmp fun a b => cmp (f a) (f b) where
  eq_swap := Std.OrientedCmp.eq_swap
  isLE_trans := Std.TransCmp.isLE_trans

instance : Std.TransCmp Time.compare :=
  inferInstanceAs (Std.TransCmp (compareLex (compareOn Time.second) (compareOn Time.nano)))

instance : Std.TransCmp DateTime.compare :=
  have : Std.TransCmp fun a b : DateTime => a.time.compare b.time := transCmp_comap Time.compare DateTime.time
  inferInstanceAs (Std.TransCmp (compareLex (compareOn fun t : DateTime => t.date.number) fun a b => a.time.compare b.time))

instance : Std.TransCmp OffsetDateTime.compare := transCmp_comap DateTime.compare OffsetDateTime.utc

instance : Std.TransCmp Duration.compare := transCmp_comap compare Duration.nanos

instance : Std.TransCmp Uuid.compare := transCmp_comap compare fun u : Uuid => u.bits.toNat

theorem swap_compare {α : Type} (cmp : α → α → Ordering) [Std.OrientedCmp cmp] (a b : α) : (cmp a b).swap = cmp b a :=
  Std.OrientedCmp.eq_swap.symm

theorem Binary64.compare?_swap (x y : Binary64) : x.compare? y = (y.compare? x).map Ordering.swap := by
  rw [compare?_eq_written, compare?_eq_written]
  cases x.written? with
  | none => cases y.written? <;> rfl
  | some p =>
    cases y.written? with
    | none => rfl
    | some q => exact congrArg some (swap_compare compare q p).symm

theorem Binary64.written?_of_same {x y : Binary64} (h : x.same y = true) : x.written? = y.written? := by
  rw [same, Bool.or_eq_true, Bool.and_eq_true, isNaN_iff, isNaN_iff, beq_iff_eq, compare?_eq_written] at h
  obtain heq | ⟨hx, hy⟩ := h
  · obtain ⟨p, hp, hq⟩ := Option.bind_eq_some_iff.mp heq
    obtain ⟨q, hq, hpq⟩ := Option.map_eq_some_iff.mp hq
    rw [hp, hq, compare_eq_iff_eq.mp hpq]
  · rw [written?, written?, hx, hy]

namespace Value

theorem compareBytes_eq (as bs : List UInt8) :
    compareBytes as bs = List.compareLex (fun a b => compare a.toNat b.toNat) as bs := by
  induction as generalizing bs with
  | nil => cases bs <;> rfl
  | cons a as ih =>
    cases bs with
    | nil => rfl
    | cons b bs => rw [compareBytes, ih, List.compareLex_cons_cons]

instance : Std.TransCmp compareBytes := by
  have := transCmp_comap compare UInt8.toNat
  rw [funext₂ compareBytes_eq]
  infer_instance

variable {u v w : Value} {o r : Ordering}

/-- Whether a value is a number or a truth value. -/
def isNumber : Value → Bool
  | .bool _ | .int _ | .float _ | .decimal _ => true
  | _ => false

/-- Values of one kind, which is no number's, in the order of that kind. -/
inductive Alike : Value → Value → Ordering → Prop
  | str (a b : String) : Alike (.str a) (.str b) (compare a b)
  | bytes (a b : List UInt8) : Alike (.bytes a) (.bytes b) (compareBytes a b)
  | date (a b : Date) : Alike (.date a) (.date b) (compare a.number b.number)
  | time (a b : Time) : Alike (.time a) (.time b) (a.compare b)
  | datetime (a b : DateTime) : Alike (.datetime a) (.datetime b) (a.compare b)
  | instant (a b : OffsetDateTime) : Alike (.instant a) (.instant b) (a.compare b)
  | duration (a b : Duration) : Alike (.duration a) (.duration b) (a.compare b)
  | uuid (a b : Uuid) : Alike (.uuid a) (.uuid b) (a.compare b)

theorem Alike.comparePlain? (h : Alike u v o) : u.comparePlain? v = some o := by
  cases h <;> rfl

theorem Alike.swap (h : Alike u v o) : Alike v u o.swap := by
  cases h <;> rw [swap_compare] <;> constructor

theorem Alike.isNumber_eq_false (h : Alike u v o) : ¬u.isNumber = true ∧ ¬v.isNumber = true := by
  cases h <;> exact ⟨nofun, nofun⟩

theorem Alike.trans (huv : Alike u v o) (hvw : Alike v w r) (ho : o ≠ .gt) (hr : r ≠ .gt) : u.comparePlain? w ≠ some .gt := by
  cases huv <;> cases hvw <;> exact fun h => Std.TransCmp.le_trans ho hr (Option.some.inj h)

/-! ### Numbers -/

/-- What is compared is of one kind, or else it is numbers. -/
theorem alike_or_isNumber (h : u.comparePlain? v = some o) : Alike u v o ∨ u.isNumber = true ∧ v.isNumber = true := by
  cases u <;> cases v <;> first
    | exact .inr ⟨rfl, rfl⟩
    | (cases h; done)
    | exact .inl (Option.some.inj h ▸ by constructor)

/-- What a number is written as, on the line of the rational numbers. -/
def rank? : Value → Option Extended
  | .bool b => some (.ofRat b.toNat)
  | .int i => some (.ofRat i.toInt)
  | .float x => x.written?
  | .decimal d => some (.ofRat d.value)
  | _ => none

/-- Whether the first value, if it is a float, is compared with the second without loss: an integer has at most 53 bits, and
    a decimal has room for the places that the float is written with. -/
def FitsFor : Value → Value → Prop
  | .float _, .int i => i.toInt.natAbs ≤ 9007199254740992
  | .float x, .decimal _ => x.places ≤ 28
  | _, _ => True

theorem natAbs_toInt_lt_twoTo (i : Int64) : i.toInt.natAbs < twoTo 64 := by
  have hlow := i.le_toInt
  have hhigh := i.toInt_lt
  have hpower : twoTo 64 = 18446744073709551616 := rfl
  omega

theorem written?_of_natAbs_le {i : Int} (h : i.natAbs ≤ 9007199254740992) : (Binary64.ofInt i).written? = some (.ofRat i) := by
  have hpower : twoTo 64 = 18446744073709551616 := rfl
  obtain ⟨q, hwritten, hnear, -⟩ := Binary64.written?_ofInt (i := i) (by omega)
  rw [hwritten, hnear h, Decimal.unit_mul_natAbs]

theorem written?_bool (b : Bool) : (Binary64.ofNat b.toNat).written? = some (.ofRat b.toNat) := by
  have hsame : Binary64.ofNat b.toNat = Binary64.ofInt b.toNat := by cases b <;> rfl
  rw [hsame, written?_of_natAbs_le (by cases b <;> decide), Int.cast_natCast]

/-- A truth value is compared with any integer as zero or one: what is beyond 53 bits is beyond both. -/
theorem compare?_ofInt_bool (i : Int64) (b : Bool) :
    (Binary64.ofInt i.toInt).compare? (Binary64.ofNat b.toNat) = some (compare (i.toInt : ℚ) b.toNat) := by
  obtain ⟨q, hwritten, hnear, hfar⟩ := Binary64.written?_ofInt (natAbs_toInt_lt_twoTo i)
  rw [Binary64.compare?_eq_written, hwritten, written?_bool]
  refine congrArg some ((Extended.compare_ofRat _ _).trans ?_)
  obtain hle | hgt := le_or_gt i.toInt.natAbs 9007199254740992
  · rw [hnear hle, Decimal.unit_mul_natAbs]
  · have hq := hfar hgt.le
    have hb : ((b.toNat : Nat) : ℚ) ≤ 1 ∧ (0 : ℚ) ≤ b.toNat := by cases b <;> simp
    obtain hneg | hpos := lt_or_ge i.toInt 0
    · have hi : (i.toInt : ℚ) < 0 := by exact_mod_cast hneg
      rw [decide_eq_true hneg, Decimal.unit, if_pos rfl]
      rw [compare_lt_iff_lt.mpr (by linarith), compare_lt_iff_lt.mpr (by linarith)]
    · have hi : (1 : ℚ) < i.toInt := by
        have hlarge : 1 < i.toInt := by omega
        exact_mod_cast hlarge
      rw [decide_eq_false hpos.not_gt, Decimal.unit, if_neg Bool.false_ne_true]
      rw [compare_gt_iff_gt.mpr (by linarith), compare_gt_iff_gt.mpr (by linarith)]

theorem abs_value_lt_of_mantissa (d : Decimal) : |d.value| < 2 ^ 96 := by
  have hmantissa : (d.mantissa : ℚ) < 2 ^ 96 := by exact_mod_cast d.mantissa_lt
  rw [Decimal.abs_value]
  exact (div_le_self (Nat.cast_nonneg _) (one_le_pow₀ (by norm_num))).trans_lt hmantissa

/-- A number is taken for the decimal that it is written as, if there is one. -/
theorem toDecimal?_spec (hv : v.isNumber = true) (hplaces : ∀ x, v = .float x → x.places ≤ 28) :
    (∃ d, v.toDecimal? = some d ∧ v.rank? = some (.ofRat d.value)) ∨
      v.toDecimal? = none ∧ ∀ d : Decimal, v.rank? ≠ some (.ofRat d.value) := by
  cases v with
  | bool b =>
    refine .inl ⟨_, rfl, congrArg (some ∘ Extended.ofRat) (Eq.symm ?_)⟩
    cases b <;> exact (Decimal.value_ofInt (by decide)).trans (by simp)
  | int i => exact .inl ⟨_, rfl, congrArg (some ∘ Extended.ofRat) (Decimal.value_ofInt (natAbs_toInt_lt i)).symm⟩
  | decimal d => exact .inl ⟨d, rfl, rfl⟩
  | float x =>
    have hplaces := hplaces x rfl
    rw [rank?, toDecimal?, Binary64.written?]
    rw [Binary64.places] at hplaces
    cases hx : x.form with
    | nan => exact .inr ⟨Binary64.ofBinary64?_eq_none (by simp [hx]), fun d => (Option.some_ne_none _).symm⟩
    | infinite a =>
      refine .inr ⟨Binary64.ofBinary64?_eq_none (by simp [hx]), fun d heq => ?_⟩
      cases a with
      | false => exact (Extended.ofRat_lt_top d.value).ne' (Option.some.inj heq)
      | true => exact (Extended.bot_lt_ofRat d.value).ne (Option.some.inj heq)
    | finite a m e =>
      rw [hx] at hplaces
      dsimp only at hplaces
      obtain ⟨hvalue, hsome⟩ := Binary64.value_of_ofBinary64? hx (by omega)
      cases hd : Decimal.ofBinary64? x with
      | some d => exact .inl ⟨d, rfl, by rw [hvalue d hd]⟩
      | none =>
        refine .inr ⟨rfl, fun d heq => ?_⟩
        -- With so few places a float is no decimal for its size alone, which no decimal reaches.
        have hlarge := mt hsome (by simp [hd])
        have hsize := abs_value_lt_of_mantissa d
        rw [← Extended.ofRat_inj.mp (Option.some.inj heq), Decimal.abs_unit_mul,
          abs_of_nonneg (Binary64.value_spelled_nonneg (Binary64.parts_of_form hx).1)] at hsize
        exact hlarge hsize
  | _ => cases hv

theorem compare_value (d e : Decimal) : d.compare e = compare d.value e.value := by
  obtain h | h | h := lt_trichotomy d.value e.value
  · rw [Decimal.compare_eq_lt.mpr h, compare_lt_iff_lt.mpr h]
  · rw [Decimal.compare_eq_eq.mpr h, compare_eq_iff_eq.mpr h]
  · rw [Decimal.compare_eq_gt.mpr h, compare_gt_iff_gt.mpr h]

theorem comparePlain?_decimal (d : Decimal) (v : Value) : comparePlain? (.decimal d) v = v.toDecimal?.map d.compare := by
  cases v <;> rfl

theorem comparePlain?_to_decimal (d : Decimal) (v : Value) : comparePlain? v (.decimal d) = v.toDecimal?.map (·.compare d) := by
  cases v <;> rfl

/-- A decimal is compared with what another number is written as, unless no decimal is written so. -/
theorem toDecimal?_compare (d : Decimal) (hv : v.isNumber = true) (hplaces : ∀ x, v = .float x → x.places ≤ 28) :
    (v.toDecimal?.map d.compare = v.rank?.map (compare (.ofRat d.value)) ∧
        v.toDecimal?.map (·.compare d) = v.rank?.map (compare · (.ofRat d.value))) ∨
      v.toDecimal? = none ∧ v.rank? ≠ some (.ofRat d.value) := by
  obtain ⟨e, he, hrank⟩ | ⟨hnone, hrank⟩ := toDecimal?_spec hv hplaces
  · rw [he, hrank]
    exact .inl ⟨congrArg some ((compare_value d e).trans (Extended.compare_ofRat ..).symm),
      congrArg some ((compare_value e d).trans (Extended.compare_ofRat ..).symm)⟩
  · exact .inr ⟨hnone, hrank d⟩

/-- Numbers other than decimals are compared as what they are written as: integers as such, and everything else as floats. -/
theorem comparePlain?_of_binary (hu : u.isNumber = true) (hv : v.isNumber = true) (huv : FitsFor u v) (hvu : FitsFor v u)
    (hleft : ∀ d, u ≠ .decimal d) (hright : ∀ d, v ≠ .decimal d) :
    comparePlain? u v = u.rank?.bind fun p => v.rank?.map (compare p) := by
  have hfloat {x y : Binary64} {p q : Option Extended} (hx : x.written? = p) (hy : y.written? = q) :
      x.compare? y = p.bind fun r => q.map (compare r) := by
    rw [Binary64.compare?_eq_written, hx, hy]
  cases u with
  | bool a =>
    cases v with
    | bool b => exact hfloat (written?_bool a) (written?_bool b)
    | int i =>
      -- The integer is asked instead, and its answer turned round.
      refine (Binary64.compare?_swap ..).trans ?_
      rw [compare?_ofInt_bool, Option.map_some, swap_compare]
      exact congrArg some (Extended.compare_ofRat ..).symm
    | float y => exact hfloat (written?_bool a) rfl
    | decimal d => exact absurd rfl (hright d)
    | _ => cases hv
  | int i =>
    cases v with
    | bool b => exact (compare?_ofInt_bool i b).trans (congrArg some (Extended.compare_ofRat ..).symm)
    | int j =>
      have hlt {i j : Int} : i < j ↔ Extended.ofRat i < Extended.ofRat j := by rw [Extended.ofRat_lt, Int.cast_lt]
      exact congrArg some (Binary64.compare_congr hlt hlt)
    | float y => exact hfloat (written?_of_natAbs_le hvu) rfl
    | decimal d => exact absurd rfl (hright d)
    | _ => cases hv
  | float x =>
    cases v with
    | bool b => exact hfloat rfl (written?_bool b)
    | int i => exact hfloat rfl (written?_of_natAbs_le huv)
    | float y => exact hfloat rfl rfl
    | decimal d => exact absurd rfl (hright d)
    | _ => cases hv
  | decimal d => exact absurd rfl (hleft d)
  | _ => cases hu

/-- Numbers are compared as what they are written as, or not at all where these differ and one of them is no decimal. -/
theorem comparePlain?_eq (hu : u.isNumber = true) (hv : v.isNumber = true) (huv : FitsFor u v) (hvu : FitsFor v u) :
    comparePlain? u v = (u.rank?.bind fun p => v.rank?.map (compare p)) ∨
      comparePlain? u v = none ∧ u.rank? ≠ v.rank? ∧ (u.toDecimal? = none ∨ v.toDecimal? = none) := by
  by_cases hleft : ∃ d, u = .decimal d
  · obtain ⟨d, rfl⟩ := hleft
    rw [comparePlain?_decimal]
    obtain ⟨heq, -⟩ | ⟨hnone, hne⟩ := toDecimal?_compare d hv (by rintro x rfl; exact hvu)
    · exact .inl heq
    · exact .inr ⟨by rw [hnone]; rfl, hne.symm, .inr hnone⟩
  by_cases hright : ∃ d, v = .decimal d
  · obtain ⟨d, rfl⟩ := hright
    rw [comparePlain?_to_decimal]
    obtain ⟨-, heq⟩ | ⟨hnone, hne⟩ := toDecimal?_compare d hu (by rintro x rfl; exact huv)
    · refine .inl (heq.trans ?_)
      cases u.rank? <;> rfl
    · exact .inr ⟨by rw [hnone]; rfl, hne, .inl hnone⟩
  exact .inl (comparePlain?_of_binary hu hv huv hvu (not_exists.mp hleft) (not_exists.mp hright))

/-! ### Reversal -/

theorem comparePlain?_float {x y : Binary64} (hu : u.toBinary64? = some x) (hv : v.toBinary64? = some y)
    (hdecimal : ∀ d, u ≠ .decimal d ∧ v ≠ .decimal d) (hint : ∀ i j, ¬(u = .int i ∧ v = .int j)) :
    comparePlain? u v = x.compare? y := by
  cases u <;> cases v <;> first
    | (cases hu; done)
    | (cases hv; done)
    | (cases hu; cases hv; rfl)
    | exact absurd rfl (hdecimal _).1
    | exact absurd rfl (hdecimal _).2
    | exact absurd ⟨rfl, rfl⟩ (hint _ _)

theorem comparePlain?_of_swap (h : comparePlain? u v = some o) : comparePlain? v u = some o.swap := by
  obtain hlike | ⟨hu, hv⟩ := alike_or_isNumber h
  · exact hlike.swap.comparePlain?
  by_cases hleft : ∃ d, u = .decimal d
  · obtain ⟨d, rfl⟩ := hleft
    rw [comparePlain?_decimal] at h
    obtain ⟨e, he, rfl⟩ := Option.map_eq_some_iff.mp h
    rw [comparePlain?_to_decimal, he, Option.map_some, compare_value, compare_value, swap_compare]
  by_cases hright : ∃ d, v = .decimal d
  · obtain ⟨d, rfl⟩ := hright
    rw [comparePlain?_to_decimal] at h
    obtain ⟨e, he, rfl⟩ := Option.map_eq_some_iff.mp h
    rw [comparePlain?_decimal, he, Option.map_some, compare_value, compare_value, swap_compare]
  by_cases hints : ∃ i j, u = .int i ∧ v = .int j
  · obtain ⟨i, j, rfl, rfl⟩ := hints
    cases h
    exact congrArg some (swap_compare compare i.toInt j.toInt).symm
  have hbinary {w : Value} (hw : w.isNumber = true) : ∃ x, w.toBinary64? = some x := by
    cases w <;> first | exact ⟨_, rfl⟩ | cases hw
  obtain ⟨x, hx⟩ := hbinary hu
  obtain ⟨y, hy⟩ := hbinary hv
  rw [comparePlain?_float hx hy (fun d => ⟨fun hd => hleft ⟨d, hd⟩, fun hd => hright ⟨d, hd⟩⟩)
    (fun i j hij => hints ⟨i, j, hij⟩)] at h
  rw [comparePlain?_float hy hx (fun d => ⟨fun hd => hright ⟨d, hd⟩, fun hd => hleft ⟨d, hd⟩⟩)
    (fun i j hij => hints ⟨j, i, hij.symm⟩), Binary64.compare?_swap, h, Option.map_some]

theorem comparePlain?_swap (u v : Value) : comparePlain? v u = (comparePlain? u v).map Ordering.swap := by
  cases h : comparePlain? u v with
  | some o => exact comparePlain?_of_swap h
  | none =>
    cases h' : comparePlain? v u with
    | none => rfl
    | some o =>
      rw [comparePlain?_of_swap h'] at h
      cases h

theorem compare?_swap (a b : Value) : b.compare? a = (a.compare? b).map Ordering.swap := comparePlain?_swap ..

/-! ### Order and equality -/

/-- What two values are compared as, whichever is a float, is not rounded for it. -/
def Faithful (a b : Value) : Prop := FitsFor a.stored b.stored ∧ FitsFor b.stored a.stored

/-- One value is said to be no greater than the other. -/
def AtMost (a b : Value) : Prop := ∃ o, a.compare? b = some o ∧ o ≠ .gt

variable {a b c : Value}

theorem ranks_of_compare? (hab : a.Faithful b) (ha : a.stored.isNumber = true) (hb : b.stored.isNumber = true)
    (h : a.compare? b = some o) : ∃ p q, a.stored.rank? = some p ∧ b.stored.rank? = some q ∧ compare p q = o := by
  obtain heq | ⟨hnone, -⟩ := comparePlain?_eq ha hb hab.1 hab.2
  · obtain ⟨p, hp, hq⟩ := Option.bind_eq_some_iff.mp (heq.symm.trans h)
    obtain ⟨q, hq, hpq⟩ := Option.map_eq_some_iff.mp hq
    exact ⟨p, q, hp, hq, hpq⟩
  · cases hnone.symm.trans h

/-- Nothing is greater than what is no less than something no less than it. -/
theorem AtMost.trans (hab : a.Faithful b) (hbc : b.Faithful c) (hac : a.Faithful c) (hle : a.AtMost b) (hle' : b.AtMost c) :
    a.compare? c ≠ some .gt := by
  obtain ⟨o, h, ho⟩ := hle
  obtain ⟨r, h', hr⟩ := hle'
  obtain hlike | ⟨ha, hb⟩ := alike_or_isNumber h <;> obtain hlike' | ⟨hb', hc⟩ := alike_or_isNumber h'
  · exact hlike.trans hlike' ho hr
  · exact absurd hb' hlike.isNumber_eq_false.2
  · exact absurd hb hlike'.isNumber_eq_false.1
  · obtain ⟨p, q, hp, hq, rfl⟩ := ranks_of_compare? hab ha hb h
    obtain ⟨q', s, hq', hs, rfl⟩ := ranks_of_compare? hbc hb hc h'
    obtain rfl := Option.some.inj (hq.symm.trans hq')
    intro hgt
    obtain ⟨p', s', hp', hs', hgt⟩ := ranks_of_compare? hac ha hc hgt
    obtain rfl := Option.some.inj (hp.symm.trans hp')
    obtain rfl := Option.some.inj (hs.symm.trans hs')
    exact Std.TransCmp.le_trans ho hr hgt

theorem isNumber_of_isNumeric (h : a.kind.isNumeric = true) : a.stored = a ∧ a.isNumber = true := by
  cases a <;> first | exact ⟨rfl, rfl⟩ | cases h

theorem rank?_of_same (h : a.same b = true) : a.rank? = b.rank? := by
  unfold same at h
  split at h
  case h_2 => rw [beq_iff_eq.mp h]
  case h_3 => rw [beq_iff_eq.mp h]
  case h_4 => exact Binary64.written?_of_same h
  case h_5 => exact congrArg (some ∘ Extended.ofRat) (Decimal.same_iff.mp h)
  case h_19 => cases h
  all_goals rfl

/-- What is equal to a number is a number, written the same. -/
theorem rank?_of_equivalent (hab : a.Faithful b) (heq : a.equivalent b = true) (h : a.kind.isNumeric = true ∨ b.kind.isNumeric = true) :
    a.kind.isNumeric = true ∧ b.kind.isNumeric = true ∧ a.rank? = b.rank? := by
  obtain hsame | ⟨⟨ha, hb⟩, hcompare⟩ := equivalent_iff.mp heq
  · rw [kind_of_same hsame, or_self] at h
    exact ⟨kind_of_same hsame ▸ h, h, rank?_of_same hsame⟩
  · obtain ⟨hstored, hnumber⟩ := isNumber_of_isNumeric ha
    obtain ⟨hstored', hnumber'⟩ := isNumber_of_isNumeric hb
    obtain ⟨p, q, hp, hq, hpq⟩ := ranks_of_compare? hab (hstored.symm ▸ hnumber) (hstored'.symm ▸ hnumber') hcompare
    obtain rfl := compare_eq_iff_eq.mp hpq
    rw [hstored] at hp
    rw [hstored'] at hq
    exact ⟨ha, hb, hp.trans hq.symm⟩

theorem float_of_rank?_eq_none (ha : a.kind.isNumeric = true) (h : a.rank? = none) : ∃ x, a = .float x ∧ x.isNaN = true := by
  cases a with
  | float x =>
    refine ⟨x, rfl, Binary64.isNaN_iff.mpr ?_⟩
    rw [rank?, Binary64.written?] at h
    cases hx : x.form with
    | nan => rfl
    | _ => rw [hx] at h; cases h
  | int | decimal => cases h
  | _ => cases ha

theorem equivalent_of_rank? (hab : a.Faithful b) (ha : a.kind.isNumeric = true) (hb : b.kind.isNumeric = true)
    (h : a.rank? = b.rank?) : a.equivalent b = true := by
  refine equivalent_iff.mpr ?_
  cases hp : a.rank? with
  | none =>
    obtain ⟨x, rfl, hx⟩ := float_of_rank?_eq_none ha hp
    obtain ⟨y, rfl, hy⟩ := float_of_rank?_eq_none hb (h ▸ hp)
    left
    rw [same, Binary64.same, hx, hy, Bool.and_self, Bool.or_true]
  | some p =>
    obtain ⟨hstored, hnumber⟩ := isNumber_of_isNumeric ha
    obtain ⟨hstored', hnumber'⟩ := isNumber_of_isNumeric hb
    rw [Faithful, hstored, hstored'] at hab
    refine .inr ⟨⟨ha, hb⟩, ?_⟩
    rw [compare?, hstored, hstored']
    obtain heq | ⟨-, hne, -⟩ := comparePlain?_eq hnumber hnumber' hab.1 hab.2
    · rw [heq, ← h, hp]
      exact congrArg some (compare_eq_iff_eq.mpr rfl)
    · exact absurd h hne

theorem same_of_equivalent (heq : a.equivalent b = true) (h : a.kind.isNumeric = false ∨ b.kind.isNumeric = false) :
    a.same b = true := by
  refine (equivalent_iff.mp heq).resolve_right fun ⟨⟨ha, hb⟩, _⟩ => ?_
  obtain h | h := h
  · exact Bool.false_ne_true (h.symm.trans ha)
  · exact Bool.false_ne_true (h.symm.trans hb)

theorem equivalent_comm (ha : a.Proper) (hb : b.Proper) : a.equivalent b = b.equivalent a := by
  have hswap {a b : Value} (h : a.compare? b = some .eq) : b.compare? a = some .eq := by
    rw [compare?_swap a b, h]
    rfl
  rw [Bool.eq_iff_iff, equivalent_iff, equivalent_iff, ha.same_comm hb, and_comm (a := a.kind.isNumeric = true)]
  exact or_congr_right (and_congr_right fun _ => ⟨hswap, hswap⟩)

theorem equivalent_trans (ha : a.Proper) (hb : b.Proper) (hc : c.Proper) (hab : a.Faithful b) (hbc : b.Faithful c)
    (hac : a.Faithful c) (heq : a.equivalent b = true) (heq' : b.equivalent c = true) : a.equivalent c = true := by
  cases hnumeric : b.kind.isNumeric with
  | true =>
    obtain ⟨ha', -, hrank⟩ := rank?_of_equivalent hab heq (.inr hnumeric)
    obtain ⟨-, hc', hrank'⟩ := rank?_of_equivalent hbc heq' (.inl hnumeric)
    exact equivalent_of_rank? hac ha' hc' (hrank.trans hrank')
  | false =>
    have hsame := same_of_equivalent heq (.inr hnumeric)
    exact equivalent_iff.mpr (.inl (ha.regular.congr hb hc hsame ▸ same_of_equivalent heq' (.inl hnumeric)))

theorem isNumber_of_rank? {p : Extended} (h : u.rank? = some p) : u.isNumber = true := by
  cases u <;> first | rfl | cases h

theorem compare?_of_rank? {p q : Extended} (hab : a.Faithful b) (hp : a.stored.rank? = some p) (hq : b.stored.rank? = some q) :
    a.compare? b = some (compare p q) ∨
      a.compare? b = none ∧ p ≠ q ∧ (a.stored.toDecimal? = none ∨ b.stored.toDecimal? = none) := by
  have h := comparePlain?_eq (isNumber_of_rank? hp) (isNumber_of_rank? hq) hab.1 hab.2
  rwa [hp, hq, Option.bind_some, Option.map_some, ne_eq, Option.some_inj] at h

/-- Comparison of values is an order and equality an equivalence, whatever kinds they are of and however deep they are
    members, as far as no value is rounded for it: then numbers are in the order of what they are written as. -/
theorem compare_order (a b c : Value) :
    b.compare? a = (a.compare? b).map Ordering.swap ∧
      (∀ p q, a.Faithful b → a.stored.rank? = some p → b.stored.rank? = some q → a.compare? b = some (compare p q) ∨
        a.compare? b = none ∧ p ≠ q ∧ (a.stored.toDecimal? = none ∨ b.stored.toDecimal? = none)) ∧
      (a.Faithful b → b.Faithful c → a.Faithful c → a.AtMost b → b.AtMost c → a.compare? c ≠ some .gt) ∧
      (a.Proper → a.equivalent a = true) ∧
      (a.Proper → b.Proper → a.equivalent b = b.equivalent a) ∧
      (a.Proper → b.Proper → c.Proper → a.Faithful b → b.Faithful c → a.Faithful c →
        a.equivalent b = true → b.equivalent c = true → a.equivalent c = true) := by
  refine ⟨compare?_swap a b, fun _ _ => compare?_of_rank?, AtMost.trans, fun ha => ?_, equivalent_comm, equivalent_trans⟩
  exact equivalent_iff.mpr (.inl ha.regular.refl)

/-- Two as an integer, as a float and as a decimal with a trailing zero; and a tenth as the member of a member, which is no
    greater than a tenth as a decimal and that no greater than a truth value. -/
theorem compare_order_of_mixed :
    let whole : Value := .int 2
    let point : Value := .float (.ofRatio false 2 1)
    let written : Value := .decimal ⟨false, 20, 1, by decide, by decide⟩
    let tenth : Value := .member "Rate" "low" (.member "Share" "tenth" (.float (.ofRatio false 1 10)))
    let tenthWritten : Value := .decimal ⟨false, 1, 1, by decide, by decide⟩
    (whole.equivalent whole = true ∧ point.equivalent whole = true ∧ whole.equivalent written = true) ∧
      (tenth.AtMost tenthWritten ∧ tenthWritten.AtMost (.bool true) ∧ tenth.compare? (.bool true) ≠ some .gt) ∧
        (Value.bool true).compare? tenth = some .gt := by
  intro whole point written tenth tenthWritten
  obtain ⟨-, -, -, hrefl, hcomm, htrans⟩ := compare_order whole point written
  obtain ⟨-, -, hle, -⟩ := compare_order tenth tenthWritten (.bool true)
  obtain ⟨-, hrank, -⟩ := compare_order tenthWritten (.bool true) tenth
  have hpoint : whole.equivalent point = true := equivalent_iff.mpr (.inr ⟨⟨rfl, rfl⟩, by decide⟩)
  have hwritten : point.equivalent written = true := equivalent_iff.mpr (.inr ⟨⟨rfl, rfl⟩, by decide⟩)
  have hlower : tenthWritten.compare? (.bool true) = some .lt := by
    obtain heq | ⟨-, -, hnone | hnone⟩ := hrank _ _ ⟨trivial, trivial⟩ rfl rfl
    · rw [heq, Extended.compare_ofRat, compare_lt_iff_lt.mpr (by norm_num [Decimal.value, Decimal.unit])]
    · cases hnone
    · cases hnone
  have htenth : tenth.AtMost tenthWritten ∧ tenthWritten.AtMost (.bool true) := ⟨⟨.eq, by decide, by decide⟩, .lt, hlower, by decide⟩
  have hbits : (2 : Int64).toInt.natAbs ≤ 9007199254740992 := by decide
  have hplaces : (Binary64.ofRatio false 2 1).places ≤ 28 ∧ (Binary64.ofRatio false 1 10).places ≤ 28 := by decide
  refine ⟨⟨hrefl (.scalar rfl), (hcomm (.scalar rfl) (.scalar rfl)).symm.trans hpoint,
    htrans (.scalar rfl) (.scalar rfl) (.scalar rfl) ⟨trivial, hbits⟩ ⟨hplaces.1, trivial⟩ ⟨trivial, trivial⟩ hpoint hwritten⟩,
    ?_, ?_⟩
  · exact ⟨htenth.1, htenth.2, hle ⟨hplaces.2, trivial⟩ ⟨trivial, trivial⟩ ⟨trivial, trivial⟩ htenth.1 htenth.2⟩
  · exact (compare_order tenth (.bool true) (.bool true)).1.trans (by decide)

/-- An integer of 54 bits is rounded for a float and a float of 29 places for a decimal, so that numbers of which one is
    the greater are both equal to a third. -/
theorem equal_to_rounded :
    let odd : Value := .int 9007199254740993
    let even : Value := .int 9007199254740992
    let point : Value := .float (.ofRatio false 9007199254740992 1)
    let small : Value := .float (.ofRatio false 1 (10 ^ 29))
    let twice : Value := .float (.ofRatio false 2 (10 ^ 29))
    (odd.equivalent point = true ∧ point.equivalent even = true ∧ odd.equivalent even = false ∧
        odd.compare? point = some .eq ∧ point.compare? even = some .eq ∧ odd.compare? even = some .gt) ∧
      twice.equivalent (.decimal .zero) = true ∧ (Value.decimal .zero).equivalent small = true ∧
        twice.equivalent small = false ∧ twice.compare? small = some .gt := by
  have hequal {v w : Value} (hv : v.kind.isNumeric = true) (hw : w.kind.isNumeric = true) (h : v.compare? w = some .eq) :
      v.equivalent w = true := equivalent_iff.mpr (.inr ⟨⟨hv, hw⟩, h⟩)
  have hunequal {v w : Value} (hsame : v.same w ≠ true) (h : v.compare? w = some .gt) : v.equivalent w = false :=
    Bool.eq_false_iff.mpr fun heq => (equivalent_iff.mp heq).elim hsame fun heq => by cases h.symm.trans heq.2
  intro odd even point small twice
  have hints : odd.compare? even = some .gt := by decide
  have hfloats : twice.compare? small = some .gt := by decide
  refine ⟨⟨hequal rfl rfl (by decide), hequal rfl rfl (by decide), hunequal ?_ hints, by decide, by decide, hints⟩,
    hequal rfl rfl (by decide), hequal rfl rfl (by decide), hunequal ?_ hfloats, hfloats⟩
  · rw [same]
    decide
  · rw [same]
    decide

end Value

end Conform

import Conform.Proofs.Conversion.Exact
import Conform.Proofs.Numeric.Numeral
import Mathlib.Data.Rat.Floor

/-! Conversions to numbers where no data may be lost. A number keeps its value. A length of time or a time with date is
    first cut to whole microseconds, and a numeral that 28 places and 96 bits do not hold is first rounded to them;
    the check for a loss comes after that. -/

namespace Conform

/-! ### The number of a value -/

/-- The rational number that a value denotes: seconds for a length of time, and seconds since the start of 1970 for a date
    or a time with date. -/
def Value.number? : Value → Option ℚ
  | .bool b => some b.toNat
  | .int i => some i.toInt
  | .decimal d => some d.value
  | .duration d => some (d.nanos / 10 ^ 9)
  | .date d => some (d.number * 86400)
  | .datetime t => some (t.epoch + t.time.nano / 10 ^ 9)
  | .instant t => some (t.utc.epoch + t.utc.time.nano / 10 ^ 9)
  | _ => none

/-- A number of seconds in whole microseconds, toward zero for a length of time and toward the past for a time with date;
    the number of any other value is left as it is. -/
def Value.cut (v : Value) (q : ℚ) : ℚ :=
  match v with
  | .duration _ => (if 0 ≤ q then ⌊q * 10 ^ 6⌋ else ⌈q * 10 ^ 6⌉) / 10 ^ 6
  | .datetime _ | .instant _ => ⌊q * 10 ^ 6⌋ / 10 ^ 6
  | _ => q

/-- Whether a text, or bytes that encode one, is a numeral between blanks, underscores aside. -/
def Value.Spells (v : Value) (n : Numeral) : Prop := ∃ cs, v.trimmed? = some cs ∧ cs.filter (· != '_') = n.chars

/-! ### Integers -/

theorem toInt_of_int64? {z : Int} {i : Int64} (h : int64? z = some i) : i.toInt = z := by
  unfold int64? at h
  split at h
  next hrange =>
    cases h
    have hmin : Int64.minValue.toInt = -2 ^ 63 := by decide
    have hmax : Int64.maxValue.toInt = 2 ^ 63 - 1 := by decide
    exact Int64.toInt_ofInt_of_le (by omega) (by omega)
  · cases h

theorem natAbs_toInt_lt (i : Int64) : i.toInt.natAbs < twoTo 96 := by
  have hlow := i.le_toInt
  have hhigh := i.toInt_lt
  have hpower : twoTo 96 = 79228162514264337593543950336 := rfl
  omega

namespace Numeral

variable {n : Numeral}

/-- A numeral of digits alone has neither places nor an exponent. -/
theorem places_and_exponent_of_all (h : (n.body ++ (n.exponent.map Exponent.chars).getD []).all Char.isDigit = true) :
    n.places = none ∧ n.exponent = none := by
  rw [List.all_append, Bool.and_eq_true, body, List.all_append, Bool.and_eq_true] at h
  obtain ⟨⟨-, hplaces⟩, hexponent⟩ := h
  refine ⟨Option.eq_none_iff_forall_ne_some.mpr fun places hp => ?_, Option.eq_none_iff_forall_ne_some.mpr fun e he => ?_⟩
  · simp [hp] at hplaces
  · have hmark : e.mark.isDigit = false := by obtain heq | heq := e.isMark <;> rw [heq] <;> rfl
    simp [he, Exponent.chars, hmark] at hexponent

/-- A numeral that is an integer of 64 bits is read as the number that it spells. -/
theorem value_of_integer? {i : Int64} (h : integer? n.chars = some i) : (i.toInt : ℚ) = n.value := by
  unfold integer? at h
  rw [signed_chars] at h
  dsimp only at h
  split at h
  · cases h
  next hdigits =>
    rw [Bool.or_eq_true, not_or, Bool.not_eq_true', Bool.not_eq_false] at hdigits
    obtain ⟨hplaces, hexponent⟩ := places_and_exponent_of_all hdigits.2
    have hbody : n.body ++ (n.exponent.map Exponent.chars).getD [] = n.digits := by
      simp [body, digits, fraction, hplaces, hexponent]
    rw [hbody] at h
    have hfraction : n.fraction = [] := by simp [fraction, hplaces]
    rw [toInt_of_int64? h, value, hexponent, base, hfraction, List.length_nil, pow_zero, div_one]
    cases n.sign.negative <;> simp [Decimal.unit]

end Numeral

/-- A decimal is what a numeral is read as: less than one in its own last place away from the number that the numeral
    spells, and that number itself if 96 bits and 28 places hold it. -/
def Numeral.ReadAs (n : Numeral) (d : Decimal) : Prop :=
  |d.value - n.value| < 1 / 10 ^ d.scale ∧ (n.Fits → d.value = n.value)

theorem readAs_of_numeral? {n : Numeral} {cs : List Char} {v : Value} (hspells : cs.filter (· != '_') = n.chars)
    (h : numeral? cs = some v) : ∃ d, v.number? = some d.value ∧ n.ReadAs d := by
  unfold numeral? at h
  rw [hspells] at h
  dsimp only at h
  split at h
  · cases h
  split at h
  next i hinteger =>
    cases h
    have hvalue : (Decimal.ofInt i.toInt).value = n.value :=
      (Decimal.value_ofInt (natAbs_toInt_lt i)).trans (Numeral.value_of_integer? hinteger)
    refine ⟨.ofInt i.toInt, congrArg some (Decimal.value_ofInt (natAbs_toInt_lt i)).symm, ?_, fun _ => hvalue⟩
    rw [hvalue, sub_self, abs_zero]
    positivity
  next =>
    obtain ⟨d, hd, rfl⟩ := Option.map_eq_some_iff.mp h
    exact ⟨d, rfl, Numeral.near_of_ofChars? hd, fun hfits => Numeral.value_of_ofChars? hfits hd⟩

/-! ### Times as numbers of seconds -/

theorem value_ofMicros {us : Int} (h : us.natAbs < twoTo 96) : (Decimal.ofMicros us).value = us / 10 ^ 6 := by
  have hmake : Decimal.make? (us < 0) us.natAbs 6 = some _ := dif_pos ⟨h, by decide⟩
  rw [Decimal.ofMicros, hmake, Option.getD_some, Decimal.value_normalized, (Decimal.value_of_make? hmake).1, ← mul_div_assoc,
    Decimal.unit_mul_natAbs]

theorem DateTime.natAbs_epochMicros_lt (t : DateTime) : t.epochMicros.natAbs < twoTo 96 := by
  have hpower : twoTo 96 = 79228162514264337593543950336 := rfl
  have hmin := t.date.min_le
  have hmax := t.date.le_max
  have hsecond := t.time.second_lt
  have hnano := t.time.nano_lt
  rw [epochMicros, epoch]
  omega

theorem floor_div_thousand (z : Int) : ⌊(z : ℚ) / 1000⌋ = z / 1000 := by
  exact_mod_cast Rat.floor_intCast_div_natCast z 1000

/-- A time with date keeps its whole microseconds. -/
theorem DateTime.epochMicros_eq_floor (t : DateTime) :
    t.epochMicros = ⌊((t.epoch : ℚ) + t.time.nano / 10 ^ 9) * 10 ^ 6⌋ := by
  have hsplit : ((t.epoch : ℚ) + t.time.nano / 10 ^ 9) * 10 ^ 6 = (t.epoch * 1000000 : Int) + ((t.time.nano : Int) : ℚ) / 1000 := by
    push_cast
    ring
  rw [hsplit, Int.floor_intCast_add, floor_div_thousand, epochMicros]
  rfl

/-- A length of time keeps its whole microseconds, toward zero. -/
theorem tdiv_thousand_eq (z : Int) :
    z.tdiv 1000 = if (0 : ℚ) ≤ z / 10 ^ 9 then ⌊(z : ℚ) / 10 ^ 9 * 10 ^ 6⌋ else ⌈(z : ℚ) / 10 ^ 9 * 10 ^ 6⌉ := by
  have hmicros : (z : ℚ) / 10 ^ 9 * 10 ^ 6 = z / 1000 := by ring
  have hsign : (0 : ℚ) ≤ z / 10 ^ 9 ↔ 0 ≤ z := by
    rw [le_div_iff₀ (by positivity), zero_mul]
    exact Int.cast_nonneg_iff
  rw [hmicros]
  split
  next hnonneg => rw [floor_div_thousand, Int.tdiv_eq_ediv_of_nonneg (hsign.mp hnonneg)]
  next hneg =>
    have hflip : (z : ℚ) / 1000 = -(((-z : Int) : ℚ) / 1000) := by
      push_cast
      ring
    have hle : 0 ≤ -z := by
      rw [hsign] at hneg
      omega
    rw [hflip, Int.ceil_neg, floor_div_thousand, ← Int.tdiv_eq_ediv_of_nonneg hle, Int.neg_tdiv, neg_neg]

/-- The seconds of a length of time or of a date are its number, cut to microseconds. -/
theorem value_of_seconds? {v : Value} {q : ℚ} {d : Decimal} (hq : v.number? = some q) (h : v.seconds? = some d) :
    d.value = v.cut q := by
  cases v with
  | duration t =>
    cases hq
    simp only [Value.seconds?, Duration.micros?] at h
    split at h
    next hrange =>
      cases h
      have hfit : (t.nanos.tdiv 1000).natAbs < twoTo 96 := by
        have hpower : twoTo 96 = 79228162514264337593543950336 := rfl
        omega
      rw [value_ofMicros hfit, tdiv_thousand_eq, Value.cut]
    · cases h
  | date t =>
    cases hq
    cases h
    rw [value_ofMicros (DateTime.natAbs_epochMicros_lt _), DateTime.epochMicros, DateTime.epoch, Time.midnight]
    simp only [Value.cut]
    push_cast
    ring
  | datetime t =>
    cases hq
    cases h
    rw [value_ofMicros t.natAbs_epochMicros_lt, t.epochMicros_eq_floor]
    rfl
  | instant t =>
    cases hq
    cases h
    rw [value_ofMicros t.utc.natAbs_epochMicros_lt, t.utc.epochMicros_eq_floor]
    rfl
  | _ => cases h

/-! ### The converters -/

namespace Converter

variable {s : Scope} {v w : Value} {d : Decimal}

/-- Where nothing may be lost, a decimal becomes an integer only if it is one. -/
theorem number_of_integerOf (hs : s.forbidsLoss = true) {t : Target} (h : integerOf s v t d = .ok w) :
    w.number? = some d.value := by
  unfold integerOf at h
  cases hintegral : d.isIntegral with
  | false => simp [hintegral, Scope.allowLoss, hs, bind, Except.bind] at h
  | true =>
    simp only [hintegral, if_true] at h
    split at h
    next i hi =>
      cases h
      rw [Value.number?, toInt_of_int64? hi, Decimal.value_of_isIntegral hintegral]
    · cases h

/-- A time counts its seconds, cut to microseconds, whatever is made of them. -/
theorem number_of_seconds {t : Target} {f : Decimal → Conversion} (hf : ∀ d, f d = .ok w → w.number? = some d.value) {q : ℚ}
    (hq : v.number? = some q)
    (h : (match v.seconds? with | some d => f d | none => Scope.refuse v t .outOfRange) = .ok w) :
    w.number? = some (v.cut q) := by
  split at h
  next d hd => rw [hf d h, value_of_seconds? hq hd]
  · cases h

theorem number_of_toInt (hs : s.forbidsLoss = true) {t : Target} {q : ℚ} (hq : v.number? = some q) (h : toInt s v t = .ok w) :
    w.number? = some (v.cut q) := by
  cases v with
  | bool b =>
    cases hq
    cases h
    cases b <;> rfl
  | int i => cases h
  | decimal d =>
    cases hq
    exact number_of_integerOf hs h
  | duration _ | date _ | datetime _ | instant _ => exact number_of_seconds (t := t) (fun _ => number_of_integerOf hs) hq h
  | _ => cases hq

theorem number_of_toDecimal {t : Target} {q : ℚ} (hq : v.number? = some q) (h : toDecimal s v t = .ok w) :
    w.number? = some (v.cut q) := by
  have hdecimal (d : Decimal) (hd : (.ok (.decimal d) : Conversion) = .ok w) : w.number? = some d.value := by
    cases hd
    rfl
  cases v with
  | bool b =>
    cases hq
    rw [hdecimal _ h, Decimal.value_ofInt (by cases b <;> decide)]
    exact congrArg some (Int.cast_natCast _)
  | int i =>
    cases hq
    rw [hdecimal _ h, Decimal.value_ofInt (natAbs_toInt_lt i)]
    rfl
  | decimal d => cases h
  | duration _ | date _ | datetime _ | instant _ => exact number_of_seconds (t := t) hdecimal hq h
  | _ => cases hq

/-- What is read of a numeral is an integer only if it is one, where nothing may be lost. -/
theorem number_of_text_toInt (hs : s.forbidsLoss = true) {t : Target} {n : Numeral} (hspells : v.Spells n)
    (h : toInt s v t = .ok w) : ∃ d, w.number? = some d.value ∧ n.ReadAs d := by
  obtain ⟨cs, htrimmed, hspells⟩ := hspells
  have hread : v.trimmed?.bind numeral? = numeral? cs := by rw [htrimmed, Option.bind_some]
  cases v with
  | str _ | bytes _ =>
    simp only [toInt, hread] at h
    split at h
    next i hnumeral =>
      cases h
      exact readAs_of_numeral? hspells hnumeral
    next d hnumeral =>
      obtain ⟨e, he, hreads⟩ := readAs_of_numeral? hspells hnumeral
      exact ⟨e, (number_of_integerOf hs h).trans he, hreads⟩
    · cases h
  | _ => cases htrimmed

theorem number_of_text_toDecimal {t : Target} {n : Numeral} (hspells : v.Spells n) (h : toDecimal s v t = .ok w) :
    ∃ d, w.number? = some d.value ∧ n.ReadAs d := by
  obtain ⟨cs, htrimmed, hspells⟩ := hspells
  have hread : v.trimmed?.bind numeral? = numeral? cs := by rw [htrimmed, Option.bind_some]
  cases v with
  | str _ | bytes _ =>
    simp only [toDecimal, decimalOf, hread] at h
    split at h
    next i hnumeral =>
      cases h
      obtain ⟨e, he, hreads⟩ := readAs_of_numeral? hspells hnumeral
      exact ⟨e, (congrArg some (Decimal.value_ofInt (natAbs_toInt_lt i))).trans he, hreads⟩
    next d hnumeral =>
      cases h
      exact readAs_of_numeral? hspells hnumeral
    · cases h
  | _ => cases htrimmed

end Converter

/-! ### Conversions -/

namespace Registry

variable {s : Strictness} {t : Target} {v w : Value}

/-- A value that is no member and does not belong to the target is converted by the converter of the target's kind. -/
theorem converted_of_convert {r : Registry} {converter : Converter} (hresolve : t.kind?.bind r.resolve? = some converter)
    (hplain : unwrapped t v = v) (hexact : t.isExact v = false) (h : r.convert s v t = .ok w) :
    ∃ scope : Scope, scope.forbidsLoss = s.noDataLoss ∧ converter scope v t = .ok w := by
  unfold convert convertWith convertAt at h
  rw [hexact, if_neg Bool.false_ne_true] at h
  split at h
  · cases h
  · simp only [hplain, hexact, Bool.false_eq_true, if_false, hresolve] at h
    exact ⟨_, rfl, h⟩

theorem unwrapped_of_number? {q : ℚ} (h : v.number? = some q) : unwrapped t v = v := by
  cases v with
  | member => cases h
  | _ => cases t <;> rfl

theorem unwrapped_of_spells {n : Numeral} (h : v.Spells n) : unwrapped t v = v := by
  obtain ⟨cs, htrimmed, -⟩ := h
  cases v with
  | member => cases htrimmed
  | _ => cases t <;> rfl

/-- Conversions that may lose nothing. A number keeps its value, and so does a truth value or a date; a length of time and a
    time with date keep their whole microseconds; a numeral keeps what 96 bits and 28 places hold of it. -/
theorem number_of_convert (hs : s.noDataLoss = true) (ht : t = .int ∨ t = .decimal) (h : standard.convert s v t = .ok w) :
    (∀ q, v.number? = some q → w.number? = some (v.cut q)) ∧
      ∀ n : Numeral, v.Spells n → ∃ d, w.number? = some d.value ∧ n.ReadAs d := by
  cases hexact : t.isExact v with
  | true =>
    -- Only integers and decimals belong to the target, and they are left alone.
    cases (convert_of_isExact standard hexact).symm.trans h
    have hkept (q : ℚ) (hq : v.number? = some q) : v.cut q = q := by
      obtain rfl | rfl := ht <;> cases v <;> first | rfl | cases hexact
    have htext (n : Numeral) : ¬v.Spells n := by
      rintro ⟨cs, htrimmed, -⟩
      obtain rfl | rfl := ht <;> cases v <;> first | (cases hexact; done) | cases htrimmed
    exact ⟨fun q hq => by rw [hkept q hq, hq], fun n hn => absurd hn (htext n)⟩
  | false =>
    obtain rfl | rfl := ht
    · refine ⟨fun q hq => ?_, fun n hn => ?_⟩
      · obtain ⟨scope, hscope, hw⟩ := converted_of_convert rfl (unwrapped_of_number? hq) hexact h
        exact Converter.number_of_toInt (hscope.trans hs) hq hw
      · obtain ⟨scope, hscope, hw⟩ := converted_of_convert rfl (unwrapped_of_spells hn) hexact h
        exact Converter.number_of_text_toInt (hscope.trans hs) hn hw
    · refine ⟨fun q hq => ?_, fun n hn => ?_⟩
      · obtain ⟨scope, -, hw⟩ := converted_of_convert rfl (unwrapped_of_number? hq) hexact h
        exact Converter.number_of_toDecimal hq hw
      · obtain ⟨scope, -, hw⟩ := converted_of_convert rfl (unwrapped_of_spells hn) hexact h
        exact Converter.number_of_text_toDecimal hn hw

/-- A length of time is cut to whole microseconds: one and a half seconds and one nanosecond. -/
theorem number_of_span :
    let v : Value := .duration ⟨1500000001, by decide⟩
    let w : Value := .decimal ⟨false, 15, 1, by decide, by decide⟩
    standard.convert ⟨false, true⟩ v .decimal = .ok w ∧ w.number? = some (v.cut (1500000001 / 10 ^ 9)) := by
  intro v w
  have h : standard.convert ⟨false, true⟩ v .decimal = .ok w := rfl
  exact ⟨h, (number_of_convert rfl (.inr rfl) h).1 _ (by norm_num [v, Value.number?])⟩

/-- Values that lose something though nothing may be lost: a nanosecond that becomes zero, a second and a nanosecond that
    become one second, and a numeral of 29 places that becomes one. -/
theorem nanosecond_lost :
    let strict : Strictness := ⟨false, true⟩
    let nanosecond : Value := .duration ⟨1, by decide⟩
    let second : Value := .duration ⟨1000000001, by decide⟩
    let digits (width : Nat) : DigitRun := ⟨Digits.padded width 1, fun _ => Digits.isDigit_of_mem_padded⟩
    let numeral : Numeral := ⟨.none, digits 1, some (digits 29), none⟩
    (standard.convert strict nanosecond .decimal = .ok (.decimal .zero) ∧ nanosecond.number? ≠ some 0) ∧
      (standard.convert strict second .int = .ok (.int 1) ∧ second.number? ≠ some 1) ∧
      standard.convert strict (.str (String.ofList numeral.chars)) .int = .ok (.int 1) ∧ numeral.value ≠ 1 := by
  intro strict nanosecond second digits numeral
  refine ⟨⟨rfl, by norm_num [nanosecond, Value.number?]⟩, ⟨rfl, by norm_num [second, Value.number?]⟩, ?_, ?_⟩
  · have htrimmed : (Value.str (String.ofList numeral.chars)).trimmed? = some numeral.chars := by
      rw [Value.trimmed?, String.toList_ofList]
      rfl
    have hconvert (text : String) : standard.convert strict (.str text) .int =
        Converter.toInt ⟨true, none, standard.convertPlain strict⟩ (.str text) .int := rfl
    have hread : numeral? numeral.chars = some (.decimal ⟨false, 10 ^ 28, 28, by decide, by decide⟩) := rfl
    rw [hconvert, Converter.toInt, htrimmed, Option.bind_some, hread]
    rfl
  · have hdigits : Digits.toNat numeral.digits = 10 ^ 29 + 1 := by decide
    have hvalue : numeral.value = ((10 ^ 29 + 1 : Nat) : ℚ) / 10 ^ 29 := by
      rw [← hdigits]
      exact one_mul _
    rw [hvalue]
    norm_num

end Registry

end Conform

import Conform.Calendar.Span
import Conform.Calendar.Text
import Conform.Proofs.Numeric.Numeral
import Conform.Proofs.Pattern.Known
import Conform.Proofs.Text.Blank

/-! Lengths of time are read as they are written: as one numeral of seconds, or of days if there is no time at all. -/

namespace Conform

namespace Calendar

variable {c : Char} {cs ds rest : List Char} {n : Numeral}

/-! ### Numerals -/

theorem isDigit_of_isDigit (h : c.isDigit = true) : isDigit c = true :=
  (Pattern.Known.contains_digit (Nat.lt_of_le_of_lt (Char.isDigit_iff_toNat.mp h).2 (by decide))).trans h

/-- What is no digit is none of another script either, if it belongs to ASCII. -/
theorem not_isDigit (hascii : c.toNat < 128) (h : c.isDigit = false) : isDigit c = false :=
  (Pattern.Known.contains_digit hascii).trans h

theorem takeRun?_eq_none (hc : isDigit c = false) : takeRun? (c :: rest) = none := by
  rw [takeRun?, List.takeWhile_cons_of_neg (by simp [hc])]
  rfl

/-- Digits are taken up to what is no digit. -/
theorem takeRun?_append (h : ∀ c ∈ ds, c.isDigit = true) (hne : ds ≠ []) (hc : isDigit c = false) :
    takeRun? (ds ++ c :: rest) = some (ds, c :: rest) := by
  have hds (d : Char) (hd : d ∈ ds) : isDigit d = true := isDigit_of_isDigit (h d hd)
  rw [takeRun?, List.takeWhile_append_of_pos hds, List.dropWhile_append_of_pos hds, List.takeWhile_cons_of_neg (by simp [hc]),
    List.dropWhile_cons_of_neg (by simp [hc]), List.append_nil]
  simp [hne]

/-- A numeral is taken up to its letter. -/
theorem takeNumeral?_body (hwhole : n.whole.chars ≠ []) (hplaces : ∀ places ∈ n.places, places.chars ≠ [])
    (hc : isDigit c = false) (hpoint : c ≠ '.') : takeNumeral? (n.body ++ c :: rest) = some (n.body, c :: rest) := by
  have hdot : isDigit '.' = false := not_isDigit (by decide) rfl
  cases hp : n.places with
  | none =>
    have hbody : n.body = n.whole.chars := by simp [Numeral.body, hp]
    rw [hbody, takeNumeral?, takeRun?_append n.whole.isDigit hwhole hc]
    simp [takeFraction, hpoint]
  | some places =>
    have hbody : n.body = n.whole.chars ++ '.' :: places.chars := by simp [Numeral.body, hp]
    have hfraction : takeFraction ('.' :: (places.chars ++ c :: rest)) = ('.' :: places.chars, c :: rest) := by
      rw [takeFraction, takeRun?_append places.isDigit (hplaces places hp) hc]
    rw [hbody, List.append_assoc, List.cons_append, takeNumeral?, takeRun?_append n.whole.isDigit hwhole hdot]
    simp [hfraction]

/-! ### Sums -/

/-- A numeral that fits counts as often as its letter says. -/
theorem weighted?_body (hsign : n.sign = .none) (hdigits : n.digits ≠ []) {weight : Nat} (hpos : 0 < weight)
    (hweight : weight < twoTo 96) (hfit : Digits.toNat n.digits * weight < twoTo 96) (hplaces : n.fraction.length ≤ 28) :
    ∃ d, weighted? [(n.body, weight)] = some d ∧ d.value = n.base * weight := by
  have hnumeral : Digits.toNat n.digits < twoTo 96 := (Nat.le_mul_of_pos_right _ hpos).trans_lt hfit
  obtain ⟨numeral, hmake⟩ : ∃ d, Decimal.unsignedZero? n.sign.negative (Digits.toNat n.digits) n.fraction.length = some d :=
    Decimal.unsignedZero?_isSome hnumeral hplaces
  obtain ⟨hvalue, hmantissa, hscale⟩ := Decimal.value_of_unsignedZero? hmake
  have hread : Decimal.ofPlain? n.body = some numeral := by
    have hplain := Numeral.ofPlain?_of_fit hnumeral hplaces
    rw [if_neg (by simpa using hdigits), hmake, hsign] at hplain
    exact hplain
  have hunits : (Decimal.ofInt weight).value = weight ∧ (Decimal.ofInt weight).mantissa = weight ∧
      (Decimal.ofInt weight).scale = 0 := by
    have hlt : (weight : Int).natAbs < twoTo 96 := hweight
    refine ⟨by exact_mod_cast Decimal.value_ofInt hlt, Decimal.ofInt_mantissa hlt, ?_⟩
    rw [Decimal.ofInt, dif_pos hlt]
  obtain ⟨hunitsValue, hunitsMantissa, hunitsScale⟩ := hunits
  obtain ⟨d, hmul, hdValue⟩ := Decimal.mul?_of_lt (a := numeral) (b := Decimal.ofInt weight)
    (by rwa [hmantissa, hunitsMantissa]) (by rw [hscale, hunitsScale]; exact hplaces)
  refine ⟨d, ?_, ?_⟩
  · have hsum : Decimal.zero.add? d = some d := if_pos rfl
    simp [weighted?, hread, hmul, hsum]
  · rw [hdValue, hvalue, hunitsValue, Numeral.base]

/-! ### Letters -/

/-- Before a letter that is not the one of a numeral, no part is taken. -/
theorem takeParts_skip {letter : Char} {weight : Nat} {letters : List (Char × Nat)} (hne : c ≠ letter)
    (h : takeNumeral? cs = some (ds, c :: rest)) :
    takeParts ((letter, weight) :: letters) cs = takeParts letters cs := by
  rw [takeParts, h]
  exact if_neg hne

theorem takeParts_take {weight : Nat} {letters : List (Char × Nat)} (h : takeNumeral? cs = some (ds, c :: rest)) :
    takeParts ((c, weight) :: letters) cs = ((ds, weight) :: (takeParts letters rest).1, (takeParts letters rest).2) := by
  rw [takeParts, h]
  exact if_pos rfl

theorem takeParts_none {letters : List (Char × Nat)} (h : takeNumeral? cs = none) : takeParts letters cs = ([], cs) := by
  induction letters with
  | nil => rfl
  | cons letter letters ih => rw [takeParts, h, ih]

theorem takeNumeral?_eq_none (hc : isDigit c = false) : takeNumeral? (c :: rest) = none := by
  rw [takeNumeral?, takeRun?_eq_none hc]
  rfl

theorem readLettered?_clock {negative : Bool} {tail : List Char} {dates clock : List (List Char × Nat)}
    (hsign : takeSign cs = (negative, 'P' :: rest)) (hdates : takeParts dateLetters rest = (dates, 'T' :: tail))
    (hclock : takeParts clockLetters tail = (clock, [])) : readLettered? cs = some ⟨negative, none, dates ++ clock⟩ := by
  simp [readLettered?, hsign, Text.dropPrefix?, hdates, hclock]

theorem readLettered?_dates {negative : Bool} {dates : List (List Char × Nat)}
    (hsign : takeSign cs = (negative, 'P' :: rest)) (hdates : takeParts dateLetters rest = (dates, [])) :
    readLettered? cs = some ⟨negative, none, dates⟩ := by
  simp [readLettered?, hsign, Text.dropPrefix?, hdates]

/-- Seconds alone behind their letters are read with the sign before them. -/
theorem readLettered?_seconds (sign : Sign) (hwhole : n.whole.chars ≠ []) (hplaces : ∀ places ∈ n.places, places.chars ≠ []) :
    readLettered? (sign.chars ++ 'P' :: 'T' :: (n.body ++ ['S'])) = some ⟨sign.negative, none, [(n.body, 1)]⟩ := by
  have hnumeral : takeNumeral? (n.body ++ ['S']) = some (n.body, ['S']) :=
    takeNumeral?_body hwhole hplaces (not_isDigit (by decide) rfl) (by decide)
  have hdates : takeParts dateLetters ('T' :: (n.body ++ ['S'])) = ([], 'T' :: (n.body ++ ['S'])) :=
    takeParts_none (takeNumeral?_eq_none (not_isDigit (by decide) rfl))
  -- The letters of hours and minutes are passed over, since the numeral stands before that of seconds.
  have hclock : takeParts clockLetters (n.body ++ ['S']) = ([(n.body, 1)], []) := by
    rw [clockLetters, takeParts_skip (by decide) hnumeral, takeParts_skip (by decide) hnumeral, takeParts_take hnumeral]
    rfl
  refine readLettered?_clock ?_ hdates hclock
  cases sign <;> rfl

theorem readLettered?_days : readLettered? ['P', '0', 'D'] = some ⟨false, none, [(['0'], 86400)]⟩ := by
  have hnumeral : takeNumeral? ['0', 'D'] = some (['0'], ['D']) :=
    takeNumeral?_body (n := ⟨.none, ⟨['0'], by simp⟩, none, none⟩) (by simp) nofun (not_isDigit (by decide) rfl) (by decide)
  have hdates : takeParts dateLetters ['0', 'D'] = ([(['0'], 86400)], []) := by
    rw [dateLetters, takeParts_skip (by decide) hnumeral, takeParts_take hnumeral]
    rfl
  exact readLettered?_dates rfl hdates

theorem seconds?_of_weighted {negative : Bool} {parts : List (List Char × Nat)} {sum : Decimal} (h : weighted? parts = some sum) :
    Span.seconds? ⟨negative, none, parts⟩ = some (if negative then sum.neg else sum) := by
  simp [Span.seconds?, h]

theorem readSpan_of_lettered {span : Span} {seconds : Decimal} (h : readLettered? cs = some span)
    (hany : cs.any Char.isDigit = true) (hseconds : span.seconds? = some seconds) : readSpan cs = .ok seconds := by
  simp [readSpan, h, hany, hseconds]

/-! ### Seconds -/

/-- The significant digits of a fraction are fewer than ten, and there is no point if there are none. -/
theorem shortFractionText_cases {nano : Nat} (hnano : nano < 1000000000) :
    (nano = 0 ∧ shortFractionText nano = []) ∨
      ∃ width k, 0 < width ∧ width ≤ 9 ∧ k < tenTo width ∧ nano = k * tenTo (9 - width) ∧
        shortFractionText nano = '.' :: Digits.padded width k := by
  unfold shortFractionText
  split
  next hzero => exact .inl ⟨hzero, rfl⟩
  next hne =>
    obtain ⟨hsplit, hle⟩ := Decimal.dropZeros_spec 9 nano
    generalize Digits.dropZeros 9 nano = dropped at hsplit hle
    obtain ⟨digits, dropped⟩ := dropped
    dsimp only at hsplit hle ⊢
    have hpower : tenTo (9 - dropped) * tenTo dropped = 1000000000 :=
      (tenTo_add (9 - dropped) dropped).symm.trans (congrArg tenTo (Nat.sub_add_cancel hle))
    have hlt : digits < tenTo (9 - dropped) := by
      refine Nat.lt_of_mul_lt_mul_right (a := tenTo dropped) ?_
      rw [← hsplit, hpower]
      exact hnano
    have hwidth : dropped ≠ 9 := by
      rintro rfl
      have hzero : digits = 0 := Nat.lt_one_iff.mp hlt
      rw [hzero, Nat.zero_mul] at hsplit
      exact hne hsplit
    exact .inr ⟨9 - dropped, digits, by omega, by omega, hlt, by rwa [Nat.sub_sub_self hle], rfl⟩

/-- Nanoseconds are written as a numeral of seconds with at most nine places. -/
theorem exists_numeral_of_nanos (nanos : Nat) :
    ∃ n : Numeral, n.sign = .none ∧ n.whole.chars ≠ [] ∧ (∀ places ∈ n.places, places.chars ≠ []) ∧
      Digits.ofNat (nanos / 1000000000) ++ shortFractionText (nanos % 1000000000) = n.body ∧
      n.fraction.length ≤ 9 ∧ Digits.toNat n.digits * tenTo (9 - n.fraction.length) = nanos := by
  let whole : DigitRun := ⟨Digits.ofNat (nanos / 1000000000), fun _ => Digits.isDigit_of_mem_ofNat⟩
  have hwhole : Digits.toNat whole.chars = nanos / 1000000000 := Digits.toNat_ofNat _
  obtain ⟨hzero, htext⟩ | ⟨width, k, hwidth, hnine, hk, hnano, htext⟩ :=
    shortFractionText_cases (Nat.mod_lt nanos (by decide : 0 < 1000000000))
  · refine ⟨⟨.none, whole, none, none⟩, rfl, Digits.ofNat_ne_nil, nofun, by simp [htext, Numeral.body, whole], Nat.zero_le 9, ?_⟩
    change Digits.toNat (whole.chars ++ []) * 1000000000 = nanos
    rw [List.append_nil, hwhole]
    omega
  · let places : DigitRun := ⟨Digits.padded width k, fun _ => Digits.isDigit_of_mem_padded⟩
    have hlength : places.chars.length = width := Digits.length_padded hwidth hk
    have hpower : tenTo width * tenTo (9 - width) = 1000000000 :=
      (tenTo_add width (9 - width)).symm.trans (congrArg tenTo (Nat.add_sub_cancel' hnine))
    refine ⟨⟨.none, whole, some places, none⟩, rfl, Digits.ofNat_ne_nil, ?_, by simp [htext, Numeral.body, whole, places],
      hlength.trans_le hnine, ?_⟩
    · rintro _ ⟨⟩
      exact Digits.padded_ne_nil
    · change Digits.toNat (whole.chars ++ places.chars) * tenTo (9 - places.chars.length) = nanos
      rw [Digits.toNat_append, hlength, hwhole, Digits.toNat_padded, Nat.add_mul, ← hnano, Nat.mul_right_comm, hpower]
      omega

end Calendar

open Calendar

/-- The sign before a written length of time. -/
def Duration.sign (d : Duration) : Sign := if d.nanos < 0 then .minus else .none

theorem Duration.negative_sign (d : Duration) : d.sign.negative = decide (d.nanos < 0) := by
  rw [Duration.sign]
  by_cases h : d.nanos < 0
  · rw [if_pos h, decide_eq_true h]
    rfl
  · rw [if_neg h, decide_eq_false h]
    rfl

theorem Duration.text_eq {d : Duration} (h : d.nanos ≠ 0) :
    d.text = d.sign.chars ++ 'P' :: 'T' :: (Digits.ofNat (d.nanos.natAbs / 1000000000) ++
      shortFractionText (d.nanos.natAbs % 1000000000) ++ ['S']) := by
  rw [Duration.text, if_neg h, Duration.sign]
  by_cases hnegative : d.nanos < 0
  · simp [hnegative, Sign.chars]
  · simp [hnegative, Sign.chars]

/-- A written length of time is read as its seconds, digit by digit. -/
theorem Duration.readSpan_text (d : Duration) :
    ∃ seconds, readSpan d.text = .ok seconds ∧ seconds.value = d.nanos / 10 ^ 9 := by
  by_cases hzero : d.nanos = 0
  · have htext : d.text = ['P', '0', 'D'] := by rw [Duration.text, if_pos hzero]
    let zero : Numeral := ⟨.none, ⟨['0'], by simp⟩, none, none⟩
    obtain ⟨seconds, hweighted, hvalue⟩ :=
      weighted?_body (n := zero) rfl (List.cons_ne_nil _ _) (by norm_num : 0 < 86400) (by decide) (by decide) (by decide)
    have hread : readSpan ['P', '0', 'D'] = .ok seconds :=
      readSpan_of_lettered readLettered?_days rfl (seconds?_of_weighted hweighted)
    have hnothing : Digits.toNat zero.digits = 0 := rfl
    have hbase : zero.base = 0 := by simp [Numeral.base, hnothing]
    refine ⟨seconds, htext ▸ hread, ?_⟩
    rw [hvalue, hbase, hzero, zero_mul, Int.cast_zero, zero_div]
  -- Nine places at most are read exactly, and the sign counts for the whole text.
  · obtain ⟨n, hsign, hwhole, hplaces, hbody, hlength, hnanos⟩ := exists_numeral_of_nanos d.nanos.natAbs
    have htext : d.text = d.sign.chars ++ 'P' :: 'T' :: (n.body ++ ['S']) := by rw [Duration.text_eq hzero, hbody]
    have hmantissa : Digits.toNat n.digits ≤ d.nanos.natAbs := by
      rw [← hnanos]
      exact Nat.le_mul_of_pos_right _ (tenTo_pos _)
    have hbase : n.base = (d.nanos.natAbs : ℚ) / 10 ^ 9 := by
      have hpower : (10 : ℚ) ^ 9 = 10 ^ n.fraction.length * 10 ^ (9 - n.fraction.length) := by
        rw [← pow_add, Nat.add_sub_cancel' hlength]
      have hunit : Decimal.unit Sign.none.negative = 1 := rfl
      rw [Numeral.base, hsign, hunit, one_mul, ← hnanos, hpower, Nat.cast_mul, Decimal.cast_tenTo]
      field_simp
    have hdigits : n.digits ≠ [] := by simp [Numeral.digits, hwhole]
    have hfit : Digits.toNat n.digits * 1 < twoTo 96 := by
      have hle := d.nanos_le
      change _ < 79228162514264337593543950336
      omega
    obtain ⟨seconds, hweighted, hvalue⟩ :=
      weighted?_body hsign hdigits (by decide) (by decide) hfit (hlength.trans (by decide))
    have hany : d.text.any Char.isDigit = true := by
      obtain ⟨c, digits, hchars⟩ := List.exists_cons_of_ne_nil hwhole
      have hc : c.isDigit = true := n.whole.isDigit c (hchars ▸ List.mem_cons_self)
      rw [List.any_eq_true]
      exact ⟨c, by simp [htext, Numeral.body, hchars], hc⟩
    have hlettered := readLettered?_seconds d.sign hwhole hplaces
    rw [← htext] at hlettered
    refine ⟨if d.sign.negative then seconds.neg else seconds,
      readSpan_of_lettered hlettered hany (seconds?_of_weighted hweighted), ?_⟩
    have hsigned : (if d.sign.negative then seconds.neg else seconds).value = Decimal.unit d.sign.negative * seconds.value := by
      cases d.sign.negative <;> simp [Decimal.unit, Decimal.value_neg]
    rw [hsigned, hvalue, hbase, Nat.cast_one, mul_one, ← mul_div_assoc, d.negative_sign, Decimal.unit_mul_natAbs]

theorem Duration.solid_text (d : Duration) : Text.Solid d.text := by
  by_cases hzero : d.nanos = 0
  · rw [Duration.text, if_pos hzero]
    exact Text.solid_cons.mpr ⟨rfl, Text.solid_cons.mpr ⟨rfl, Text.solid_cons.mpr ⟨rfl, Text.solid_nil⟩⟩⟩
  · have hsign : Text.Solid d.sign.chars := by cases d.sign <;> simp [Sign.chars, Text.Solid] <;> rfl
    have hfraction : Text.Solid (shortFractionText (d.nanos.natAbs % 1000000000)) := by
      rw [shortFractionText]
      split
      · exact Text.solid_nil
      · exact Text.solid_cons.mpr ⟨rfl, Text.solid_padded⟩
    simp only [Duration.text_eq hzero, Text.solid_append, Text.solid_cons]
    exact ⟨hsign, rfl, rfl, ⟨Text.solid_ofNat, hfraction⟩, rfl, Text.solid_nil⟩

end Conform

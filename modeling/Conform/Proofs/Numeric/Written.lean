import Conform.Json.Writer
import Conform.Proofs.Conversion.Number
import Conform.Proofs.Text.Blank

/-! Numbers as they are written. The text of an integer or a decimal is a numeral that spells it, and what is read of it
    denotes the same number. -/

namespace Conform

/-! ### Numerals without an exponent -/

namespace Numeral

variable {n : Numeral}

theorem mem_chars {c : Char} (hexponent : n.exponent = none) (h : c ∈ n.chars) : c.isDigit = true ∨ c ∈ ['.', '-', '+'] := by
  rw [chars, hexponent, Option.map_none, Option.getD_none, List.append_nil, List.mem_append] at h
  obtain hsign | hbody := h
  · cases hs : n.sign with
    | none => simp [hs, Sign.chars] at hsign
    | minus | plus =>
      obtain rfl : c = _ := by simpa [hs, Sign.chars] using hsign
      exact .inr (by decide)
  · obtain hdigit | rfl := mem_body hbody
    · exact .inl hdigit
    · exact .inr List.mem_cons_self

theorem solid_chars (hexponent : n.exponent = none) : Text.Solid n.chars := by
  intro c hc
  obtain hdigit | hmem := mem_chars hexponent hc
  · exact Text.not_isBlank_of_isDigit hdigit
  · simp only [List.mem_cons, List.not_mem_nil, or_false] at hmem
    obtain rfl | rfl | rfl := hmem <;> rfl

theorem chars_ne_nil (hdigits : n.digits ≠ []) : n.chars ≠ [] := by
  intro hnil
  simp only [chars, body, List.append_eq_nil_iff] at hnil
  obtain ⟨⟨-, hwhole, hplaces⟩, -⟩ := hnil
  have hfraction : n.fraction = [] := by
    rw [fraction]
    cases hp : n.places with
    | none => rfl
    | some places => simp [hp] at hplaces
  exact hdigits (by rw [digits, hwhole, hfraction, List.append_nil])

/-- A numeral is read as an integer if it is one that 64 bits hold, and else as a decimal. -/
theorem numeral?_chars (hexponent : n.exponent = none) (hdigits : n.digits ≠ []) :
    numeral? n.chars = ((integer? n.chars).map Value.int).or ((Decimal.ofChars? n.chars).map Value.decimal) := by
  have hfilter : n.chars.filter (· != '_') = n.chars := by
    rw [List.filter_eq_self]
    intro c hc
    rw [bne_iff_ne]
    rintro rfl
    obtain hdigit | hmem := mem_chars hexponent hc
    · cases hdigit
    · exact absurd hmem (by decide)
  have hempty : n.chars.isEmpty = false := List.isEmpty_eq_false_iff.mpr (chars_ne_nil hdigits)
  rw [numeral?, hfilter, hempty, if_neg Bool.false_ne_true]
  cases integer? n.chars <;> rfl

/-- A numeral that fits is a decimal. -/
theorem ofChars?_isSome (hexponent : n.exponent = none) (hdigits : n.digits ≠ []) (hfits : n.Fits) :
    ∃ d, Decimal.ofChars? n.chars = some d := by
  obtain ⟨hnumber, hscale⟩ := hfits
  have hplaces : n.fraction.length ≤ 28 := by
    rw [scale, hexponent] at hscale
    exact hscale
  rw [ofChars?_of_plain hexponent, ofPlain?_of_fit hnumber hplaces, if_neg (by simpa using hdigits)]
  exact Decimal.unsignedZero?_isSome hnumber hplaces

/-- The numeral of an integer. -/
def ofInt (i : Int) : Numeral :=
  { sign := if i < 0 then .minus else .none
    whole := ⟨Digits.ofNat i.natAbs, fun _ => Digits.isDigit_of_mem_ofNat⟩
    places := none
    exponent := none }

theorem chars_ofInt (i : Int) : (ofInt i).chars = Json.integerChars i := by
  by_cases h : i < 0 <;> simp [ofInt, chars, body, Sign.chars, Json.integerChars, h]

theorem digits_ofInt (i : Int) : (ofInt i).digits = Digits.ofNat i.natAbs := List.append_nil _

/-- The numeral of a decimal: its digits with a point before as many of them as it has places. -/
def ofDecimal (d : Decimal) : Numeral :=
  let digits := Digits.padded (d.scale + 1) d.mantissa
  { sign := if d.negative then .minus else .none
    whole := ⟨digits.take (digits.length - d.scale), fun _ hc => Digits.isDigit_of_mem_padded (List.mem_of_mem_take hc)⟩
    places := if d.scale = 0 then none else
      some ⟨digits.drop (digits.length - d.scale), fun _ hc => Digits.isDigit_of_mem_padded (List.mem_of_mem_drop hc)⟩
    exponent := none }

variable (d : Decimal)

theorem chars_ofDecimal : (ofDecimal d).chars = d.text := by
  by_cases hzero : d.scale = 0 <;> cases h : d.negative <;>
    simp [ofDecimal, chars, body, Decimal.text, Sign.chars, hzero, h]

theorem fraction_ofDecimal : (ofDecimal d).fraction =
    (Digits.padded (d.scale + 1) d.mantissa).drop ((Digits.padded (d.scale + 1) d.mantissa).length - d.scale) := by
  by_cases hzero : d.scale = 0 <;> simp [ofDecimal, fraction, hzero]

theorem digits_ofDecimal : (ofDecimal d).digits = Digits.padded (d.scale + 1) d.mantissa := by
  rw [digits, fraction_ofDecimal]
  exact List.take_append_drop _ _

theorem scale_ofDecimal : (ofDecimal d).fraction.length = d.scale := by
  have hlength : d.scale + 1 ≤ (Digits.padded (d.scale + 1) d.mantissa).length := Digits.le_length_padded
  rw [fraction_ofDecimal, List.length_drop]
  omega

theorem fits_ofDecimal : (ofDecimal d).Fits := by
  refine ⟨?_, (scale_ofDecimal d).trans_le d.scale_le⟩
  rw [digits_ofDecimal, Digits.toNat_padded]
  exact d.mantissa_lt

/-- The numeral of a decimal spells it. -/
theorem value_ofDecimal : (ofDecimal d).value = d.value := by
  have hnegative : (ofDecimal d).sign.negative = d.negative := by cases h : d.negative <;> simp [ofDecimal, h, Sign.negative]
  change (ofDecimal d).base = _
  rw [base, hnegative, scale_ofDecimal, digits_ofDecimal, Digits.toNat_padded, Decimal.value]

end Numeral

/-! ### Numbers -/

theorem Json.solid_integerChars (i : Int) : Text.Solid (integerChars i) :=
  Numeral.chars_ofInt i ▸ Numeral.solid_chars rfl

theorem Decimal.solid_text (d : Decimal) : Text.Solid d.text :=
  Numeral.chars_ofDecimal d ▸ Numeral.solid_chars rfl

theorem int64?_toInt (i : Int64) : int64? i.toInt = some i := by
  rw [int64?, if_pos ⟨i.minValue_le_toInt, i.toInt_le⟩, Int64.ofInt_toInt]

/-- An integer of 64 bits is read as it is written. -/
theorem integer?_integerChars (i : Int64) : integer? (Json.integerChars i.toInt) = some i := by
  have hbody : (Numeral.ofInt i.toInt).body ++ ((Numeral.ofInt i.toInt).exponent.map Exponent.chars).getD [] =
      Digits.ofNat i.toInt.natAbs := by
    simp [Numeral.ofInt, Numeral.body]
  have hall : (Digits.ofNat i.toInt.natAbs).all Char.isDigit = true := List.all_eq_true.mpr fun _ => Digits.isDigit_of_mem_ofNat
  have hempty : (Digits.ofNat i.toInt.natAbs).isEmpty = false := List.isEmpty_eq_false_iff.mpr Digits.ofNat_ne_nil
  have hvalue : (if (Numeral.ofInt i.toInt).sign.negative then -(i.toInt.natAbs : Int) else i.toInt.natAbs) = i.toInt := by
    by_cases h : i.toInt < 0
    · simp only [Numeral.ofInt, if_pos h]
      exact (if_pos rfl).trans (by omega)
    · simp only [Numeral.ofInt, if_neg h]
      exact (if_neg Bool.false_ne_true).trans (by omega)
  rw [← Numeral.chars_ofInt, integer?, Numeral.signed_chars, hbody]
  dsimp only
  rw [hall, hempty, if_neg (by decide), Digits.toNat_ofNat, hvalue, int64?_toInt]

theorem numeral?_integerChars (i : Int64) : numeral? (Json.integerChars i.toInt) = some (.int i) := by
  have hdigits : (Numeral.ofInt i.toInt).digits ≠ [] := Numeral.digits_ofInt _ ▸ Digits.ofNat_ne_nil
  rw [← Numeral.chars_ofInt, Numeral.numeral?_chars rfl hdigits, Numeral.chars_ofInt, integer?_integerChars]
  rfl

/-- A decimal is read as an integer or a decimal that denotes the same number. -/
theorem numeral?_text (d : Decimal) :
    (∃ i : Int64, numeral? d.text = some (.int i) ∧ (Decimal.ofInt i.toInt).value = d.value) ∨
      ∃ e : Decimal, numeral? d.text = some (.decimal e) ∧ e.value = d.value := by
  have hdigits : (Numeral.ofDecimal d).digits ≠ [] := Numeral.digits_ofDecimal d ▸ Digits.padded_ne_nil
  rw [← Numeral.chars_ofDecimal, Numeral.numeral?_chars rfl hdigits, ← Numeral.value_ofDecimal]
  cases hinteger : integer? (Numeral.ofDecimal d).chars with
  | some i => exact .inl ⟨i, rfl, (Decimal.value_ofInt (natAbs_toInt_lt i)).trans (Numeral.value_of_integer? hinteger)⟩
  | none =>
    obtain ⟨e, he⟩ := Numeral.ofChars?_isSome rfl hdigits (Numeral.fits_ofDecimal d)
    exact .inr ⟨e, by rw [he]; rfl, Numeral.value_of_ofChars? (Numeral.fits_ofDecimal d) he⟩

end Conform

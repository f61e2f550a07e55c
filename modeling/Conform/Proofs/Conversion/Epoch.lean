import Conform.Proofs.Calendar.Instant
import Conform.Proofs.Conversion.Number
import Conform.Proofs.Numeric.Exact
import Mathlib.Algebra.Order.Floor.Ring

/-! Numbers as instants. A number becomes the clock of UTC whose second is the whole part of the seconds that it means and
    whose nanoseconds are the nearest to the rest. The two are rounded apart: the last half of a nanosecond before a second
    is not carried into that second, so there is a clock for it only where the minute may have a leap second. -/

namespace Conform

/-- The seconds since 1970 that a number means: one of at least 10¹¹ in size counts milliseconds. -/
def secondsOf (q : ℚ) : ℚ := if |q| < 10 ^ 11 then q else q / 1000

/-! ### Clocks -/

namespace DateTime

variable {seconds : Int} {nano : Nat}

/-- On a day of the calendar there is a clock for each second and each nanosecond that the second may have. -/
theorem ofEpoch?_of_date {day : Date} (hday : day.number = seconds / 86400)
    (hnano : nano < 1000000000 ∨ nano < 2000000000 ∧ seconds % 60 = 59) :
    ∃ t : DateTime, ofEpoch? seconds nano = some t ∧ t.epoch = seconds ∧ t.time.nano = nano := by
  have htime : (seconds % 86400).toNat < 86400 ∧ nano < 2000000000 ∧
      (1000000000 ≤ nano → (seconds % 86400).toNat % 60 = 59) := by omega
  refine ⟨⟨day, ⟨_, nano, htime.1, htime.2.1⟩⟩, ?_, ?_, rfl⟩
  · rw [ofEpoch?, ← hday, Date.ofNumber?_number, Time.make?, dif_pos htime]
    rfl
  · rw [epoch, hday]
    dsimp only
    omega

/-- Only the last second of a minute goes on after its nanoseconds. -/
theorem ofEpoch?_eq_none (hnano : 1000000000 ≤ nano) (hsecond : seconds % 60 ≠ 59) : ofEpoch? seconds nano = none := by
  have htime : Time.make? (seconds % 86400).toNat nano = none := by
    refine dif_neg fun htime => hsecond ?_
    have hlast := htime.2.2 hnano
    omega
  rw [ofEpoch?, htime]
  cases Date.ofNumber? (seconds / 86400) <;> rfl

end DateTime

/-! ### Seconds and nanoseconds -/

namespace Converter

open Decimal

/-- A thousandth of a number of eleven digits or more is a decimal. -/
theorem exists_thousandth {d : Decimal} (h : 10 ^ 11 ≤ |d.value|) : ∃ e : Decimal, e.value = d.value / 1000 := by
  have hscale : d.scale + 3 ≤ 28 := by
    by_contra hlong
    have hpower : 10 ^ 29 ≤ 10 ^ (d.scale + 11) := Nat.pow_le_pow_right (by decide) (by omega)
    have hmantissa : 10 ^ (d.scale + 11) ≤ d.mantissa := by
      rw [abs_value, le_div_iff₀ (by positivity), ← pow_add, Nat.add_comm] at h
      exact_mod_cast h
    have hlimit := d.mantissa_lt
    have hbits : twoTo 96 = 79228162514264337593543950336 := rfl
    omega
  refine ⟨⟨d.negative, d.mantissa, d.scale + 3, d.mantissa_lt, hscale⟩, ?_⟩
  rw [value, value, pow_add, mul_div_assoc, div_div]
  norm_num

theorem value_epochSeconds (d : Decimal) : (epochSeconds d).value = secondsOf d.value := by
  have hlimit : (Decimal.ofInt 100000000000).value = 10 ^ 11 := by
    rw [value_ofInt (by decide)]
    norm_num
  have habs : d.abs.value = |d.value| := (one_mul _).trans (abs_value d).symm
  have hsmall : (d.abs.compare (Decimal.ofInt 100000000000) == .lt) = decide (|d.value| < 10 ^ 11) := by
    rw [Bool.eq_iff_iff, beq_iff_eq, decide_eq_true_eq, compare_eq_lt, hlimit, habs]
  rw [epochSeconds, hsmall, secondsOf]
  by_cases h : |d.value| < 10 ^ 11
  · simp [h]
  · obtain ⟨e, he⟩ := exists_thousandth (not_lt.mp h)
    have hthousand : (Decimal.ofInt 1000).value = 1000 := by
      rw [value_ofInt (by decide)]
      norm_num
    obtain ⟨q, hq, hvalue⟩ := div?_of_value (a := d) (b := Decimal.ofInt 1000) (e := e) rfl (by rw [hthousand, he])
    simp [h, hq, hvalue, he]

theorem exists_of_parts {m k : Nat} (hm : m < twoTo 96) (hk : k ≤ 28) : ∃ e : Decimal, e.value = m / 10 ^ k :=
  ⟨⟨false, m, k, hm, hk⟩, one_mul _⟩

/-- The part of a number behind the point, and the nanoseconds of it, are decimals. -/
theorem exists_fraction (d : Decimal) :
    (∃ e : Decimal, e.value = Int.fract d.value) ∧ ∃ e : Decimal, e.value = Int.fract d.value * 10 ^ 9 := by
  have hpos := tenTo_pos d.scale
  obtain ⟨m, hm⟩ := Int.eq_ofNat_of_zero_le (Int.emod_nonneg d.signed (by exact_mod_cast hpos.ne' : (tenTo d.scale : Int) ≠ 0))
  have hlt : m < tenTo d.scale := by
    have hmod := Int.emod_lt_of_pos d.signed (by exact_mod_cast hpos : (0 : Int) < tenTo d.scale)
    rw [hm] at hmod
    exact_mod_cast hmod
  have hfract : Int.fract d.value = m / 10 ^ d.scale := by
    rw [value_eq, ← cast_tenTo, Int.fract_div_intCast_eq_div_intCast_mod, hm]
    simp
  have hlimit {n : Nat} (hn : n ≤ 28) : tenTo n < twoTo 96 :=
    (Nat.pow_le_pow_right (by decide) hn).trans_lt (by decide : tenTo 28 < twoTo 96)
  have hscale := d.scale_le
  rw [hfract]
  refine ⟨exists_of_parts (hlt.trans (hlimit hscale)) hscale, ?_⟩
  obtain hle | hgt := le_or_gt 9 d.scale
  · obtain ⟨k, hk⟩ := Nat.exists_eq_add_of_le hle
    obtain ⟨e, he⟩ := exists_of_parts (k := k) (hlt.trans (hlimit hscale)) (by omega)
    refine ⟨e, ?_⟩
    rw [he, hk, pow_add]
    field_simp
  · obtain ⟨k, hk⟩ := Nat.exists_eq_add_of_lt hgt
    have hpower : tenTo d.scale * tenTo (k + 1) = tenTo 9 := by rw [← tenTo_add, hk]; rfl
    have hnanos : m * tenTo (k + 1) < tenTo 9 := hpower ▸ Nat.mul_lt_mul_of_pos_right hlt (tenTo_pos _)
    obtain ⟨e, he⟩ := exists_of_parts (hnanos.trans (hlimit (by decide))) (Nat.zero_le 28)
    refine ⟨e, ?_⟩
    rw [he, ← cast_tenTo 9, ← hpower, Nat.cast_mul, Nat.cast_mul, cast_tenTo, cast_tenTo]
    field_simp

section Nearest

variable {s : ℚ} {k : Nat} (hnear : |k - Int.fract s * 10 ^ 9| ≤ 1 / 2)

include hnear

/-- Before the last half of a nanosecond the nearest nanosecond is one of the second. -/
theorem nanos_lt (h : Int.fract s < 1 - 1 / (2 * 10 ^ 9)) : k < 1000000000 := by
  have hhigh := (abs_le.mp hnear).2
  have hlt : (k : ℚ) < 1000000000 := by linarith
  exact_mod_cast hlt

/-- From then on it is the first of the next second, which is even where both are as near. -/
theorem nanos_eq (h : 1 - 1 / (2 * 10 ^ 9) ≤ Int.fract s) (htie : |k - Int.fract s * 10 ^ 9| = 1 / 2 → 2 ∣ k) :
    k = 1000000000 := by
  obtain ⟨hlow, hhigh⟩ := abs_le.mp hnear
  have hlt := Int.fract_lt_one s
  have hle : (k : ℚ) < 1000000001 := by linarith
  have hge : (999999998 : ℚ) < k := by linarith
  have hle : k < 1000000001 := by exact_mod_cast hle
  have hge : 999999998 < k := by exact_mod_cast hge
  by_contra hne
  obtain rfl : k = 999999999 := by omega
  have hodd := htie <| by
    push_cast at hlow ⊢
    rw [abs_of_neg (by linarith)]
    linarith
  omega

end Nearest

/-- Before the last half of a nanosecond the nearest nanosecond is on the day of the second. -/
theorem day_of_nearest {s : ℚ} {z : Int} (h : Int.fract s < 1 - 1 / (2 * 10 ^ 9)) (hz : |z - s * 10 ^ 9| ≤ 1 / 2) :
    z / (86400 * 1000000000) = ⌊s⌋ / 86400 := by
  have hfract := Int.fract_nonneg s
  have hsplit : s = ⌊s⌋ + Int.fract s := (Int.floor_add_fract s).symm
  obtain ⟨hlow, hhigh⟩ := abs_le.mp hz
  have hlower : ((⌊s⌋ * 1000000000 - 1 : Int) : ℚ) < z := by push_cast; linarith
  have hupper : (z : ℚ) < ((⌊s⌋ + 1) * 1000000000 : Int) := by push_cast; linarith
  have hlower : ⌊s⌋ * 1000000000 - 1 < z := by exact_mod_cast hlower
  have hupper : z < (⌊s⌋ + 1) * 1000000000 := by exact_mod_cast hupper
  omega

/-- A number is the clock of its whole seconds and of the nanoseconds that are the nearest to the rest, ties to even. -/
theorem clockAt?_eq (d : Decimal) : ∃ k : Nat, clockAt? d = DateTime.ofEpoch? ⌊secondsOf d.value⌋ k ∧
    |k - Int.fract (secondsOf d.value) * 10 ^ 9| ≤ 1 / 2 ∧
      (|k - Int.fract (secondsOf d.value) * 10 ^ 9| = 1 / 2 → 2 ∣ k) := by
  obtain ⟨⟨rest, hrest⟩, nanos, hnanos⟩ := exists_fraction (epochSeconds d)
  have hwhole : (Decimal.ofInt (epochSeconds d).floor).value = ⌊(epochSeconds d).value⌋ := by
    rw [← floor_eq]
    exact value_ofInt ((natAbs_floor_le _).trans_lt (epochSeconds d).mantissa_lt)
  have hbillion : billion.value = 10 ^ 9 := by
    rw [billion, value_ofInt (by decide)]
    norm_num
  obtain ⟨part, hsub, hpart⟩ := sub?_of_value (e := rest) (a := epochSeconds d)
    (b := Decimal.ofInt (epochSeconds d).floor) (by rw [hrest, hwhole, Int.self_sub_floor])
  obtain ⟨product, hmul, hproduct⟩ := mul?_of_value (e := nanos) (a := part) (b := billion)
    (by rw [hnanos, hpart, hrest, hbillion])
  have hnearest : |product.nearest - Int.fract (secondsOf d.value) * 10 ^ 9| ≤ 1 / 2 ∧
      (|product.nearest - Int.fract (secondsOf d.value) * 10 ^ 9| = 1 / 2 → 2 ∣ product.nearest) := by
    rw [← value_epochSeconds, ← hnanos, ← hproduct]
    exact product.nearest_spec
  have hnonneg : 0 ≤ product.nearest := by
    have hfract := Int.fract_nonneg (secondsOf d.value)
    have hlow := (abs_le.mp hnearest.1).1
    have hlt : (-1 : ℚ) < product.nearest := by linarith
    have hlt : -1 < product.nearest := by exact_mod_cast hlt
    omega
  obtain ⟨k, hk⟩ := Int.eq_ofNat_of_zero_le hnonneg
  rw [hk] at hnearest
  refine ⟨k, ?_, hnearest.1, fun htie => Int.natCast_dvd_natCast.mp (hnearest.2 htie)⟩
  have hclock : clockAt? d = DateTime.ofEpoch? (epochSeconds d).floor product.nearest.toNat := by
    rw [clockAt?, hsub]
    exact congrArg (· >>= _) hmul
  rw [hclock, hk, Int.toNat_natCast, floor_eq, value_epochSeconds]

/-- The number of an integer or a decimal is that of the decimal which is taken for it. -/
theorem toDecimal?_of_number? {v : Value} {q : ℚ} (hkind : v.kind = .int ∨ v.kind = .decimal) (hq : v.number? = some q) :
    ∃ d, v.toDecimal? = some d ∧ d.value = q := by
  cases v with
  | int i => exact ⟨_, rfl, (value_ofInt (natAbs_toInt_lt i)).trans (Option.some.inj hq)⟩
  | decimal d => exact ⟨d, rfl, Option.some.inj hq⟩
  | _ => rcases hkind with hkind | hkind <;> cases hkind

end Converter

/-! ### Conversions -/

namespace Registry

variable {v : Value} {q : ℚ}

theorem convert_of_clockAt? (hkind : v.kind = .int ∨ v.kind = .decimal) {d : Decimal} (hd : v.toDecimal? = some d) (loss : Bool) :
    standard.convert ⟨false, loss⟩ v .datetime = match Converter.clockAt? d with
      | some clock => .ok (.instant (.ofUtc clock))
      | none => .error (.mismatch v "datetime" .timestampOutOfRange) := by
  have hconvert : standard.convert ⟨false, loss⟩ v .datetime = Converter.instantAt v .datetime := by
    cases v with
    | int | decimal => rfl
    | _ => rcases hkind with hkind | hkind <;> cases hkind
  rw [hconvert, Converter.instantAt, Converter.ofEpoch, hd]
  dsimp only
  cases Converter.clockAt? d <;> rfl

/-- A number becomes the clock of UTC that is nearest to the seconds which it means, without a leap second, as long as the
    nanoseconds nearest to them are in the calendar. But the nanoseconds are not carried: a number within the last half of a
    nanosecond before a second is refused, or becomes the leap second of its minute where that is about to end. -/
theorem convert_epoch (hkind : v.kind = .int ∨ v.kind = .decimal) (hq : v.number? = some q) (loss : Bool) :
    (Int.fract (secondsOf q) < 1 - 1 / (2 * 10 ^ 9) →
        ∀ z : Int, |z - secondsOf q * 10 ^ 9| ≤ 1 / 2 → (∃ day : Date, day.number = z / (86400 * 1000000000)) →
          ∃ t : DateTime, standard.convert ⟨false, loss⟩ v .datetime = .ok (.instant (.ofUtc t)) ∧
            t.time.nano < 1000000000 ∧ |(t.epoch + t.time.nano / 10 ^ 9 : ℚ) - secondsOf q| ≤ 1 / (2 * 10 ^ 9)) ∧
      (1 - 1 / (2 * 10 ^ 9) ≤ Int.fract (secondsOf q) →
        (⌊secondsOf q⌋ % 60 ≠ 59 →
            standard.convert ⟨false, loss⟩ v .datetime = .error (.mismatch v "datetime" .timestampOutOfRange)) ∧
          (⌊secondsOf q⌋ % 60 = 59 → (∃ day : Date, day.number = ⌊secondsOf q⌋ / 86400) →
            ∃ t : DateTime, standard.convert ⟨false, loss⟩ v .datetime = .ok (.instant (.ofUtc t)) ∧
              t.epoch = ⌊secondsOf q⌋ ∧ t.time.nano = 1000000000)) := by
  obtain ⟨d, hd, rfl⟩ := Converter.toDecimal?_of_number? hkind hq
  obtain ⟨k, hclock, hnear, htie⟩ := Converter.clockAt?_eq d
  rw [convert_of_clockAt? hkind hd, hclock]
  generalize secondsOf d.value = s at hnear htie ⊢
  refine ⟨fun hrest z hz ⟨day, hday⟩ => ?_, fun hrest => ?_⟩
  · have hk := Converter.nanos_lt hnear hrest
    obtain ⟨t, ht, hepoch, hnano⟩ := DateTime.ofEpoch?_of_date (hday.trans (Converter.day_of_nearest hrest hz)) (.inl hk)
    refine ⟨t, by rw [ht], hnano ▸ hk, ?_⟩
    have hsplit : s = ⌊s⌋ + Int.fract s := (Int.floor_add_fract s).symm
    obtain ⟨hlow, hhigh⟩ := abs_le.mp hnear
    rw [hepoch, hnano]
    exact abs_le.mpr ⟨by linarith, by linarith⟩
  · rw [Converter.nanos_eq hnear hrest htie]
    refine ⟨fun hsecond => by rw [DateTime.ofEpoch?_eq_none le_rfl hsecond], fun hsecond ⟨day, hday⟩ => ?_⟩
    obtain ⟨t, ht, hepoch, hnano⟩ := DateTime.ofEpoch?_of_date hday (.inr ⟨(by decide : 1000000000 < 2000000000), hsecond⟩)
    exact ⟨t, by rw [ht], hepoch, hnano⟩

/-- A number of milliseconds, half a second before 1970, and the last tenth of a nanosecond of a second and of a minute. -/
theorem convert_epoch_of_tenths :
    let clock (v : Value) (t : DateTime) : Prop := standard.convert ⟨false, true⟩ v .datetime = .ok (.instant (.ofUtc t))
    let second : Value := .decimal ⟨false, 9999999999, 10, by decide, by decide⟩
    (∃ t, clock (.int 1710000000123) t ∧ t.time.nano < 1000000000 ∧
        |(t.epoch + t.time.nano / 10 ^ 9 : ℚ) - 1710000000123 / 1000| ≤ 1 / (2 * 10 ^ 9)) ∧
      (∃ t, clock (.decimal ⟨true, 5, 1, by decide, by decide⟩) t ∧ t.time.nano < 1000000000 ∧
        |(t.epoch + t.time.nano / 10 ^ 9 : ℚ) - (-1 / 2)| ≤ 1 / (2 * 10 ^ 9)) ∧
      standard.convert ⟨false, true⟩ second .datetime = .error (.mismatch second "datetime" .timestampOutOfRange) ∧
      ∃ t, clock (.decimal ⟨false, 599999999999, 10, by decide, by decide⟩) t ∧ t.epoch = 59 ∧ t.time.nano = 1000000000 := by
  intro clock second
  have hmillis : secondsOf ((1710000000123 : Int64).toInt : ℚ) = 1710000000123 / 1000 := by
    norm_num [secondsOf, show (1710000000123 : Int64).toInt = 1710000000123 from rfl]
  have hhalf : secondsOf (-1 / 2) = -1 / 2 := by norm_num [secondsOf, abs_of_neg]
  have hsecond : secondsOf (9999999999 / 10 ^ 10) = 9999999999 / 10 ^ 10 := by norm_num [secondsOf]
  have hminute : secondsOf (599999999999 / 10 ^ 10) = 599999999999 / 10 ^ 10 := by norm_num [secondsOf]
  refine ⟨?_, ?_, ?_, ?_⟩
  · obtain ⟨t, ht, hnano, hnear⟩ := (convert_epoch (v := .int 1710000000123) (.inl rfl) rfl true).1
      (by rw [hmillis]; norm_num) 1710000000123000000 (by rw [hmillis]; norm_num) ⟨⟨19791, by decide, by decide⟩, rfl⟩
    exact ⟨t, ht, hnano, hmillis ▸ hnear⟩
  · obtain ⟨t, ht, hnano, hnear⟩ := (convert_epoch (v := .decimal ⟨true, 5, 1, by decide, by decide⟩) (q := -1 / 2) (.inr rfl)
      (by norm_num [Value.number?, Decimal.value, Decimal.unit]) true).1
      (by rw [hhalf]; norm_num) (-500000000) (by rw [hhalf]; norm_num) ⟨⟨-1, by decide, by decide⟩, rfl⟩
    exact ⟨t, ht, hnano, hhalf ▸ hnear⟩
  · exact ((convert_epoch (v := second) (q := 9999999999 / 10 ^ 10) (.inr rfl)
      (by norm_num [second, Value.number?, Decimal.value, Decimal.unit]) true).2 (by rw [hsecond]; norm_num)).1
      (by rw [hsecond]; norm_num)
  · obtain ⟨t, ht, hepoch, hnano⟩ := ((convert_epoch (v := .decimal ⟨false, 599999999999, 10, by decide, by decide⟩)
      (q := 599999999999 / 10 ^ 10) (.inr rfl) (by norm_num [Value.number?, Decimal.value, Decimal.unit]) true).2
      (by rw [hminute]; norm_num)).2 (by rw [hminute]; norm_num)
      ⟨⟨0, by decide, by decide⟩, by rw [hminute]; norm_num⟩
    exact ⟨t, ht, by rw [hepoch, hminute]; norm_num, hnano⟩

/-- The second after the start of 1970 is the nearest to a number that is refused, and the minute after it to one that
    becomes a leap second. -/
theorem second_not_carried :
    let second : Value := .decimal ⟨false, 9999999999, 10, by decide, by decide⟩
    let minute : Value := .decimal ⟨false, 599999999999, 10, by decide, by decide⟩
    (second.number? = some (9999999999 / 10 ^ 10) ∧ |(1000000000 : ℚ) - 9999999999 / 10 ^ 10 * 10 ^ 9| ≤ 1 / 2 ∧
        (Date.ofNumber? (1000000000 / (86400 * 1000000000))).isSome = true ∧
        standard.convert ⟨false, false⟩ second .datetime = .error (.mismatch second "datetime" .timestampOutOfRange)) ∧
      ∃ t, standard.convert ⟨false, false⟩ minute .datetime = .ok (.instant (.ofUtc t)) ∧ t.time.nano = 1000000000 := by
  intro second minute
  refine ⟨⟨?_, ?_, rfl, rfl⟩, _, rfl, rfl⟩
  · norm_num [second, Value.number?, Decimal.value, Decimal.unit]
  · norm_num

end Registry

end Conform

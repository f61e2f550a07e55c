import Conform.Proofs.Conversion.Epoch
import Conform.Proofs.Conversion.ReadBack

/-! Times as numbers and numbers as times, at the precision of a microsecond. The seconds of a length of time, of a date or
    of an instant are a decimal without loss, and the converters back find the second and the nanoseconds that it is of. -/

namespace Conform

/-- Whether a value is a whole number of microseconds: a length of time that 64 bits hold, or a date or an instant which is
    no leap second and near enough for its seconds to be taken for seconds. -/
def Value.IsTimed : Value → Prop
  | .duration d => d.nanos % 1000 = 0 ∧ d.micros?.isSome = true
  | .date d => |(d.number * 86400 : ℚ)| < 10 ^ 11
  | .instant t => t.utc.time.nano % 1000 = 0 ∧ t.utc.time.nano < 1000000000 ∧
    |(t.utc.epoch + t.utc.time.nano / 10 ^ 9 : ℚ)| < 10 ^ 11
  | _ => False

namespace Converter

variable {s : Scope} {target : Target} {d : Decimal}

/-! ### Clocks -/

/-- The seconds of a clock are found back where they are small enough to be taken for seconds. -/
theorem clockAt?_of_value {t : DateTime} (hvalue : d.value = t.epoch + t.time.nano / 10 ^ 9) (hnano : t.time.nano < 1000000000)
    (hsmall : |(t.epoch + t.time.nano / 10 ^ 9 : ℚ)| < 10 ^ 11) : clockAt? d = some t := by
  obtain ⟨k, hclock, hnear, -⟩ := clockAt?_eq d
  rw [hvalue, secondsOf, if_pos hsmall] at hclock hnear
  have hrest : (0 : ℚ) ≤ t.time.nano / 10 ^ 9 ∧ (t.time.nano / 10 ^ 9 : ℚ) < 1 := by
    refine ⟨by positivity, (div_lt_one (by positivity)).mpr ?_⟩
    have hlt : ((t.time.nano : Nat) : ℚ) < (1000000000 : Nat) := by exact_mod_cast hnano
    norm_num at hlt ⊢
    exact hlt
  have hfloor : ⌊(t.epoch + t.time.nano / 10 ^ 9 : ℚ)⌋ = t.epoch := by
    rw [Int.floor_intCast_add, Int.floor_eq_zero_iff.mpr hrest, add_zero]
  have hfract : Int.fract (t.epoch + t.time.nano / 10 ^ 9 : ℚ) * 10 ^ 9 = t.time.nano := by
    rw [Int.fract_intCast_add, Int.fract_eq_self.mpr hrest]
    field_simp
  have hk : k = t.time.nano := by
    rw [hfract] at hnear
    have hclose : |(k : Int) - t.time.nano| < 1 := by
      have hlt : |(k : ℚ) - t.time.nano| < 1 := hnear.trans_lt (by norm_num)
      exact_mod_cast hlt
    exact_mod_cast sub_eq_zero.mp (Int.abs_lt_one_iff.mp hclose)
  rw [hclock, hfloor, hk, DateTime.ofEpoch?_epoch fun hleap => absurd hnano (Nat.not_lt.mpr hleap)]

/-- A clock of whole microseconds is that number of seconds. -/
theorem value_epochMicros {t : DateTime} (hnano : t.time.nano % 1000 = 0) :
    (Decimal.ofMicros t.epochMicros).value = t.epoch + t.time.nano / 10 ^ 9 := by
  obtain ⟨micros, hmicros⟩ := Nat.dvd_of_mod_eq_zero hnano
  rw [value_ofMicros t.natAbs_epochMicros_lt, DateTime.epochMicros, hmicros, Nat.mul_div_cancel_left _ (by decide)]
  push_cast
  ring

theorem clockAt?_ofMicros {t : DateTime} (hmicros : t.time.nano % 1000 = 0) (hnano : t.time.nano < 1000000000)
    (hsmall : |(t.epoch + t.time.nano / 10 ^ 9 : ℚ)| < 10 ^ 11) : clockAt? (.ofMicros t.epochMicros) = some t :=
  clockAt?_of_value (value_epochMicros hmicros) hnano hsmall

/-! ### Times of day -/

theorem make?_eq_some_iff {second nano : Nat} {time : Time} :
    Time.make? second nano = some time ↔ second = time.second ∧ nano = time.nano ∧ time.LeapsLast := by
  constructor
  · intro h
    unfold Time.make? at h
    split at h
    next htime =>
      cases h
      exact ⟨rfl, rfl, htime.2.2⟩
    next => cases h
  · rintro ⟨rfl, rfl, hlast⟩
    exact DateTime.make?_time hlast

/-- The time of day that a duration is has no leap second, since less than a second is left besides the whole ones. A rest
    below zero becomes more than two billions of nanoseconds. -/
theorem timeOfDuration?_eq_some_iff {d : Duration} {time : Time} :
    timeOfDuration? d = some time ↔ time.nano < 1000000000 ∧ d.nanos = time.second * 1000000000 + time.nano := by
  have hword (rest : Int) : (UInt32.ofInt rest).toNat = (rest % 4294967296).toNat := by
    have hlt : (rest % 4294967296).toNat < 4294967296 := by omega
    exact Nat.mod_eq_of_lt hlt
  have hsecond := time.second_lt
  have hnano := time.nano_lt
  rw [timeOfDuration?, hword, Duration.seconds, Option.ite_none_right_eq_some, make?_eq_some_iff, Time.LeapsLast]
  rcases le_or_gt 0 d.nanos with hnonneg | hneg
  · rw [Int.tdiv_eq_ediv_of_nonneg hnonneg]
    omega
  · have hflip : d.nanos.tdiv 1000000000 = -(-d.nanos / 1000000000) := by
      rw [← Int.tdiv_eq_ediv_of_nonneg (by omega), Int.neg_tdiv, neg_neg]
    rw [hflip]
    omega

theorem timeOfDuration?_eq_none {d : Duration} (h : ¬(0 ≤ d.nanos ∧ d.nanos < 86400 * 1000000000)) : timeOfDuration? d = none := by
  refine Option.eq_none_iff_forall_ne_some.mpr fun time htime => h ?_
  obtain ⟨hnano, hnanos⟩ := timeOfDuration?_eq_some_iff.mp htime
  have hsecond := time.second_lt
  omega

/-- Within a day there is a time of day so long after midnight. -/
theorem exists_timeOfDuration? {d : Duration} (hnonneg : 0 ≤ d.nanos) (hlt : d.nanos < 86400 * 1000000000) :
    ∃ time, timeOfDuration? d = some time ∧ time.nano < 1000000000 ∧ d.nanos = time.second * 1000000000 + time.nano := by
  have hnano : (d.nanos % 1000000000).toNat < 1000000000 := by omega
  let time : Time := ⟨(d.nanos / 1000000000).toNat, (d.nanos % 1000000000).toNat, by omega, by omega⟩
  have hnanos : d.nanos = time.second * 1000000000 + time.nano := by
    simp only [time]
    omega
  exact ⟨time, timeOfDuration?_eq_some_iff.mpr ⟨hnano, hnanos⟩, hnano, hnanos⟩

/-- The time since midnight, nanoseconds included. -/
theorem value_sinceMidnight {time : Time} : (sinceMidnight time).value = time.second + time.nano / 10 ^ 9 := by
  have hbits : twoTo 96 = 79228162514264337593543950336 := rfl
  have hsecond := time.second_lt
  have hnano := time.nano_lt
  have hseconds : (Decimal.ofInt time.second).value = time.second := by
    rw [Decimal.value_ofInt (by omega), Int.cast_natCast]
  obtain ⟨nanos, hmake⟩ : ∃ d, Decimal.make? false time.nano 9 = some d := ⟨_, dif_pos ⟨by omega, by decide⟩⟩
  obtain ⟨sum, hsum⟩ := exists_of_parts (m := time.second * 10 ^ 9 + time.nano) (k := 9) (by omega) (by decide)
  have hnanos := (Decimal.value_of_make? hmake).1
  rw [Decimal.unit, if_neg Bool.false_ne_true, one_mul] at hnanos
  obtain ⟨d, hd, hvalue⟩ := Decimal.add?_of_value (e := sum) (a := Decimal.ofInt time.second) (b := nanos) (by
    rw [hsum, hseconds, hnanos]
    push_cast
    ring)
  rw [sinceMidnight, hmake, Option.getD_some, hd, Option.getD_some, hvalue, hsum]
  push_cast
  ring

/-! ### Durations -/

theorem natAbs_lt_of_micros? {d : Duration} {micros : Int} (h : d.micros? = some micros) : micros.natAbs < twoTo 96 := by
  have hpower : twoTo 96 = 79228162514264337593543950336 := rfl
  rw [Duration.micros?, Option.ite_none_right_eq_some] at h
  obtain ⟨hrange, hmicros⟩ := h
  cases hmicros
  omega

/-- A duration of whole microseconds that 64 bits hold is found back from its seconds. -/
theorem exists_seconds {d : Duration} (hwhole : d.nanos % 1000 = 0) (hmicros : d.micros?.isSome = true) :
    ∃ seconds, (Value.duration d).seconds? = some seconds ∧ durationOf? seconds = some d := by
  obtain ⟨micros, hsome⟩ := Option.isSome_iff_exists.mp hmicros
  refine ⟨.ofMicros micros, by rw [Value.seconds?, hsome, Option.map_some], durationOf?_of_value hwhole hmicros ?_⟩
  have hfit := natAbs_lt_of_micros? hsome
  obtain ⟨k, hnanos⟩ := Int.dvd_of_emod_eq_zero hwhole
  rw [Duration.micros?, hnanos, Int.mul_tdiv_cancel_left _ (by decide), Option.ite_none_right_eq_some] at hsome
  rw [value_ofMicros hfit, hnanos, ← Option.some.inj hsome.2]
  push_cast
  ring

/-- A time of day of whole microseconds is found back from the time since midnight. -/
theorem exists_duration {time : Time} (hwhole : time.nano % 1000 = 0) (hnano : time.nano < 1000000000) :
    ∃ d, durationOf? (sinceMidnight time) = some d ∧ timeOfDuration? d = some time := by
  have hsecond := time.second_lt
  let d : Duration := ⟨time.second * 1000000000 + time.nano, by omega⟩
  have hmicros : d.micros?.isSome = true := by
    have hnonneg : 0 ≤ d.nanos := by
      simp only [d]
      omega
    rw [Duration.micros?, Int.tdiv_eq_ediv_of_nonneg hnonneg]
    exact (congrArg Option.isSome (if_pos (by simp only [d]; omega))).trans rfl
  refine ⟨d, durationOf?_of_value (by simp only [d]; omega) hmicros ?_, timeOfDuration?_eq_some_iff.mpr ⟨hnano, rfl⟩⟩
  rw [value_sinceMidnight]
  simp only [d]
  push_cast
  ring

end Converter

/-! ### Conversions -/

namespace Registry

variable {v : Value} {t : Target}

theorem convert_of_seconds? {seconds : Decimal} (h : v.seconds? = some seconds) (loss : Bool) :
    standard.convert ⟨false, loss⟩ v .decimal = .ok (.decimal seconds) := by
  cases v with
  | duration d =>
    have hconvert : standard.convert ⟨false, loss⟩ (.duration d) .decimal =
        Converter.toDecimal ⟨loss, none, standard.convertPlain ⟨false, loss⟩⟩ (.duration d) .decimal := rfl
    rw [hconvert, Converter.toDecimal, h]
  | date | datetime | instant =>
    cases h
    rfl
  | _ => cases h

/-- A number of seconds that is midnight is the date of that midnight, and loses nothing. -/
theorem convert_of_midnight {seconds : Decimal} {day : Date} (h : Converter.clockAt? seconds = some ⟨day, .midnight⟩) (loss : Bool) :
    standard.convert ⟨false, loss⟩ (.decimal seconds) .date = .ok (.date day) := by
  have hclock : Converter.ofEpoch (.decimal seconds) .date = .ok ⟨day, .midnight⟩ := by
    rw [Converter.ofEpoch, Value.toDecimal?]
    dsimp only
    rw [h]
  exact (congrArg (· >>= _) hclock).trans rfl

/-- A time is found back from its seconds. -/
theorem convert_of_isTimed (h : v.IsTimed) (ht : t.kind? = some v.kind) (loss : Bool) :
    ∃ d w, standard.convert ⟨false, loss⟩ v .decimal = .ok (.decimal d) ∧
      standard.convert ⟨false, loss⟩ (.decimal d) t = .ok w ∧ v.same w = true := by
  cases v with
  | duration d =>
    cases t <;> cases ht
    obtain ⟨seconds, hseconds, hback⟩ := Converter.exists_seconds h.1 h.2
    refine ⟨seconds, .duration d, ?_, ?_, by simp [Value.same]⟩
    · exact convert_of_seconds? hseconds loss
    · have hconvert : standard.convert ⟨false, loss⟩ (.decimal seconds) .duration =
          Converter.ofSeconds (.decimal seconds) .duration seconds := rfl
      rw [hconvert, Converter.ofSeconds, hback]
  | date d =>
    cases t <;> cases ht
    have hclock : ((DateTime.epoch ⟨d, .midnight⟩ : Int) + ((DateTime.mk d .midnight).time.nano : Nat) / 10 ^ 9 : ℚ) = d.number * 86400 := by
      simp [DateTime.epoch, Time.midnight]
    refine ⟨_, .date d, convert_of_seconds? rfl loss, convert_of_midnight ?_ loss, by simp [Value.same]⟩
    exact Converter.clockAt?_ofMicros rfl (Nat.zero_lt_succ _) (hclock ▸ h)
  | instant i =>
    cases t <;> cases ht
    obtain ⟨hwhole, hnano, hsmall⟩ := h
    refine ⟨_, .instant (.ofUtc i.utc), convert_of_seconds? rfl loss, ?_, by simp [Value.same, OffsetDateTime.same, OffsetDateTime.ofUtc]⟩
    rw [convert_of_clockAt? (.inr rfl) rfl, Converter.clockAt?_ofMicros hwhole hnano hsmall]
  | _ => cases h

theorem convert_duration_time (d : Duration) (loss : Bool) :
    standard.convert ⟨false, loss⟩ (.duration d) .time = match Converter.timeOfDuration? d with
      | some time => .ok (.time time)
      | none => Scope.refuse (.duration d) .time .notWithinDay := rfl

/-- What is a whole number of microseconds is found back from its seconds; a time of day is found back from the time since
    midnight; and a duration is a time of day if and only if it is within a day. -/
theorem convert_of_convert_seconds (loss : Bool) :
    (∀ (v : Value) (t : Target), v.IsTimed → t.kind? = some v.kind → ∃ d w,
        standard.convert ⟨false, loss⟩ v .decimal = .ok (.decimal d) ∧
          standard.convert ⟨false, loss⟩ (.decimal d) t = .ok w ∧ v.same w = true) ∧
      (∀ time : Time, time.nano % 1000 = 0 → time.nano < 1000000000 → ∃ d,
        standard.convert ⟨false, loss⟩ (.time time) .duration = .ok (.duration d) ∧
          standard.convert ⟨false, loss⟩ (.duration d) .time = .ok (.time time)) ∧
      ∀ d : Duration,
        (0 ≤ d.nanos ∧ d.nanos < 86400 * 1000000000 → ∃ time : Time,
          standard.convert ⟨false, loss⟩ (.duration d) .time = .ok (.time time) ∧
            time.nano < 1000000000 ∧ d.nanos = time.second * 1000000000 + time.nano) ∧
        (¬(0 ≤ d.nanos ∧ d.nanos < 86400 * 1000000000) →
          standard.convert ⟨false, loss⟩ (.duration d) .time = .error (.mismatch (.duration d) "time" .notWithinDay)) := by
  refine ⟨fun v t h ht => convert_of_isTimed h ht loss, fun time hwhole hnano => ?_, fun d => ⟨fun hday => ?_, fun hday => ?_⟩⟩
  · obtain ⟨d, hd, hback⟩ := Converter.exists_duration hwhole hnano
    have hconvert : standard.convert ⟨false, loss⟩ (.time time) .duration =
        Converter.ofSeconds (.time time) .duration (Converter.sinceMidnight time) := rfl
    exact ⟨d, by rw [hconvert, Converter.ofSeconds, hd], by rw [convert_duration_time, hback]⟩
  · obtain ⟨time, htime, hspec⟩ := Converter.exists_timeOfDuration? hday.1 hday.2
    exact ⟨time, by rw [convert_duration_time, htime], hspec⟩
  · rw [convert_duration_time, Converter.timeOfDuration?_eq_none hday]
    rfl

/-- A span and an instant before zero, the last microsecond of a day, and the nanoseconds on both sides of one. -/
theorem convert_before_midnight :
    let back (v : Value) (t : Target) : Prop := ∃ d w, standard.convert ⟨false, true⟩ v .decimal = .ok (.decimal d) ∧
      standard.convert ⟨false, true⟩ (.decimal d) t = .ok w ∧ v.same w = true
    let clock (date : Date) (time : Time) : Value := .instant ⟨⟨date, time⟩, 19800, by decide⟩
    let last : Time := ⟨86399, 999999000, by decide, by decide⟩
    let span (nanos : Int) (h : nanos.natAbs ≤ 9223372036854775807000000) : Value := .duration ⟨nanos, h⟩
    back (span (-1500001000) (by decide)) .duration ∧
      back (.date ⟨-1, by decide, by decide⟩) .date ∧
      back (clock ⟨-1, by decide, by decide⟩ last) .datetime ∧
      (∃ d, standard.convert ⟨false, true⟩ (.time last) .duration = .ok (.duration d) ∧
        standard.convert ⟨false, true⟩ (.duration d) .time = .ok (.time last)) ∧
      (∃ time : Time, standard.convert ⟨false, true⟩ (span 86399999999999 (by decide)) .time = .ok (.time time) ∧
        time.nano < 1000000000 ∧ 86399999999999 = (time.second * 1000000000 + time.nano : Int)) ∧
      standard.convert ⟨false, true⟩ (span (-1) (by decide)) .time =
        .error (.mismatch (span (-1) (by decide)) "time" .notWithinDay) := by
  intro back clock last span
  obtain ⟨htimed, htime, hduration⟩ := convert_of_convert_seconds true
  refine ⟨htimed _ .duration ⟨by decide, by decide⟩ rfl, htimed _ .date ?_ rfl, htimed _ .datetime ⟨by decide, by decide, ?_⟩ rfl,
    htime last (by decide) (by decide), (hduration _).1 ⟨by decide, by decide⟩, (hduration _).2 (by decide)⟩
  · norm_num [Value.IsTimed, abs_of_neg]
  · norm_num [DateTime.epoch, last, abs_of_neg]

end Registry

end Conform

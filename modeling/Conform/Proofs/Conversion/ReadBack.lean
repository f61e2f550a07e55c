import Conform.Proofs.Calendar.Instant
import Conform.Proofs.Calendar.Span
import Conform.Proofs.Numeric.Exact
import Conform.Proofs.Numeric.Written
import Conform.Proofs.Uuid

/-! Values of the standard registry that are converted to a text and back are what they were, if a clock can show them. Each
    converter of a scalar reads the text of the scalar by the way that it is written, and by no other that it tries before.
    A leap second inside a minute has the text of the second after it, and a date beyond the calendar is not read. -/

namespace Conform

open Calendar

namespace Converter

variable {s : Scope} {t : Target}

/-- Seconds that are whole microseconds make the length of time that they are. -/
theorem durationOf?_of_value {seconds : Decimal} {d : Duration} (hwhole : d.nanos % 1000 = 0) (hmicros : d.micros?.isSome = true)
    (hvalue : seconds.value = d.nanos / 10 ^ 9) : durationOf? seconds = some d := by
  obtain ⟨micros, hnanos⟩ := Int.dvd_of_emod_eq_zero hwhole
  have hrange : -9223372036854775808 ≤ micros ∧ micros ≤ 9223372036854775807 := by
    by_contra houtside
    rw [Duration.micros?, hnanos, Int.mul_tdiv_cancel_left _ (by decide)] at hmicros
    rw [if_neg houtside] at hmicros
    cases hmicros
  have hproduct : (Decimal.ofInt micros).value = seconds.value * (Decimal.ofInt 1000000).value := by
    have hfit : micros.natAbs < twoTo 96 := by
      have hpower : twoTo 96 = 79228162514264337593543950336 := rfl
      omega
    rw [Decimal.value_ofInt hfit, Decimal.value_ofInt (by decide), hvalue, hnanos]
    push_cast
    ring
  obtain ⟨product, hmul, hsame⟩ := Decimal.mul?_of_value hproduct
  have hnearest : product.nearest = micros := by
    refine Decimal.nearest_of_value ?_
    rw [hsame, hproduct, Decimal.value_ofInt (by decide), hvalue, hnanos]
    push_cast
    ring
  obtain ⟨i, hi⟩ : ∃ i, int64? micros = some i := by
    rw [int64?]
    exact ⟨_, if_pos hrange⟩
  have hback : Duration.ofNanos? (i.toInt * 1000) = some d := by
    have hsame : i.toInt * 1000 = d.nanos := by rw [toInt_of_int64? hi, hnanos, mul_comm]
    rw [hsame]
    exact dif_pos d.nanos_le
  rw [durationOf?, hmul]
  simp [hnearest, hi, hback]

/-- A character that no number has. -/
def IsStrange (c : Char) : Prop :=
  Decimal.isPlace c = false ∧ c ≠ '.' ∧ c ≠ '-' ∧ c ≠ '+' ∧ Numeral.isMark c = false

instance (c : Char) : Decidable (IsStrange c) := inferInstanceAs (Decidable (_ ∧ _))

/-- What has a strange character is no number. -/
theorem numeral?_eq_none {c : Char} {cs : List Char} (hc : IsStrange c) (hmem : c ∈ cs) : numeral? cs = none := by
  obtain ⟨hplace, hpoint, hminus, hplus, hmark⟩ := hc
  have hdigit : c.isDigit = false := by
    rw [Decimal.isPlace, Bool.or_eq_false_iff] at hplace
    exact hplace.1
  have hunder : c ≠ '_' := by
    rintro rfl
    cases hplace
  have hsigned {ds : List Char} (hds : c ∈ ds) : c ∈ (Binary64.signed ds).2 := by
    unfold Binary64.signed
    split <;> simp_all
  have hplain {ds : List Char} (hds : c ∈ ds) : Decimal.ofPlain? ds = none := by
    rw [Decimal.ofPlain?_eq]
    exact Decimal.read_eq_none (hsigned hds) hplace hpoint _
  have hall {ds : List Char} (hds : c ∈ ds) : ds.all Char.isDigit = false := List.all_eq_false.mpr ⟨c, hds, by simp [hdigit]⟩
  have hexponent {ds : List Char} (hds : c ∈ ds) : Decimal.exponent? ds = none := by
    unfold Decimal.exponent?
    split
    next rest =>
      have hrest : c ∈ rest := (List.mem_cons.mp hds).resolve_left hplus
      simp [hall hrest]
    next => simp [hall hds]
  have hscientific {ds : List Char} (hds : c ∈ ds) : Decimal.ofScientific? ds = none := by
    rw [← List.takeWhile_append_dropWhile (p := fun x => !Numeral.isMark x) (l := ds)] at hds
    unfold Decimal.ofScientific?
    dsimp only
    split
    next => rfl
    next mark exponent hdrop =>
      have hbehind : mark :: exponent = ds.dropWhile fun x => !Numeral.isMark x := hdrop.symm
      obtain hfront | hback := List.mem_append.mp hds
      · exact (congrArg (· >>= _) (hplain hfront)).trans rfl
      · rw [← hbehind] at hback
        have hne : c ≠ mark := by
          rintro rfl
          have hhead := List.head?_dropWhile_not (fun x => !Numeral.isMark x) ds
          rw [← hbehind] at hhead
          simp [hmark] at hhead
        have hexp : c ∈ exponent := (List.mem_cons.mp hback).resolve_left hne
        refine Option.bind_eq_none_iff.mpr fun base _ => ?_
        split
        next digits =>
          have hdigits : c ∈ digits := (List.mem_cons.mp hexp).resolve_left hminus
          rw [hexponent hdigits]
          rfl
        next =>
          rw [hexponent hexp]
          rfl
  have hfiltered : c ∈ cs.filter (· != '_') := List.mem_filter.mpr ⟨hmem, by simpa using hunder⟩
  have hinteger : integer? (cs.filter (· != '_')) = none := by simp [integer?, hall (hsigned hfiltered)]
  rw [numeral?, hinteger, Decimal.ofChars?, hplain hfiltered, hscientific hfiltered]
  dsimp only
  split <;> rfl

/-! ### What is read back -/

theorem trimmed?_str {cs : List Char} (h : Text.Solid cs) : (Value.str (String.ofList cs)).trimmed? = some cs := by
  rw [Value.trimmed?, String.toList_ofList, h.trim]

theorem toBool_text (b : Bool) : toBool s (.str (String.ofList (Json.boolChars b))) t = .ok (.bool b) := by
  cases b <;> rfl

theorem toInt_text (i : Int64) : toInt s (.str (String.ofList (Json.integerChars i.toInt))) t = .ok (.int i) := by
  rw [toInt, trimmed?_str (Json.solid_integerChars _), Option.bind_some, numeral?_integerChars]

/-- A decimal comes back as the same number, though perhaps with other places. -/
theorem toDecimal_text (d : Decimal) :
    ∃ e : Decimal, d.same e = true ∧ ∀ s, toDecimal s (.str (String.ofList d.text)) t = .ok (.decimal e) := by
  obtain ⟨i, hnumeral, hvalue⟩ | ⟨e, hnumeral, hvalue⟩ := numeral?_text d
  · refine ⟨.ofInt i.toInt, Decimal.same_iff.mpr hvalue.symm, fun s => ?_⟩
    rw [toDecimal, trimmed?_str d.solid_text, Option.bind_some, hnumeral]
    rfl
  · refine ⟨e, Decimal.same_iff.mpr hvalue.symm, fun s => ?_⟩
    rw [toDecimal, trimmed?_str d.solid_text, Option.bind_some, hnumeral]
    rfl

theorem toUuid_text (u : Uuid) : toUuid s (.str (String.ofList u.text)) t = .ok (.uuid u) := by
  rw [toUuid, trimmed?_str u.solid_text, Option.bind_some, u.ofChars?_text]

theorem toDate_text (d : Date) : toDate s (.str (String.ofList d.text)) t = .ok (.date d) := by
  rw [toDate, trimmed?_str d.solid_text, Option.getD_some, dateOfText, d.ofChars?_text]

theorem toTime_text (time : Time) : toTime s (.str (String.ofList time.text)) t = .ok (.time time.apparent) := by
  have hzoned : Time.ofZonedChars? time.text = some time.apparent := by rw [Time.ofZonedChars?, time.ofChars?_text, Option.some_or]
  unfold toTime
  rw [trimmed?_str time.solid_text, Option.getD_some, hzoned]

theorem toDateTime_text (clock : DateTime) :
    toDateTime s (.str (String.ofList clock.text)) t = .ok (.datetime clock.apparent) := by
  have hmoment : moment? clock.text = some (.datetime clock.apparent) := by
    rw [moment?, clock.beforeZone?_text, clock.ofChars?_text]
    rfl
  rw [toDateTime, trimmed?_str clock.solid_text, Option.getD_some, hmoment]

theorem toDateTime_instant {i : OffsetDateTime} (hminutes : i.offset % 60 = 0) (hlocal : i.local?.isSome = true) :
    toDateTime s (.str (String.ofList i.text)) t = .ok (.instant i.apparent) := by
  have hmoment : moment? i.text = some (.instant i.apparent) := by
    rw [moment?, i.beforeZone?_text, OffsetDateTime.ofChars?_text hminutes hlocal]
    rfl
  rw [toDateTime, trimmed?_str i.solid_text, Option.getD_some, hmoment]

/-- The text of an instant that clocks show on a date beyond the calendar is neither a time nor a number. -/
theorem toDateTime_beyond {i : OffsetDateTime} (hlocal : i.local? = none) :
    toDateTime s (.str (String.ofList i.text)) t = Scope.refuse (.str (String.ofList i.text)) t .unrecognizedDateTime := by
  obtain ⟨haware, hnaive⟩ := OffsetDateTime.ofChars?_eq_none hlocal
  have hmoment : moment? i.text = none := by
    rw [moment?, haware, hnaive]
    cases (beforeZone? i.text).isSome <;> rfl
  have hcolon : ':' ∈ i.text := by simp [OffsetDateTime.text, clockText]
  rw [toDateTime, trimmed?_str i.solid_text, Option.getD_some, hmoment, numeral?_eq_none (by decide) hcolon]

theorem toDuration_text {d : Duration} (hwhole : d.nanos % 1000 = 0) (hmicros : d.micros?.isSome = true) :
    toDuration s (.str (String.ofList d.text)) t = .ok (.duration d) := by
  obtain ⟨seconds, hread, hvalue⟩ := d.readSpan_text
  have hnumeral : numeral? d.text = none := by
    have hletter : 'P' ∈ d.text := by
      by_cases hzero : d.nanos = 0
      · simp [Duration.text, hzero]
      · simp [Duration.text_eq hzero]
    exact numeral?_eq_none (by decide) hletter
  rw [toDuration, trimmed?_str d.solid_text, Option.getD_some, ofSpanText, hnumeral]
  dsimp only [Option.bind_none]
  rw [hread]
  dsimp only
  rw [ofSeconds, durationOf?_of_value hwhole hmicros hvalue]

end Converter

/-! ### Values -/

namespace Value

/-- Whether a value has a text of its own: an offset has whole minutes, and a length of time has whole microseconds, which
    64 bits hold. -/
def Printable : Value → Prop
  | .bool _ | .int _ | .decimal _ | .uuid _ | .date _ | .time _ | .datetime _ => True
  | .instant t => t.offset % 60 = 0
  | .duration d => d.nanos % 1000 = 0 ∧ d.micros?.isSome = true
  | _ => False

/-- Whether clocks show the value: a leap second is the last of its minute, and the date at an offset is one of the calendar. -/
def IsShown : Value → Prop
  | .time t => t.LeapsLast
  | .datetime t => t.time.LeapsLast
  | .instant t => t.utc.time.LeapsLast ∧ t.local?.isSome = true
  | _ => True

/-- The text of a value. -/
def printed : Value → List Char
  | .bool b => Json.boolChars b
  | .int i => Json.integerChars i.toInt
  | .decimal d => d.text
  | .uuid u => u.text
  | .date d => d.text
  | .time t => t.text
  | .datetime t => t.text
  | .instant t => t.text
  | .duration d => d.text
  | _ => []

end Value

namespace Registry

variable {v : Value} {t : Target}

theorem convert_str (h : v.Printable) (loss : Bool) :
    standard.convert ⟨false, loss⟩ v .str = .ok (.str (String.ofList v.printed)) := by
  cases v <;> first | rfl | cases h

/-- A text that does not belong to the target becomes what the converter of the target's kind makes of it. -/
theorem convert_of_text {r : Registry} {s : Strictness} {text : String} {result : Conversion} (converter : Converter)
    (hcast : s.noExplicitCast = false) (hexact : t.isExact (.str text) = false) (hresolve : t.kind?.bind r.resolve? = some converter)
    (h : ∀ scope : Scope, converter scope (.str text) t = result) : r.convert s (.str text) t = result := by
  have hplain : unwrapped t (.str text) = .str text := by cases t <;> rfl
  unfold convert convertWith convertAt
  simp only [hexact, hcast, hplain, hresolve, Bool.false_eq_true, Bool.false_and, if_false]
  exact h _

/-- A text is read as the value that it tells, which is the one it was made of if clocks show that. -/
theorem exists_told (h : v.Printable) (ht : t.kind? = some v.kind) (hlocal : ∀ i, v = .instant i → i.local?.isSome = true)
    (loss : Bool) : ∃ w, standard.convert ⟨false, loss⟩ (.str (String.ofList v.printed)) t = .ok w ∧
      (v.same w = true ↔ v.IsShown) := by
  -- The kind of the value leaves one target, and with it the converter that has to read the text.
  cases v with
  | bool b =>
    cases t <;> cases ht
    exact ⟨.bool b, convert_of_text Converter.toBool rfl rfl rfl fun _ => Converter.toBool_text b, by simp [Value.same, Value.IsShown]⟩
  | int i =>
    cases t <;> cases ht
    exact ⟨.int i, convert_of_text Converter.toInt rfl rfl rfl fun _ => Converter.toInt_text i, by simp [Value.same, Value.IsShown]⟩
  | decimal d =>
    cases t <;> cases ht
    obtain ⟨w, hsame, hw⟩ := Converter.toDecimal_text d
    exact ⟨.decimal w, convert_of_text Converter.toDecimal rfl rfl rfl hw, by simp [Value.same, Value.IsShown, hsame]⟩
  | uuid u =>
    cases t <;> cases ht
    exact ⟨.uuid u, convert_of_text Converter.toUuid rfl rfl rfl fun _ => Converter.toUuid_text u, by simp [Value.same, Value.IsShown]⟩
  | date d =>
    cases t <;> cases ht
    exact ⟨.date d, convert_of_text Converter.toDate rfl rfl rfl fun _ => Converter.toDate_text d, by simp [Value.same, Value.IsShown]⟩
  | time time =>
    cases t <;> cases ht
    refine ⟨.time time.apparent, convert_of_text Converter.toTime rfl rfl rfl fun _ => Converter.toTime_text time, ?_⟩
    rw [Value.same, beq_iff_eq, Value.IsShown, ← Time.apparent_eq_iff, eq_comm]
  | datetime clock =>
    cases t <;> cases ht
    refine ⟨.datetime clock.apparent, convert_of_text Converter.toDateTime rfl rfl rfl fun _ => Converter.toDateTime_text clock, ?_⟩
    rw [Value.same, beq_iff_eq, Value.IsShown, ← DateTime.apparent_eq_iff, eq_comm]
  | instant i =>
    cases t <;> cases ht
    have hdate := hlocal i rfl
    refine ⟨.instant i.apparent, convert_of_text Converter.toDateTime rfl rfl rfl fun _ => Converter.toDateTime_instant h hdate, ?_⟩
    rw [Value.same, OffsetDateTime.same_apparent_iff, Value.IsShown, and_iff_left hdate]
  | duration d =>
    cases t <;> cases ht
    obtain ⟨hwhole, hmicros⟩ := h
    exact ⟨.duration d, convert_of_text Converter.toDuration rfl rfl rfl fun _ => Converter.toDuration_text hwhole hmicros,
      by simp [Value.same, Value.IsShown]⟩
  | _ => cases h

/-- An instant that clocks show on a date beyond the calendar is not read back. -/
theorem convert_beyond {i : OffsetDateTime} (hlocal : i.local? = none) (loss : Bool) :
    standard.convert ⟨false, loss⟩ (.str (String.ofList i.text)) .datetime =
      Scope.refuse (.str (String.ofList i.text)) .datetime .unrecognizedDateTime :=
  convert_of_text Converter.toDateTime rfl rfl rfl fun _ => Converter.toDateTime_beyond hlocal

/-- A value with a text of its own is read back from its text, whether data may be lost or not, if clocks show it, and in no
    other case. -/
theorem convert_of_convert_str (h : v.Printable) (ht : t.kind? = some v.kind) (loss : Bool) :
    ∃ text, standard.convert ⟨false, loss⟩ v .str = .ok (.str text) ∧
      ((∃ w, standard.convert ⟨false, loss⟩ (.str text) t = .ok w ∧ v.same w = true) ↔ v.IsShown) := by
  refine ⟨_, convert_str h loss, ?_⟩
  by_cases hlocal : ∀ i, v = .instant i → i.local?.isSome = true
  · obtain ⟨told, htold, hshown⟩ := exists_told h ht hlocal loss
    rw [← hshown, htold]
    exact ⟨fun ⟨w, hw, hsame⟩ => Except.ok.inj hw ▸ hsame, fun hsame => ⟨told, rfl, hsame⟩⟩
  · obtain ⟨i, hi⟩ := not_forall.mp hlocal
    obtain ⟨rfl, hbeyond⟩ := Classical.not_imp.mp hi
    have hnone : i.local? = none := by simpa using hbeyond
    cases t <;> cases ht
    refine iff_of_false ?_ fun hshown => hbeyond hshown.2
    rintro ⟨w, hw, -⟩
    cases (convert_beyond hnone loss).symm.trans hw

/-- A leap second of the first day that there is, seen from the east, and a length of time before zero. -/
theorem convert_of_leap_second :
    let clock : DateTime := ⟨⟨-96465292, by decide, by decide⟩, ⟨86399, 1500000000, by decide, by decide⟩⟩
    let instant : Value := .instant ⟨clock, 19800, by decide⟩
    let span : Value := .duration ⟨-1500000, by decide⟩
    (instant.Printable ∧ instant.IsShown ∧ String.ofList instant.printed = "-262143-01-02T05:29:60.500+05:30" ∧
      ∃ text, standard.convert ⟨false, false⟩ instant .str = .ok (.str text) ∧
        ((∃ w, standard.convert ⟨false, false⟩ (.str text) .datetime = .ok w ∧ instant.same w = true) ↔ instant.IsShown)) ∧
      span.Printable ∧ span.IsShown ∧ String.ofList span.printed = "-PT0.0015S" ∧
        ∃ text, standard.convert ⟨false, false⟩ span .str = .ok (.str text) ∧
          ((∃ w, standard.convert ⟨false, false⟩ (.str text) .duration = .ok w ∧ span.same w = true) ↔ span.IsShown) := by
  intro clock instant span
  have hinstant : instant.Printable := (by decide : (19800 : Int) % 60 = 0)
  have hspan : span.Printable := ⟨by decide, by decide⟩
  exact ⟨⟨hinstant, ⟨by decide, by decide⟩, by decide, convert_of_convert_str (t := .datetime) hinstant rfl false⟩,
    hspan, trivial, by decide, convert_of_convert_str (t := .duration) hspan rfl false⟩

/-- A leap second inside a minute is read as the second after it; and clocks an hour east of the last second of the calendar
    show a date that is not read. -/
theorem leap_second_moved :
    let leap : Time := ⟨37830, 1500000000, by decide, by decide⟩
    let late : OffsetDateTime := ⟨⟨⟨95026236, by decide, by decide⟩, ⟨86399, 0, by decide, by decide⟩⟩, 3600, by decide⟩
    ((Value.time leap).Printable ∧ standard.convert ⟨false, false⟩ (.time leap) .str = .ok (.str "10:30:31.500") ∧
      standard.convert ⟨false, false⟩ (.str "10:30:31.500") .time = .ok (.time ⟨37831, 500000000, by decide, by decide⟩) ∧
      (Value.time leap).same (.time ⟨37831, 500000000, by decide, by decide⟩) = false) ∧
      (Value.instant late).Printable ∧
        standard.convert ⟨false, false⟩ (.instant late) .str = .ok (.str "+262143-01-01T00:59:59+01:00") ∧
        standard.convert ⟨false, false⟩ (.str "+262143-01-01T00:59:59+01:00") .datetime =
          .error (.mismatch (.str "+262143-01-01T00:59:59+01:00") "datetime" .unrecognizedDateTime) := by
  intro leap late
  have hleap : String.ofList leap.text = "10:30:31.500" := by decide
  have hlate : String.ofList late.text = "+262143-01-01T00:59:59+01:00" := by decide
  have htold := convert_of_text (r := standard) (s := ⟨false, false⟩) Converter.toTime rfl rfl rfl fun _ =>
    Converter.toTime_text (t := .time) leap
  have happarent : leap.apparent = ⟨37831, 500000000, by decide, by decide⟩ := by decide
  have hbeyond : late.local? = none := by decide
  have hread := convert_beyond hbeyond false
  rw [hleap, happarent] at htold
  rw [hlate] at hread
  refine ⟨⟨trivial, hleap ▸ convert_str (v := .time leap) trivial false, htold, by simp [Value.same, leap]⟩, ?_, ?_, hread⟩
  · exact (by decide : (3600 : Int) % 60 = 0)
  · exact hlate ▸ convert_str (v := .instant late) (by decide : (3600 : Int) % 60 = 0) false

end Registry

end Conform

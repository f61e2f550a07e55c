import Conform.Calendar.Text
import Conform.Calendar.Zone
import Conform.Proofs.Calendar.Date
import Conform.Proofs.Text.Blank
import Mathlib.Data.List.TakeDrop

/-! Dates and times are read as they are written. Each part of a written date takes from the front of a text just what
    was written of it, so that the picture it is written by finds what it is made of. A leap second inside a minute is
    written as the second after it, and so it is read as that one. -/

namespace Conform

/-! ### What a clock seems to show -/

namespace Time

variable {t : Time}

/-- A leap second is the last second of its minute. -/
def LeapsLast (t : Time) : Prop := 1000000000 ≤ t.nano → t.second % 60 = 59

instance (t : Time) : Decidable t.LeapsLast := inferInstanceAs (Decidable (_ → _))

theorem not_leapsLast_iff : ¬t.LeapsLast ↔ 1000000000 ≤ t.nano ∧ t.second % 60 ≠ 59 := Classical.not_imp

/-- The time that the text of a time tells: that of a leap second inside a minute is the text of the second after it. -/
def apparent (t : Time) : Time :=
  if h : t.LeapsLast then t
  else
    have hleap := not_leapsLast_iff.mp h
    ⟨t.second + 1, t.nano - 1000000000, by have := t.second_lt; omega, by have := t.nano_lt; omega⟩

theorem apparent_of_leapsLast (h : t.LeapsLast) : t.apparent = t := dif_pos h

theorem second_apparent (h : ¬t.LeapsLast) : t.apparent.second = t.second + 1 := by rw [apparent, dif_neg h]

theorem nano_apparent (h : ¬t.LeapsLast) : t.apparent.nano = t.nano - 1000000000 := by rw [apparent, dif_neg h]

theorem leapsLast_apparent (t : Time) : t.apparent.LeapsLast := by
  by_cases h : t.LeapsLast
  · rwa [apparent_of_leapsLast h]
  · have hnano := t.nano_lt
    rw [LeapsLast, nano_apparent h]
    omega

theorem apparent_eq_iff : t.apparent = t ↔ t.LeapsLast :=
  ⟨fun h => h ▸ t.leapsLast_apparent, apparent_of_leapsLast⟩

theorem text_apparent (t : Time) : t.apparent.text = t.text := by
  by_cases h : t.LeapsLast
  · rw [apparent_of_leapsLast h]
  · obtain ⟨hleap, hinside⟩ := not_leapsLast_iff.mp h
    have hnano := t.nano_lt
    have hhour : (t.second + 1) / 3600 = t.second / 3600 := by omega
    have hminute : (t.second + 1) / 60 % 60 = t.second / 60 % 60 := by omega
    have hsecond : (t.second + 1) % 60 + (t.nano - 1000000000) / 1000000000 = t.second % 60 + t.nano / 1000000000 := by omega
    have hfraction : (t.nano - 1000000000) % 1000000000 = t.nano % 1000000000 := by omega
    rw [text, text, Calendar.clockText, Calendar.clockText, second_apparent h, nano_apparent h, hhour, hminute, hsecond, hfraction]

end Time

/-- The clock that the text of a clock tells. -/
def DateTime.apparent (t : DateTime) : DateTime := ⟨t.date, t.time.apparent⟩

theorem DateTime.apparent_eq_iff {t : DateTime} : t.apparent = t ↔ t.time.LeapsLast := by
  rw [← Time.apparent_eq_iff]
  exact ⟨fun h => congrArg DateTime.time h, fun h => by rw [apparent, h]⟩

theorem DateTime.text_apparent (t : DateTime) : t.apparent.text = t.text := by rw [text, text, apparent, t.time.text_apparent]

namespace Calendar

variable {c : Char} {cs ds rest : List Char} {found : Found} {picture : Picture} {n width low high least most : Nat}

/-! ### Digits at the front -/

theorem isDigit_of_head? (h : ∀ c ∈ ds, c.isDigit = true) (hne : ds ≠ []) :
    ∀ c ∈ (ds ++ rest).head?, c.isDigit = true := by
  cases ds with
  | nil => exact absurd rfl hne
  | cons d ds =>
    rintro c ⟨⟩
    exact h d List.mem_cons_self

theorem trimStart_digits (h : ∀ c ∈ ds, c.isDigit = true) (hne : ds ≠ []) : Text.trimStart (ds ++ rest) = ds ++ rest :=
  Text.trimStart_of_head fun c hc => Text.not_isBlank_of_isDigit (isDigit_of_head? h hne c hc)

/-- Digits are taken up to the most that may be, or to what is no digit. -/
theorem takeDigits?_append (h : ∀ c ∈ ds, c.isDigit = true) (hleast : least ≤ ds.length) (hmost : ds.length ≤ most)
    (hend : ds.length = most ∨ ∀ c ∈ rest.head?, c.isDigit = false) :
    takeDigits? least most (ds ++ rest) = some (ds, rest) := by
  have htaken : ((ds ++ rest).take most).takeWhile Char.isDigit = ds := by
    rw [List.take_append, List.take_of_length_le hmost, List.takeWhile_append_of_pos h]
    obtain hfull | hrest := hend
    · simp [hfull]
    · cases rest with
      | nil => simp
      | cons c rest =>
        cases most - ds.length with
        | zero => simp
        | succ k => simp [hrest c rfl]
  rw [takeDigits?, htaken, if_neg (by omega), List.drop_left]

theorem takeNumber?_eq_none (hleast : 0 < least) (h : ∀ c ∈ cs.head?, c.isDigit = false) :
    takeNumber? least most cs = none := by
  have hnothing : (cs.take most).takeWhile Char.isDigit = [] := by
    cases cs with
    | nil => simp
    | cons c rest =>
      cases most with
      | zero => rfl
      | succ k => simp [h c rfl]
  rw [takeNumber?, takeDigits?, hnothing, List.length_nil, if_pos hleast, Option.map_none]

/-- A number of a fixed width is taken whatever follows. -/
theorem takeNumber?_padded (hwidth : 0 < width) (hn : n < tenTo width) (hleast : least ≤ width) :
    takeNumber? least width (Digits.padded width n ++ rest) = some (n, rest) := by
  have hlength := Digits.length_padded hwidth hn
  rw [takeNumber?, takeDigits?_append (fun _ => Digits.isDigit_of_mem_padded) (by omega) hlength.le (.inl hlength)]
  simp

theorem takeShort?_padded (hn : n < 100) (hlow : low ≤ n) (hhigh : n ≤ high) :
    takeShort? low high (Digits.padded 2 n ++ rest) = some (n, rest) := by
  rw [takeShort?, trimStart_digits (fun _ => Digits.isDigit_of_mem_padded) Digits.padded_ne_nil,
    takeNumber?_padded (by decide) hn (by decide)]
  simp [hlow, hhigh]

/-- A year is taken as it is written: four digits, or any number of them behind a sign. -/
theorem takeYear?_yearText (year : Int) (hrest : ∀ c ∈ rest.head?, c.isDigit = false) :
    takeYear? (yearText year ++ rest) = some (year, rest) := by
  have hsigned (n : Nat) : Digits.span (Digits.padded 4 n ++ rest) = (Digits.padded 4 n, rest) :=
    Digits.span_append (fun _ => Digits.isDigit_of_mem_padded) hrest
  unfold yearText
  split
  next hfour =>
    have htrim : Text.trimStart (Digits.padded 4 year.toNat ++ rest) = Digits.padded 4 year.toNat ++ rest :=
      trimStart_digits (fun _ => Digits.isDigit_of_mem_padded) Digits.padded_ne_nil
    have hnumber : takeNumber? 1 4 (Digits.padded 4 year.toNat ++ rest) = some (year.toNat, rest) :=
      takeNumber?_padded (by decide) (by change year.toNat < 10000; omega) (by decide)
    have hdigit : ∀ c ∈ (Digits.padded 4 year.toNat ++ rest).head?, c.isDigit = true :=
      isDigit_of_head? (fun _ => Digits.isDigit_of_mem_padded) Digits.padded_ne_nil
    have hvalue : (year.toNat : Int) = year := Int.toNat_of_nonneg hfour.1
    rw [takeYear?, htrim]
    split
    next heq => exact absurd (hdigit '-' (by rw [heq]; rfl)) (by decide)
    next heq => exact absurd (hdigit '+' (by rw [heq]; rfl)) (by decide)
    · rw [hnumber]
      exact congrArg (fun y => some (y, rest)) hvalue
  next hlong =>
    split
    next hnegative =>
      have htrim : Text.trimStart ('-' :: Digits.padded 4 year.natAbs ++ rest) = '-' :: (Digits.padded 4 year.natAbs ++ rest) := rfl
      have hvalue : -(year.natAbs : Int) = year := by omega
      rw [takeYear?, htrim]
      simp only [hsigned, List.isEmpty_iff, Digits.padded_ne_nil, if_false, Digits.toNat_padded, hvalue]
    next hpositive =>
      have htrim : Text.trimStart ('+' :: Digits.padded 4 year.natAbs ++ rest) = '+' :: (Digits.padded 4 year.natAbs ++ rest) := rfl
      have hvalue : (year.natAbs : Int) = year := by omega
      rw [takeYear?, htrim]
      simp only [hsigned, List.isEmpty_iff, Digits.padded_ne_nil, if_false, Digits.toNat_padded, hvalue]

/-- The digits of a fraction count nanoseconds from the left. -/
theorem takeNanos?_padded (hwidth : 0 < width) (hnine : width ≤ 9) (hn : n < tenTo width)
    (hrest : ∀ c ∈ rest.head?, c.isDigit = false) :
    takeNanos? (Digits.padded width n ++ rest) = some (n * tenTo (9 - width), rest) := by
  have hlength := Digits.length_padded hwidth hn
  rw [takeNanos?, takeDigits?_append (fun _ => Digits.isDigit_of_mem_padded) (by omega) (by omega) (.inr hrest)]
  simp [hlength, Digits.dropWhile_isDigit hrest]

/-- The nanoseconds behind the point of a written clock; there is no point if there are none. -/
theorem fractionText_cases {nano : Nat} (hnano : nano < 1000000000) :
    (nano = 0 ∧ fractionText nano = []) ∨
      ∃ width k, 0 < width ∧ width ≤ 9 ∧ k < tenTo width ∧ nano = k * tenTo (9 - width) ∧ nano ≠ 0 ∧
        fractionText nano = '.' :: Digits.padded width k := by
  unfold fractionText
  split
  next hzero => exact .inl ⟨hzero, rfl⟩
  next hne =>
    split
    next hmillis =>
      have hk : nano / 1000000 < tenTo 3 := by change _ < 1000; omega
      have hvalue : nano = nano / 1000000 * tenTo 6 := by change _ = _ * 1000000; omega
      exact .inr ⟨3, nano / 1000000, by decide, by decide, hk, hvalue, hne, rfl⟩
    next =>
      split
      next hmicros =>
        have hk : nano / 1000 < tenTo 6 := by change _ < 1000000; omega
        have hvalue : nano = nano / 1000 * tenTo 3 := by change _ = _ * 1000; omega
        exact .inr ⟨6, nano / 1000, by decide, by decide, hk, hvalue, hne, rfl⟩
      next => exact .inr ⟨9, nano, by decide, by decide, hnano, (Nat.mul_one nano).symm, hne, rfl⟩

/-! ### Pieces -/

theorem take?_cons {piece : Piece} {found' : Found} (h : piece.take? found cs = some (found', rest)) :
    Picture.take? (piece :: picture) found cs = Picture.take? picture found' rest := by
  rw [Picture.take?, h]
  rfl

theorem take?_literal (c : Char) : (Piece.literal c).take? found (c :: rest) = some (found, rest) := by
  simp [Piece.take?, Text.dropPrefix?]

/-- A fraction of a second is taken as it is written, if neither a digit nor a point follows. -/
theorem take?_fraction {nano : Nat} (hnano : nano < 1000000000) (hrest : ∀ c ∈ rest.head?, c.isDigit = false ∧ c ≠ '.') :
    Piece.fraction.take? found (fractionText nano ++ rest) =
      some (if nano = 0 then found else { found with nano := some nano }, rest) := by
  obtain ⟨hzero, htext⟩ | ⟨width, k, hwidth, hnine, hk, hvalue, hne, htext⟩ := fractionText_cases hnano
  · rw [htext, List.nil_append, if_pos hzero, Piece.take?]
    rintro digits rfl
    exact (hrest '.' rfl).2 rfl
  · rw [htext, List.cons_append, if_neg hne, Piece.take?]
    dsimp only
    rw [takeNanos?_padded hwidth hnine hk fun c hc => (hrest c hc).1, ← hvalue]
    rfl

/-- A piece of one or two digits takes the two that are written. -/
theorem take?_short {piece : Piece} {f : Nat → Found}
    (hpiece : ∀ cs, piece.take? found cs = (takeShort? low high cs).map fun (n, rest) => (f n, rest)) (hn : n < 100)
    (hlow : low ≤ n) (hhigh : n ≤ high) : piece.take? found (Digits.padded 2 n ++ rest) = some (f n, rest) := by
  rw [hpiece, takeShort?_padded hn hlow hhigh]
  rfl

/-! ### Dates and clocks -/

/-- What is found of a written date, be it in the calendar or not. -/
def Found.withCivil (found : Found) (c : Civil) : Found :=
  { found with year := some c.year, month := some c.month, day := some c.day }

def Found.withDate (found : Found) (d : Date) : Found := found.withCivil d.civil

/-- What is found of a written time of day. -/
def Found.withTime (found : Found) (t : Time) : Found :=
  { found with
    hour := some (t.second / 3600)
    minute := some (t.second / 60 % 60)
    second := some (t.second % 60 + t.nano / 1000000000)
    nano := if t.nano % 1000000000 = 0 then found.nano else some (t.nano % 1000000000) }

/-- A date in figures is found as it is written. -/
theorem take?_civil (number : Int) :
    Picture.take? (figures '-' ++ picture) found (dateText (civil number) ++ rest) =
      Picture.take? picture (found.withCivil (civil number)) rest := by
  obtain ⟨hfirst, hlast, hday, hmost⟩ := civil_valid number
  have hdays := daysInMonth_le (civil number).year (civil number).month
  have hyear {tail : List Char} : Piece.year.take? found (yearText (civil number).year ++ '-' :: tail) =
      some ({ found with year := some (civil number).year }, '-' :: tail) := by
    rw [Piece.take?, takeYear?_yearText _ (by rintro c ⟨⟩; rfl)]
    rfl
  have hmonth {found : Found} {tail : List Char} : Piece.month.take? found (Digits.padded 2 (civil number).month ++ tail) =
      some ({ found with month := some (civil number).month }, tail) :=
    take?_short (f := fun n => { found with month := some n }) (fun _ => rfl) (by omega) hfirst hlast
  have hday {found : Found} {tail : List Char} : Piece.day.take? found (Digits.padded 2 (civil number).day ++ tail) =
      some ({ found with day := some (civil number).day }, tail) :=
    take?_short (f := fun n => { found with day := some n }) (fun _ => rfl) (by omega) hday (by omega)
  simp only [figures, dateText, List.cons_append, List.nil_append, List.append_assoc]
  rw [take?_cons hyear, take?_cons (take?_literal '-'), take?_cons hmonth, take?_cons (take?_literal '-'), take?_cons hday]
  rfl

theorem take?_date (d : Date) :
    Picture.take? (figures '-' ++ picture) found (d.text ++ rest) = Picture.take? picture (found.withDate d) rest :=
  take?_civil d.number

/-- A time of day is found as it is written, if neither a digit nor a point follows. -/
theorem take?_time (t : Time) (hrest : ∀ c ∈ rest.head?, c.isDigit = false ∧ c ≠ '.') :
    Picture.take? (clock ++ picture) found (t.text ++ rest) = Picture.take? picture (found.withTime t) rest := by
  have hday := t.second_lt
  have hnano := t.nano_lt
  have hhour {tail : List Char} : Piece.hour.take? found (Digits.padded 2 (t.second / 3600) ++ tail) =
      some ({ found with hour := some (t.second / 3600) }, tail) :=
    take?_short (f := fun n => { found with hour := some n }) (fun _ => rfl) (by omega) (Nat.zero_le _) (by omega)
  have hminute {found : Found} {tail : List Char} : Piece.minute.take? found (Digits.padded 2 (t.second / 60 % 60) ++ tail) =
      some ({ found with minute := some (t.second / 60 % 60) }, tail) :=
    take?_short (f := fun n => { found with minute := some n }) (fun _ => rfl) (by omega) (Nat.zero_le _) (by omega)
  have hsecond {found : Found} {tail : List Char} :
      Piece.second.take? found (Digits.padded 2 (t.second % 60 + t.nano / 1000000000) ++ tail) =
        some ({ found with second := some (t.second % 60 + t.nano / 1000000000) }, tail) :=
    take?_short (f := fun n => { found with second := some n }) (fun _ => rfl) (by omega) (Nat.zero_le _) (by omega)
  simp only [clock, wholeClock, Time.text, clockText, List.cons_append, List.nil_append, List.append_assoc]
  rw [take?_cons hhour, take?_cons (take?_literal ':'), take?_cons hminute, take?_cons (take?_literal ':'), take?_cons hsecond,
    take?_cons (take?_fraction (by omega) hrest), Found.withTime]
  split <;> rfl

theorem date?_withDate (d : Date) : ((({} : Found).withDate d).date?) = some d := by
  simp [Found.date?, Found.withDate, Found.withCivil, d.ofCivil?_civil]

/-- A clock shows the time that it is made of, a leap second as second 60. -/
theorem ofClock?_eq {t : Time} (hleap : t.LeapsLast) :
    Time.ofClock? (t.second / 3600) (t.second / 60 % 60) (t.second % 60 + t.nano / 1000000000) (t.nano % 1000000000) = some t := by
  obtain ⟨second, nano, hsecond, hnano⟩ := t
  simp only [Time.LeapsLast] at hleap
  dsimp only
  rw [Time.ofClock?, if_pos (by omega)]
  split
  next hsixty =>
    have hwhole : second / 3600 * 3600 + second / 60 % 60 * 60 + 59 = second := by omega
    have hfraction : nano % 1000000000 + 1000000000 = nano := by omega
    rw [hwhole, hfraction]
    exact dif_pos ⟨hsecond, hnano, hleap⟩
  next hplain =>
    have hwhole : second / 3600 * 3600 + second / 60 % 60 * 60 + (second % 60 + nano / 1000000000) = second := by omega
    have hfraction : nano % 1000000000 = nano := by omega
    rw [hwhole, hfraction]
    exact dif_pos ⟨hsecond, hnano, hleap⟩

theorem time?_withTime {t : Time} (hleap : t.LeapsLast) (hnano : found.nano = none) : (found.withTime t).time? = some t := by
  have hfound : (found.withTime t).nano.getD 0 = t.nano % 1000000000 := by
    simp only [Found.withTime]
    split
    next hzero => rw [hnano, hzero]; rfl
    · rfl
  rw [Found.time?, hfound]
  exact ofClock?_eq hleap

/-- What is found of a written date with a time. -/
def Found.withDateTime (found : Found) (t : DateTime) : Found := (found.withDate t.date).withTime t.time

theorem take?_dateTime (t : DateTime) (hrest : ∀ c ∈ rest.head?, c.isDigit = false ∧ c ≠ '.') :
    Picture.take? (figures '-' ++ .literal 'T' :: (clock ++ picture)) found (t.text ++ rest) =
      Picture.take? picture (found.withDateTime t) rest := by
  rw [DateTime.text, List.append_assoc, List.cons_append, take?_date, take?_cons (take?_literal 'T'), take?_time t.time hrest]
  rfl

theorem dateTime?_withDateTime {t : DateTime} (hleap : t.time.LeapsLast) : (({} : Found).withDateTime t).dateTime? = some t := by
  have hdate : (({} : Found).withDateTime t).date? = some t.date := date?_withDate t.date
  have htime : (({} : Found).withDateTime t).time? = some t.time := time?_withTime hleap rfl
  rw [Found.dateTime?, hdate, htime]
  rfl

theorem read?_eq {found' : Found} (h : picture.take? {} cs = some (found', [])) : picture.read? cs = some found' := by
  rw [Picture.read?, h]

/-! ### Texts without blanks -/

theorem solid_yearText (year : Int) : Text.Solid (yearText year) := by
  rw [yearText]
  split
  · exact Text.solid_padded
  · refine Text.solid_cons.mpr ⟨?_, Text.solid_padded⟩
    split <;> rfl

theorem solid_dateText (c : Civil) : Text.Solid (dateText c) := by
  simp only [dateText, Text.solid_append, Text.solid_cons]
  exact ⟨⟨solid_yearText _, rfl, Text.solid_padded⟩, rfl, Text.solid_padded⟩

theorem solid_clockText (second nano : Nat) : Text.Solid (clockText second nano) := by
  simp only [clockText, Text.solid_append, Text.solid_cons]
  refine ⟨⟨⟨Text.solid_padded, rfl, Text.solid_padded⟩, rfl, Text.solid_padded⟩, ?_⟩
  obtain ⟨-, htext⟩ | ⟨width, k, -, -, -, -, -, htext⟩ := fractionText_cases (Nat.mod_lt nano (by decide : 0 < 1000000000))
  · rw [htext]
    exact Text.solid_nil
  · rw [htext]
    exact Text.solid_cons.mpr ⟨rfl, Text.solid_padded⟩

end Calendar

open Calendar

theorem Date.ofChars?_text (d : Date) : Date.ofChars? d.text = some d := by
  have hread : (figures '-').read? d.text = some (({} : Found).withDate d) := by
    have htake : Picture.take? (figures '-' ++ []) {} (d.text ++ []) = some (({} : Found).withDate d, []) := take?_date d
    exact read?_eq (by rwa [List.append_nil, List.append_nil] at htake)
  rw [Date.ofChars?, datePictures, List.findSome?_cons, hread, Option.bind_some, date?_withDate]

theorem Time.ofChars?_text (t : Time) : Time.ofChars? t.text = some t.apparent := by
  suffices hlast : ∀ t : Time, t.LeapsLast → Time.ofChars? t.text = some t from t.text_apparent ▸ hlast _ t.leapsLast_apparent
  intro t hleap
  have hread : clock.read? t.text = some (({} : Found).withTime t) := by
    have htake : Picture.take? (clock ++ []) {} (t.text ++ []) = some (({} : Found).withTime t, []) := take?_time t nofun
    exact read?_eq (by rwa [List.append_nil, List.append_nil] at htake)
  rw [Time.ofChars?, timePictures, List.findSome?_cons, hread, Option.bind_some, time?_withTime hleap rfl]

theorem DateTime.ofChars?_text (t : DateTime) : DateTime.ofChars? t.text = some t.apparent := by
  suffices hlast : ∀ t : DateTime, t.time.LeapsLast → DateTime.ofChars? t.text = some t from
    t.text_apparent ▸ hlast _ t.time.leapsLast_apparent
  intro t hleap
  have hread : (figures '-' ++ .literal 'T' :: clock).read? t.text = some (({} : Found).withDateTime t) := by
    have htake : Picture.take? (figures '-' ++ .literal 'T' :: (clock ++ [])) {} (t.text ++ []) =
        some (({} : Found).withDateTime t, []) := take?_dateTime t nofun
    exact read?_eq (by rwa [List.append_nil, List.append_nil] at htake)
  rw [DateTime.ofChars?, dateTimePictures, List.findSome?_cons, hread, Option.bind_some, dateTime?_withDateTime hleap]
  rfl

theorem Date.solid_text (d : Date) : Text.Solid d.text := solid_dateText _

theorem Time.solid_text (t : Time) : Text.Solid t.text := solid_clockText _ _

theorem DateTime.solid_text (t : DateTime) : Text.Solid t.text := by
  rw [DateTime.text, Text.solid_append, Text.solid_cons]
  exact ⟨t.date.solid_text, rfl, t.time.solid_text⟩

end Conform

import Conform.Proofs.Calendar.Reading
import Conform.Proofs.Pattern.Known
import Mathlib.Data.List.Basic

/-! Instants are read as they are written. The mark at the end of a text tells an instant from a clock without an
    offset. No written instant is a mail date, and each is read as a timestamp if its year has four digits and else
    by the first picture. -/

namespace Conform

namespace Calendar

variable {c : Char} {cs ds rest : List Char} {found : Found} {picture : Picture}

/-! ### Offsets -/

/-- The part between the hours and the minutes of an offset is removed in either style that has one. -/
theorem part?_colon {style : OffsetStyle} (hstyle : style ≠ .joined) (h : ∀ c ∈ ds, c.isDigit = true) :
    style.part? (':' :: ds) = some ds := by
  cases style with
  | joined => exact absurd rfl hstyle
  | colon => rfl
  | loose =>
    rw [OffsetStyle.part?, List.dropWhile_cons_of_pos (by simp)]
    cases ds with
    | nil => rfl
    | cons d ds =>
      have hd := h d List.mem_cons_self
      have hcolon : d ≠ ':' := by
        rintro rfl
        cases hd
      rw [List.dropWhile_cons_of_neg (by simp [hcolon, Text.not_isBlank_of_isDigit hd])]

/-- An offset of whole minutes is taken as it is written. -/
theorem takeOffset?_offsetText {style : OffsetStyle} (hstyle : style ≠ .joined) {offset : Int} (hlt : offset.natAbs < 86400)
    (hminutes : offset % 60 = 0) : takeOffset? style (offsetText offset) = some (offset, []) := by
  obtain ⟨minutes, hm⟩ : ∃ minutes, minutes = (offset.natAbs + 30) / 60 := ⟨_, rfl⟩
  have hfirst : takeNumber? 2 2 (Digits.padded 2 (minutes / 60) ++ ':' :: Digits.padded 2 (minutes % 60)) =
      some (minutes / 60, ':' :: Digits.padded 2 (minutes % 60)) :=
    takeNumber?_padded (by decide) (by change _ < 100; omega) le_rfl
  have hsecond : takeNumber? 2 2 (Digits.padded 2 (minutes % 60)) = some (minutes % 60, []) := by
    have htake : takeNumber? 2 2 (Digits.padded 2 (minutes % 60) ++ []) = some (minutes % 60, []) :=
      takeNumber?_padded (by decide) (by change _ < 100; omega) le_rfl
    rwa [List.append_nil] at htake
  have hpart : style.part? (':' :: Digits.padded 2 (minutes % 60)) = some (Digits.padded 2 (minutes % 60)) :=
    part?_colon hstyle fun _ => Digits.isDigit_of_mem_padded
  have hsize : ((minutes / 60 : Nat) : Int) * 3600 + (minutes % 60 : Nat) * 60 = offset.natAbs := by omega
  have hlow : minutes % 60 < 60 := Nat.mod_lt _ (by decide)
  simp only [offsetText, ← hm, List.cons_append]
  by_cases hnegative : offset < 0
  · have hvalue : -(offset.natAbs : Int) = offset := by omega
    simp only [if_pos hnegative, takeOffset?, Option.bind_eq_bind, Option.bind_some, hfirst, hpart, hsecond, if_pos hlow, hsize,
      if_true, hvalue]
  · have hvalue : (offset.natAbs : Int) = offset := by omega
    simp only [if_neg hnegative, takeOffset?, Option.bind_eq_bind, Option.bind_some, hfirst, hpart, hsecond, if_pos hlow, hsize,
      Bool.false_eq_true, if_false, hvalue]

/-- A written offset has a sign, and hours and minutes of two digits each. -/
theorem offsetText_eq {offset : Int} (hlt : offset.natAbs < 86400) :
    ∃ sign hours minutes, (sign = '-' ∨ sign = '+') ∧ hours < 100 ∧ minutes < 100 ∧
      offsetText offset = sign :: (Digits.padded 2 hours ++ ':' :: Digits.padded 2 minutes) := by
  obtain ⟨total, htotal⟩ : ∃ total, total = (offset.natAbs + 30) / 60 := ⟨_, rfl⟩
  refine ⟨if offset < 0 then '-' else '+', total / 60, total % 60, ?_, by omega, by omega, by simp [offsetText, ← htotal]⟩
  split
  · exact .inl rfl
  · exact .inr rfl

/-! ### Timestamps -/

theorem bind_of_eq_some {α β : Type} {x : Option α} {a : α} {f : α → Option β} (h : x = some a) : (x >>= f) = f a := by
  rw [h]
  rfl

theorem dropPrefix?_singleton : Text.dropPrefix? [c] (c :: rest) = some rest := by simp [Text.dropPrefix?]

theorem takeFixed?_padded {n : Nat} (hn : n < 100) : takeFixed? 2 (Digits.padded 2 n ++ rest) = some (n, rest) :=
  takeNumber?_padded (by decide) hn le_rfl

/-- A written instant whose year has four digits is a timestamp. -/
theorem readTimestamp?_text {t : DateTime} (hlast : t.time.LeapsLast)
    (hyear : 0 ≤ t.date.civil.year ∧ t.date.civil.year ≤ 9999) {offset : Int} (hlt : offset.natAbs < 86400)
    (hminutes : offset % 60 = 0) :
    readTimestamp? (t.text ++ offsetText offset) = OffsetDateTime.ofLocal? t offset := by
  obtain ⟨hmonth, hday⟩ := t.date.civil_bounds
  have hsecond := t.time.second_lt
  have hnano := t.time.nano_lt
  have hyearText {rest : List Char} : takeFixed? 4 (Digits.padded 4 t.date.civil.year.toNat ++ rest) =
      some (t.date.civil.year.toNat, rest) :=
    takeNumber?_padded (by decide) (by change _ < 10000; omega) le_rfl
  have hyearValue : (t.date.civil.year.toNat : Int) = t.date.civil.year := Int.toNat_of_nonneg hyear.1
  obtain ⟨sign, hours, minutes, hsign, -, -, htext⟩ := offsetText_eq hlt
  generalize Digits.padded 2 hours ++ ':' :: Digits.padded 2 minutes = tail at htext
  have hoffset : takeOffset? .colon (sign :: tail) = some (offset, []) := by
    rw [← htext]
    exact takeOffset?_offsetText (by decide) hlt hminutes
  rw [DateTime.text, Date.text, dateText, yearText, if_pos hyear, Time.text, clockText, htext]
  simp only [List.append_assoc, List.cons_append]
  -- Each number is taken off the front in turn, with the mark behind it.
  unfold readTimestamp?
  rw [bind_of_eq_some hyearText]
  dsimp -zeta only
  rw [bind_of_eq_some dropPrefix?_singleton, bind_of_eq_some (takeFixed?_padded (show t.date.civil.month < 100 by omega))]
  dsimp -zeta only
  rw [bind_of_eq_some dropPrefix?_singleton, bind_of_eq_some (takeFixed?_padded (show t.date.civil.day < 100 by omega))]
  simp -zeta only [true_or, if_true]
  rw [bind_of_eq_some rfl]
  dsimp -zeta only
  rw [bind_of_eq_some (takeFixed?_padded (show t.time.second / 3600 < 100 by omega))]
  dsimp -zeta only
  rw [bind_of_eq_some dropPrefix?_singleton, bind_of_eq_some (takeFixed?_padded (show t.time.second / 60 % 60 < 100 by omega))]
  dsimp -zeta only
  rw [bind_of_eq_some dropPrefix?_singleton,
    bind_of_eq_some (takeFixed?_padded (show t.time.second % 60 + t.time.nano / 1000000000 < 100 by omega)), hyearValue]
  have hclock := ofClock?_eq hlast
  have hdate := t.date.ofCivil?_civil
  -- Behind the fraction, or at once if there is none, stands the sign of the offset.
  obtain ⟨hzero, hfraction⟩ | ⟨width, k, hwidth, hnine, hk, hvalue, -, hfraction⟩ :=
    fractionText_cases (Nat.mod_lt t.time.nano (by decide : 0 < 1000000000))
  · rw [hfraction, List.nil_append]
    rw [hzero] at hclock
    obtain rfl | rfl := hsign <;> simp [hoffset, hclock, hdate]
  · have hnanos : takeNanos? (Digits.padded width k ++ sign :: tail) = some (t.time.nano % 1000000000, sign :: tail) := by
      rw [hvalue]
      exact takeNanos?_padded hwidth hnine hk (by rintro c ⟨⟩; obtain rfl | rfl := hsign <;> rfl)
    rw [hfraction, List.cons_append]
    obtain rfl | rfl := hsign <;> simp [hnanos, hoffset, hclock, hdate]

theorem readTimestamp?_eq_none (h : ∀ c ∈ cs.head?, c.isDigit = false) : readTimestamp? cs = none := by
  rw [readTimestamp?, takeFixed?, takeNumber?_eq_none (by decide) h]
  rfl

/-! ### Mail dates -/

/-- What begins with neither a letter nor a blank names nothing. -/
theorem takeName?_eq_none {names : List (List Char)} (hnames : ∀ name ∈ names, name.head?.any Char.isAlpha = true)
    (hc : c.toLower.isAlpha = false) : takeName? names (c :: rest) = none := by
  rw [takeName?, List.findSome?_eq_none_iff]
  rintro ⟨name, i⟩ hmem
  have hname := hnames name (List.fst_mem_of_mem_zipIdx hmem)
  cases name with
  | nil => cases hname
  | cons s ss =>
    have hne : s ≠ c.toLower := by
      rintro rfl
      exact absurd (hname.symm.trans hc) (by decide)
    simp [Text.dropPrefixIgnoringCase?, hne]

/-- A mail date begins with a letter, or with one or two digits and a blank. -/
theorem readMailDate?_eq_none (hblank : Text.isBlank c = false) (hletter : c.toLower.isAlpha = false)
    (h : takeNumber? 1 2 (c :: cs) = none ∨
      ∃ n d rest, takeNumber? 1 2 (c :: cs) = some (n, d :: rest) ∧ Text.isBlank d = false) :
    readMailDate? (c :: cs) = none := by
  have htrim : Text.trimStart (c :: cs) = c :: cs := Text.trimStart_of_head (by rintro d ⟨⟩; exact hblank)
  have hname : takeName? weekdayNames (c :: cs) = none := takeName?_eq_none (by decide) hletter
  unfold readMailDate?
  rw [htrim]
  dsimp only
  rw [hname]
  dsimp only
  rw [bind_of_eq_some rfl, htrim]
  obtain hnumber | ⟨n, d, rest, hnumber, hd⟩ := h
  · rw [hnumber]
    rfl
  · have hskip : skipBlanks? (d :: rest) = none := by simp [skipBlanks?, hd]
    rw [bind_of_eq_some hnumber, hskip]
    rfl

theorem not_isAlpha_toLower (h : c.isDigit = true) : c.toLower.isAlpha = false := by
  simpa using Digits.forall_isDigit (p := fun c => !c.toLower.isAlpha) (by decide) h

/-- A year of more than four digits, or before the first, begins with a sign. -/
theorem yearText_signed {year : Int} (h : ¬(0 ≤ year ∧ year ≤ 9999)) :
    ∃ sign tail, (sign = '-' ∨ sign = '+') ∧ yearText year = sign :: tail := by
  rw [yearText, if_neg h]
  refine ⟨_, _, ?_, rfl⟩
  split
  · exact .inl rfl
  · exact .inr rfl

/-- A written year begins with a sign, or with more than two digits. -/
theorem readMailDate?_yearText (year : Int) (rest : List Char) : readMailDate? (yearText year ++ rest) = none := by
  by_cases hfour : 0 ≤ year ∧ year ≤ 9999
  · have hlength : 4 ≤ (Digits.padded 4 year.toNat).length := Digits.le_length_padded
    have hdigits (c : Char) (hc : c ∈ Digits.padded 4 year.toNat) : c.isDigit = true := Digits.isDigit_of_mem_padded hc
    rw [yearText, if_pos hfour]
    obtain ⟨a, b, c, digits, hpadded⟩ : ∃ a b c digits, Digits.padded 4 year.toNat = a :: b :: c :: digits := by
      rcases hpadded : Digits.padded 4 year.toNat with _ | ⟨a, _ | ⟨b, _ | ⟨c, digits⟩⟩⟩
      · simp [hpadded] at hlength
      · simp [hpadded] at hlength
      · simp [hpadded] at hlength
      · exact ⟨a, b, c, digits, rfl⟩
    rw [hpadded] at hdigits ⊢
    have ha := hdigits a (by simp)
    have hb := hdigits b (by simp)
    have hc := hdigits c (by simp)
    have htake : takeDigits? 1 2 ([a, b] ++ c :: (digits ++ rest)) = some ([a, b], c :: (digits ++ rest)) :=
      takeDigits?_append (by simp [ha, hb]) (Nat.le_succ 1) le_rfl (.inl rfl)
    have hnumber : takeNumber? 1 2 (a :: b :: c :: (digits ++ rest)) = some (Digits.toNat [a, b], c :: (digits ++ rest)) :=
      congrArg (Option.map _) htake
    exact readMailDate?_eq_none (Text.not_isBlank_of_isDigit ha) (not_isAlpha_toLower ha)
      (.inr ⟨_, _, _, hnumber, Text.not_isBlank_of_isDigit hc⟩)
  · obtain ⟨sign, tail, hsign, htext⟩ := yearText_signed hfour
    have hdigit : ∀ c ∈ (sign :: (tail ++ rest)).head?, c.isDigit = false := by
      rintro c ⟨⟩
      obtain rfl | rfl := hsign <;> rfl
    rw [htext]
    refine readMailDate?_eq_none ?_ ?_ (.inl (takeNumber?_eq_none (by decide) hdigit)) <;> obtain rfl | rfl := hsign <;> rfl

/-! ### Marks of a zone -/

/-- A text that ends with a digit has no mark for UTC to be written as an offset. -/
theorem withOffset_of_isDigit (hc : c.isDigit = true) : withOffset (cs ++ [c]) = cs ++ [c] := by
  have hother : (c.toLower != 'z' && c.toLower != 'c' && c.toLower != 't') = true :=
    Digits.forall_isDigit (p := fun c => c.toLower != 'z' && c.toLower != 'c' && c.toLower != 't') (by decide) hc
  simp only [Bool.and_eq_true, bne_iff_ne, and_assoc] at hother
  obtain ⟨hz, hu, hg⟩ := hother
  have hnone (ending : List Char) {e : Char} (he : c.toLower ≠ e) : dropEnding? (ending ++ [e]) (cs ++ [c]) = none := by
    simp [dropEnding?, Text.dropPrefixIgnoringCase?, he.symm]
  have hzulu : dropEnding? ['z'] (cs ++ [c]) = none := hnone [] hz
  have hutc : dropEnding? ['u', 't', 'c'] (cs ++ [c]) = none := hnone ['u', 't'] hu
  have hgmt : dropEnding? ['g', 'm', 't'] (cs ++ [c]) = none := hnone ['g', 'm'] hg
  rw [withOffset, hzulu, hutc, hgmt]
  rfl

/-- What a clock without an offset shows: digits, colons and a point. -/
def IsClockChar (c : Char) : Prop := c.isDigit = true ∨ c = ':' ∨ c = '.'

/-- No mark of a zone begins with what a clock shows. -/
theorem not_isZone_of_isClockChar (hc : IsClockChar c) : isZone (c :: rest) = false := by
  have hmem : c ∈ ':' :: '.' :: Digits.all := by
    obtain hdigit | rfl | rfl := hc
    · exact List.mem_cons_of_mem _ (List.mem_cons_of_mem _ (Digits.mem_all hdigit))
    · exact List.mem_cons_self
    · exact List.mem_cons_of_mem _ List.mem_cons_self
  have hother : ((':' :: '.' :: Digits.all).all fun c => c != 'z' && c != 'Z' && c != '+' && c != '-' && c.toLower != 'g' &&
      c.toLower != 'u' && !Text.isBlank c) = true := by decide
  have hc := List.all_eq_true.mp hother c hmem
  simp only [Bool.and_eq_true, bne_iff_ne, Bool.not_eq_true', and_assoc] at hc
  obtain ⟨hz, hZ, hplus, hminus, hg, hu, hblank⟩ := hc
  simp [isZone, isOffset, isZoneName, hz, hZ, hplus, hminus, hg, hu, hblank]

theorem not_isZone_of_length (h : 6 < cs.length) : isZone cs = false := by
  have hoffset := isOffset_of_length h
  match cs with
  | a :: b :: c :: d :: e :: f :: g :: cs => simp [isZone, hoffset, isZoneName]

/-- A text that ends with a clock has no mark of a zone. -/
theorem beforeZone?_clock {front clock : List Char} (hclock : ∀ c ∈ clock, IsClockChar c) (hlength : 6 ≤ clock.length) :
    beforeZone? (front ++ clock) = none := by
  induction front with
  | nil =>
    clear hlength
    induction clock with
    | nil => rfl
    | cons c clock ih =>
      obtain ⟨hc, hclock⟩ := List.forall_mem_cons.mp hclock
      have hnone : beforeZone? clock = none := ih hclock
      rw [List.nil_append, beforeZone?_cons, not_isZone_of_isClockChar hc, if_neg (by decide), hnone]
      rfl
  | cons c front ih =>
    have hlong : 6 < (c :: (front ++ clock)).length := by
      simp only [List.length_cons, List.length_append]
      omega
    rw [List.cons_append, beforeZone?_cons, not_isZone_of_length hlong, if_neg (by decide), ih]
    rfl

theorem beforeZone?_mark {front mark : List Char} (hmark : isZone mark = true) (hne : mark ≠ []) :
    (beforeZone? (front ++ mark)).isSome = true := by
  induction front with
  | nil =>
    cases mark with
    | nil => exact absurd rfl hne
    | cons c mark => rw [List.nil_append, beforeZone?_cons, if_pos hmark, Option.isSome_some]
  | cons c front ih =>
    rw [List.cons_append, beforeZone?_cons]
    split
    · rfl
    · rwa [Option.isSome_map]

theorem isZone_offsetText {offset : Int} (hlt : offset.natAbs < 86400) : isZone (offsetText offset) = true := by
  have hpair {n : Nat} (hn : n < 100) : ∃ a b, Digits.padded 2 n = [a, b] ∧ Pattern.Known.digit.contains a = true ∧
      Pattern.Known.digit.contains b = true := by
    obtain ⟨a, b, hpair⟩ := List.length_eq_two.mp (Digits.length_padded (by decide : 0 < 2) hn)
    have hdigit {c : Char} (hc : c ∈ [a, b]) : Pattern.Known.digit.contains c = true := by
      have hc : c.isDigit = true := Digits.isDigit_of_mem_padded (hpair ▸ hc)
      rw [Pattern.Known.contains_digit (Nat.lt_of_le_of_lt (Char.isDigit_iff_toNat.mp hc).2 (by decide)), hc]
    exact ⟨a, b, hpair, hdigit (by simp), hdigit (by simp)⟩
  obtain ⟨sign, hours, minutes, hsign, hh, hm, htext⟩ := offsetText_eq hlt
  obtain ⟨a, b, hhours, ha, hb⟩ := hpair hh
  obtain ⟨c, d, hminutes, hc, hd⟩ := hpair hm
  rw [htext, hhours, hminutes]
  obtain rfl | rfl := hsign <;> simp [isZone, isOffset, ha, hb, hc, hd]

theorem offsetText_eq_append {offset : Int} (hlt : offset.natAbs < 86400) :
    ∃ front c, offsetText offset = front ++ [c] ∧ c.isDigit = true := by
  obtain ⟨sign, hours, minutes, -, -, -, htext⟩ := offsetText_eq hlt
  obtain ⟨front, c, hend⟩ := (List.eq_nil_or_concat (Digits.padded 2 minutes)).resolve_left Digits.padded_ne_nil
  have hc : c ∈ Digits.padded 2 minutes := by simp [hend]
  exact ⟨sign :: (Digits.padded 2 hours ++ ':' :: front), c, by simp [htext, hend], Digits.isDigit_of_mem_padded hc⟩

/-! ### Clocks -/

/-- A written time of day is what a clock shows, in eight characters at least. -/
theorem text_spec (t : Time) : (∀ c ∈ t.text, IsClockChar c) ∧ 8 ≤ t.text.length := by
  have hpadded {width n : Nat} : ∀ c ∈ Digits.padded width n, IsClockChar c := fun c hc => .inl (Digits.isDigit_of_mem_padded hc)
  have hcolon : IsClockChar ':' := .inr (.inl rfl)
  have hlength {n : Nat} : 2 ≤ (Digits.padded 2 n).length := Digits.le_length_padded
  rw [Time.text, clockText]
  constructor
  · simp only [List.forall_mem_append, List.forall_mem_cons]
    refine ⟨⟨⟨hpadded, hcolon, hpadded⟩, hcolon, hpadded⟩, ?_⟩
    obtain ⟨-, hnone⟩ | ⟨width, k, -, -, -, -, -, htext⟩ := fractionText_cases (Nat.mod_lt t.nano (by decide : 0 < 1000000000))
    · rw [hnone]
      exact List.forall_mem_nil _
    · rw [htext]
      exact List.forall_mem_cons.mpr ⟨.inr (.inr rfl), hpadded⟩
  · have hhour := hlength (n := t.second / 3600)
    have hminute := hlength (n := t.second / 60 % 60)
    have hsecond := hlength (n := t.second % 60 + t.nano / 1000000000)
    simp only [List.length_append, List.length_cons]
    omega

/-- A written instant is found by the first picture of its kind. -/
theorem read?_dateTime_offset {t : DateTime} (hlast : t.time.LeapsLast) {offset : Int} (hlt : offset.natAbs < 86400)
    (hminutes : offset % 60 = 0) :
    (Picture.read? (figures '-' ++ .literal 'T' :: clock ++ [.offset]) (t.text ++ offsetText offset)).bind Found.offsetDateTime? =
      OffsetDateTime.ofLocal? t offset := by
  obtain ⟨sign, hours, minutes, hsign, -, -, htext⟩ := offsetText_eq hlt
  have hrest : ∀ c ∈ (offsetText offset).head?, c.isDigit = false ∧ c ≠ '.' := by
    rw [htext]
    rintro c ⟨⟩
    obtain rfl | rfl := hsign <;> decide
  have htrim : Text.trimStart (offsetText offset) = offsetText offset := by
    refine Text.trimStart_of_head ?_
    rw [htext]
    rintro c ⟨⟩
    obtain rfl | rfl := hsign <;> rfl
  have hoffset : Piece.offset.take? (({} : Found).withDateTime t) (offsetText offset) =
      some ({ ({} : Found).withDateTime t with offset := some offset }, []) := by
    rw [Piece.take?, htrim, takeOffset?_offsetText (by decide) hlt hminutes]
    rfl
  have htake : Picture.take? (figures '-' ++ .literal 'T' :: (clock ++ [.offset])) {} (t.text ++ offsetText offset) =
      some ({ ({} : Found).withDateTime t with offset := some offset }, []) := by
    rw [take?_dateTime t hrest, take?_cons hoffset]
    rfl
  have hclock : ({ ({} : Found).withDateTime t with offset := some offset } : Found).dateTime? = some t :=
    dateTime?_withDateTime hlast
  rw [List.append_assoc, List.cons_append, read?_eq htake, Option.bind_some, Found.offsetDateTime?, hclock]
  rfl

/-! ### Dates beyond the calendar -/

/-- A piece that finds no part of a date. -/
def Piece.isUndated : Piece → Bool
  | .year | .month | .day | .monthName | .shortMonthName => false
  | _ => true

theorem date_of_take? {found' : Found} (hpicture : picture.all Piece.isUndated = true)
    (h : picture.take? found cs = some (found', rest)) :
    found'.year = found.year ∧ found'.month = found.month ∧ found'.day = found.day := by
  induction picture generalizing found cs with
  | nil =>
    cases h
    exact ⟨rfl, rfl, rfl⟩
  | cons piece picture ih =>
    rw [List.all_cons, Bool.and_eq_true] at hpicture
    obtain ⟨⟨next, behind⟩, hpiece, h⟩ := Option.bind_eq_some_iff.mp h
    obtain ⟨hyear, hmonth, hday⟩ := ih hpicture.2 h
    have hnext : next.year = found.year ∧ next.month = found.month ∧ next.day = found.day := by
      cases piece with
      | year | month | day | monthName | shortMonthName => exact absurd hpicture.1 (by decide)
      | blanks =>
        cases hpiece
        exact ⟨rfl, rfl, rfl⟩
      | fraction =>
        unfold Piece.take? at hpiece
        dsimp only at hpiece
        split at hpiece
        · obtain ⟨_, -, heq⟩ := Option.map_eq_some_iff.mp hpiece
          cases heq
          exact ⟨rfl, rfl, rfl⟩
        · cases hpiece
          exact ⟨rfl, rfl, rfl⟩
      | _ =>
        obtain ⟨_, -, heq⟩ := Option.map_eq_some_iff.mp hpiece
        cases heq
        exact ⟨rfl, rfl, rfl⟩
    exact ⟨hyear.trans hnext.1, hmonth.trans hnext.2.1, hday.trans hnext.2.2⟩

/-- A picture that finds no date in a text. -/
def Picture.Dateless (cs : List Char) (picture : Picture) : Prop := ∀ found, picture.read? cs = some found → found.date? = none

theorem dateless_of_take? (h : picture.take? {} cs = none) : picture.Dateless cs := by
  intro found hread
  rw [Picture.read?, h] at hread
  cases hread

theorem take?_cons_of_none {piece : Piece} (h : piece.take? found cs = none) : Picture.take? (piece :: picture) found cs = none := by
  rw [Picture.take?, h]
  rfl

/-- Neither a number of few digits nor a name begins with a sign. -/
theorem take?_sign {piece : Piece}
    (hpiece : piece = .day ∨ piece = .month ∨ piece = .monthName ∨ piece = .weekdayName) (hc : c = '-' ∨ c = '+')
    (found : Found) (tail : List Char) : piece.take? found (c :: tail) = none := by
  have hshort (low high : Nat) : takeShort? low high (c :: tail) = none := by
    have hdigit : ∀ d ∈ (c :: tail).head?, d.isDigit = false := by rintro d ⟨⟩; obtain rfl | rfl := hc <;> rfl
    have htrim : Text.trimStart (c :: tail) = c :: tail :=
      Text.trimStart_of_head (by rintro d ⟨⟩; obtain rfl | rfl := hc <;> rfl)
    rw [takeShort?, htrim, takeNumber?_eq_none (by decide) hdigit]
    rfl
  have hname {names : List (List Char)} (hnames : ∀ name ∈ names, name.head?.any Char.isAlpha = true) :
      takeName? names (c :: tail) = none := takeName?_eq_none hnames (by obtain rfl | rfl := hc <;> rfl)
  obtain rfl | rfl | rfl | rfl := hpiece
  · rw [Piece.take?, hshort, Option.map_none]
  · rw [Piece.take?, hshort, Option.map_none]
  · have hnone : takeName? (monthNames.map Prod.fst) (c :: tail) = none := hname (by decide)
    rw [Piece.take?, takeMonth?, takeShortMonth?, hnone]
    rfl
  · rw [Piece.take?, hname (by decide), Option.map_none]

section Beyond

variable {number : Int} (hbeyond : Date.ofNumber? number = none)

include hbeyond

/-- The year of a day beyond the calendar begins with a sign. -/
theorem exists_sign : ∃ sign tail, (sign = '-' ∨ sign = '+') ∧ dateText (civil number) = sign :: tail := by
  have hyear : ¬(0 ≤ (civil number).year ∧ (civil number).year ≤ 9999) := fun h => by
    have hsome := Date.isSome_ofNumber? h
    rw [hbeyond] at hsome
    cases hsome
  obtain ⟨sign, tail, hsign, htext⟩ := yearText_signed hyear
  exact ⟨sign, _, hsign, by rw [dateText, htext]; rfl⟩

/-- A picture that has the date in figures finds what is written, and no date. -/
theorem dateless_figures (hfront : picture.take 5 = figures '-') (hback : (picture.drop 5).all Piece.isUndated = true) :
    picture.Dateless (dateText (civil number) ++ rest) := by
  intro found hread
  rw [Picture.read?, ← List.take_append_drop 5 picture, hfront, take?_civil] at hread
  split at hread
  next htake =>
    cases hread
    obtain ⟨hyear, hmonth, hday⟩ := date_of_take? hback htake
    simp [Found.date?, hyear, hmonth, hday, Found.withCivil, Date.ofCivil?_eq, hbeyond]
  next => cases hread

omit hbeyond in
theorem dateless_year {piece : Piece} (h : ∀ found tail, piece.take? found ('-' :: tail) = none) (picture : Picture) :
    Picture.Dateless (dateText (civil number) ++ rest) (.year :: piece :: picture) := by
  refine dateless_of_take? ?_
  have hyear {tail : List Char} : Piece.year.take? {} (yearText (civil number).year ++ '-' :: tail) =
      some ({ year := some (civil number).year }, '-' :: tail) := by
    rw [Piece.take?, takeYear?_yearText _ (by rintro c ⟨⟩; rfl)]
    rfl
  simp only [dateText, List.append_assoc, List.cons_append]
  rw [take?_cons hyear, take?_cons_of_none (h _ _)]

theorem dateless_sign {piece : Piece} (h : ∀ c tail, c = '-' ∨ c = '+' → piece.take? {} (c :: tail) = none) (picture : Picture) :
    Picture.Dateless (dateText (civil number) ++ rest) (piece :: picture) := by
  obtain ⟨sign, tail, hsign, htext⟩ := exists_sign hbeyond
  rw [htext]
  exact dateless_of_take? (take?_cons_of_none (h _ _ hsign))

/-- No picture finds a date in the text of a day beyond the calendar. -/
theorem dateless_of_beyond :
    ∀ picture ∈ datePictures ++ dateTimePictures ++ offsetDateTimePictures, picture.Dateless (dateText (civil number) ++ rest) := by
  have hmonth (found : Found) (tail : List Char) : Piece.month.take? found ('-' :: tail) = none :=
    take?_sign (.inr (.inl rfl)) (.inl rfl) found tail
  have hslash (found : Found) (tail : List Char) : (Piece.literal '/').take? found ('-' :: tail) = none := rfl
  have hpoint (found : Found) (tail : List Char) : (Piece.literal '.').take? found ('-' :: tail) = none := rfl
  have hday (c : Char) (tail : List Char) (hc : c = '-' ∨ c = '+') : Piece.day.take? {} (c :: tail) = none :=
    take?_sign (.inl rfl) hc {} tail
  have hmonthName (c : Char) (tail : List Char) (hc : c = '-' ∨ c = '+') : Piece.monthName.take? {} (c :: tail) = none :=
    take?_sign (.inr (.inr (.inl rfl))) hc {} tail
  have hweekday (c : Char) (tail : List Char) (hc : c = '-' ∨ c = '+') : Piece.weekdayName.take? {} (c :: tail) = none :=
    take?_sign (.inr (.inr (.inr rfl))) hc {} tail
  simp only [List.forall_mem_append, datePictures, dateTimePictures, offsetDateTimePictures, List.forall_mem_cons]
  exact ⟨⟨⟨dateless_figures hbeyond rfl rfl, dateless_year hslash _, dateless_year hpoint _, dateless_year hmonth _,
      dateless_sign hbeyond hday _, dateless_sign hbeyond hmonthName _, List.forall_mem_nil _⟩,
    dateless_figures hbeyond rfl rfl, dateless_figures hbeyond rfl rfl, dateless_figures hbeyond rfl rfl,
      dateless_figures hbeyond rfl rfl, dateless_year hslash _, dateless_year hslash _, dateless_year hmonth _,
      dateless_sign hbeyond hweekday _, List.forall_mem_nil _⟩,
    dateless_figures hbeyond rfl rfl, dateless_figures hbeyond rfl rfl, dateless_figures hbeyond rfl rfl,
      dateless_figures hbeyond rfl rfl, dateless_year hslash _, List.forall_mem_nil _⟩

end Beyond

end Calendar

open Calendar

namespace DateTime

theorem make?_time {t : Time} (h : t.LeapsLast) : Time.make? t.second t.nano = some t := dif_pos ⟨t.second_lt, t.nano_lt, h⟩

theorem ofEpoch?_epoch {t : DateTime} (h : t.time.LeapsLast) : ofEpoch? t.epoch t.time.nano = some t := by
  have hday := t.time.second_lt
  have hdate : t.epoch / 86400 = t.date.number := by
    rw [epoch]
    omega
  have hsecond : (t.epoch % 86400).toNat = t.time.second := by
    rw [epoch]
    omega
  rw [ofEpoch?, hdate, hsecond, Date.ofNumber?_number, make?_time h]
  rfl

theorem beforeZone?_text (t : DateTime) : beforeZone? t.text = none := by
  obtain ⟨hclock, hlength⟩ := text_spec t.time
  have hnone : beforeZone? (t.date.text ++ ['T'] ++ t.time.text) = none := beforeZone?_clock hclock (by omega)
  rwa [List.append_assoc] at hnone

end DateTime

namespace Time

variable {t : Time} {seconds : Int}

theorem shift_shift (t : Time) (seconds : Int) : (t.shift seconds).shift (-seconds) = t := by
  obtain ⟨second, nano, hsecond, hnano⟩ := t
  simp only [shift, Time.mk.injEq, and_true]
  omega

/-- What is moved by whole minutes keeps its place in the minute. -/
theorem apparent_shift (hminutes : seconds % 60 = 0) : (t.shift seconds).apparent = t.apparent.shift seconds := by
  have hday := t.second_lt
  have hplace : (t.shift seconds).second % 60 = t.second % 60 := by
    rw [second_shift]
    omega
  by_cases h : t.LeapsLast
  · have hshift : (t.shift seconds).LeapsLast := fun hnano => hplace.trans (h hnano)
    rw [apparent_of_leapsLast h, apparent_of_leapsLast hshift]
  · have hshift : ¬(t.shift seconds).LeapsLast := fun hshift => h fun hnano => hplace.symm.trans (hshift hnano)
    obtain ⟨-, hinside⟩ := not_leapsLast_iff.mp h
    have hsecond : (t.shift seconds).apparent.second = (t.apparent.shift seconds).second := by
      rw [second_apparent hshift, second_shift, second_shift, second_apparent h]
      omega
    have hnano : (t.shift seconds).apparent.nano = (t.apparent.shift seconds).nano := by
      rw [nano_apparent hshift, nano_shift, nano_shift, nano_apparent h]
    generalize (t.shift seconds).apparent = u at hsecond hnano
    generalize t.apparent.shift seconds = w at hsecond hnano
    cases u
    cases w
    exact Time.mk.injEq .. ▸ ⟨hsecond, hnano⟩

end Time

namespace OffsetDateTime

variable {t : OffsetDateTime}

/-- The instant that the text of an instant tells. -/
def apparent (t : OffsetDateTime) : OffsetDateTime := ⟨t.utc.apparent, t.offset, t.offset_lt⟩

theorem same_apparent_iff : t.same t.apparent = true ↔ t.utc.time.LeapsLast := by
  rw [same, decide_eq_true_iff, ← DateTime.apparent_eq_iff, eq_comm]
  rfl

theorem shown_eq (t : OffsetDateTime) : t.shown = ((t.utc.epoch + t.offset) / 86400, t.clock.second) := by
  have hsecond : ((t.utc.epoch + t.offset) % 86400).toNat = t.clock.second := by
    rw [clock, Time.second_shift, DateTime.epoch]
    omega
  rw [← hsecond]
  rfl

theorem local?_eq_none_iff : t.local? = none ↔ Date.ofNumber? t.shown.1 = none := by
  rw [local?, DateTime.shift?, Option.map_eq_none_iff, shown_eq]

/-- An instant whose offset has whole minutes is the one at which clocks show what they do. -/
theorem exists_shown {clock : DateTime} (hminutes : t.offset % 60 = 0) (hlocal : t.local? = some clock) :
    t.text = clock.text ++ offsetText t.offset ∧ ofLocal? clock.apparent t.offset = some t.apparent := by
  obtain ⟨date, hdate, rfl⟩ := Option.map_eq_some_iff.mp hlocal
  have hnumber : date.number = (t.utc.epoch + t.offset) / 86400 := by
    unfold Date.ofNumber? at hdate
    split at hdate
    · cases hdate
      rfl
    · cases hdate
  constructor
  · rw [text, shown_eq, DateTime.text, Date.text, Date.civil, hnumber]
    rfl
  · have hsecond := t.utc.time.second_lt
    have hday : ((⟨date, t.utc.time.shift t.offset⟩ : DateTime).apparent.epoch + -t.offset) / 86400 = t.utc.date.number := by
      simp only [DateTime.epoch, DateTime.apparent, Time.apparent_shift hminutes, hnumber, Time.second_shift]
      by_cases h : t.utc.time.LeapsLast
      · rw [Time.apparent_of_leapsLast h]
        omega
      · obtain ⟨-, hinside⟩ := Time.not_leapsLast_iff.mp h
        rw [Time.second_apparent h]
        omega
    have hshift : (⟨date, t.utc.time.shift t.offset⟩ : DateTime).apparent.shift? (-t.offset) = some t.utc.apparent := by
      rw [DateTime.shift?, hday, Date.ofNumber?_number, Option.map_some, DateTime.apparent, Time.apparent_shift hminutes,
        Time.shift_shift]
      rfl
    rw [ofLocal?, dif_pos t.offset_lt, hshift]
    rfl

/-- No written instant is a mail date, and none is marked as one of UTC. -/
theorem ofChars?_eq (t : OffsetDateTime) : ofChars? t.text =
    (readTimestamp? t.text).or (offsetDateTimePictures.findSome? fun p => (p.read? t.text).bind Found.offsetDateTime?) := by
  have hmail : readMailDate? t.text = none := by
    simp only [text, dateText, List.append_assoc]
    exact readMailDate?_yearText _ _
  have hoffset : withOffset t.text = t.text := by
    obtain ⟨front, c, hend, hc⟩ := offsetText_eq_append t.offset_lt
    rw [text, hend, ← List.append_assoc, withOffset_of_isDigit hc]
  rw [ofChars?, hmail, Option.none_or, hoffset]

/-- An instant is read as it is written, be its year one of four digits or beyond. -/
theorem ofChars?_text (hminutes : t.offset % 60 = 0) (hlocal : t.local?.isSome = true) : ofChars? t.text = some t.apparent := by
  obtain ⟨clock, hclock⟩ := Option.isSome_iff_exists.mp hlocal
  obtain ⟨htext, hread⟩ := exists_shown hminutes hclock
  have hlast : clock.apparent.time.LeapsLast := clock.time.leapsLast_apparent
  have hpicture := read?_dateTime_offset hlast t.offset_lt hminutes
  rw [ofChars?_eq, htext, ← clock.text_apparent]
  -- A timestamp has a year of four digits; what begins with a sign is left to the pictures.
  by_cases hfour : 0 ≤ clock.apparent.date.civil.year ∧ clock.apparent.date.civil.year ≤ 9999
  · rw [readTimestamp?_text hlast hfour t.offset_lt hminutes, hread]
    rfl
  · have hsigned : readTimestamp? (clock.apparent.text ++ offsetText t.offset) = none := by
      obtain ⟨sign, tail, hsign, hyearText⟩ := yearText_signed hfour
      refine readTimestamp?_eq_none ?_
      rw [DateTime.text, Date.text, dateText, hyearText]
      rintro c ⟨⟩
      obtain rfl | rfl := hsign <;> rfl
    rw [hsigned, Option.none_or, offsetDateTimePictures, List.findSome?_cons, hpicture, hread]

/-- An instant that clocks show on a date beyond the calendar is not read at all. -/
theorem ofChars?_eq_none (hlocal : t.local? = none) : ofChars? t.text = none ∧ DateTime.ofChars? t.text = none := by
  have hbeyond := local?_eq_none_iff.mp hlocal
  obtain ⟨rest, htext⟩ : ∃ rest, t.text = dateText (civil t.shown.1) ++ rest := ⟨_, by rw [text, List.append_assoc]⟩
  have hnone {α : Type} {pictures : List Picture} {f : Found → Option α} (hpictures : ∀ p ∈ pictures, p.Dateless t.text)
      (hf : ∀ found : Found, found.date? = none → f found = none) : (pictures.findSome? fun p => (p.read? t.text).bind f) = none := by
    refine List.findSome?_eq_none_iff.mpr fun p hp => ?_
    cases hread : p.read? t.text with
    | none => rfl
    | some found => exact hf found (hpictures p hp found hread)
  have hdateless : ∀ p ∈ datePictures ++ dateTimePictures ++ offsetDateTimePictures, p.Dateless t.text := by
    rw [htext]
    exact dateless_of_beyond hbeyond
  simp only [List.forall_mem_append] at hdateless
  obtain ⟨⟨hdates, hclocks⟩, hinstants⟩ := hdateless
  have hclock (found : Found) (h : found.date? = none) : found.dateTime? = none := by
    rw [Found.dateTime?, h]
    rfl
  constructor
  · have hstamp : readTimestamp? t.text = none := by
      obtain ⟨sign, tail, hsign, hsigned⟩ := exists_sign hbeyond
      refine readTimestamp?_eq_none ?_
      rw [htext, hsigned]
      rintro c ⟨⟩
      obtain rfl | rfl := hsign <;> rfl
    rw [ofChars?_eq, hstamp, Option.none_or]
    refine hnone hinstants fun found h => ?_
    rw [Found.offsetDateTime?, hclock found h]
    rfl
  · rw [DateTime.ofChars?, hnone hclocks hclock, Date.ofChars?, hnone hdates fun _ h => h]
    rfl

theorem beforeZone?_text (t : OffsetDateTime) : (beforeZone? t.text).isSome = true := by
  refine beforeZone?_mark (isZone_offsetText t.offset_lt) ?_
  obtain ⟨sign, hours, minutes, -, -, -, htext⟩ := offsetText_eq t.offset_lt
  rw [htext]
  exact List.cons_ne_nil _ _

theorem solid_text (t : OffsetDateTime) : Text.Solid t.text := by
  simp only [text, offsetText, List.cons_append, Text.solid_append, Text.solid_cons]
  refine ⟨⟨solid_dateText _, rfl, solid_clockText _ _⟩, ?_, Text.solid_padded, rfl, Text.solid_padded⟩
  split <;> rfl

end OffsetDateTime

end Conform

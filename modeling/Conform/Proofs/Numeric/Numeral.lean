import Conform.Literal
import Conform.Proofs.Numeric.Decimal

/-! Decimal numerals: a sign, digits with at most one point, and an exponent. A numeral is read as the number that it
    spells where its digits and its places fit, and else as one that differs from it by less than one in the last place
    kept. -/

namespace Conform

/-! ### Numerals -/

/-- The sign before digits. -/
inductive Sign
  | none
  | minus
  | plus
deriving DecidableEq

namespace Sign

def chars : Sign → List Char
  | .none => []
  | .minus => ['-']
  | .plus => ['+']

def negative (s : Sign) : Bool := s = .minus

end Sign

/-- A list of ASCII digits. -/
structure DigitRun where
  chars : List Char
  isDigit : ∀ c ∈ chars, c.isDigit = true

/-- A power of ten behind its mark. -/
structure Exponent where
  mark : Char
  isMark : mark = 'e' ∨ mark = 'E'
  sign : Sign
  digits : DigitRun

namespace Exponent

def chars (e : Exponent) : List Char := e.mark :: (e.sign.chars ++ e.digits.chars)

def size (e : Exponent) : Nat := Digits.toNat e.digits.chars

end Exponent

/-- A decimal numeral. -/
structure Numeral where
  sign : Sign
  whole : DigitRun
  places : Option DigitRun
  exponent : Option Exponent

namespace Numeral

variable (n : Numeral)

/-- The digits behind the point. -/
def fraction : List Char := (n.places.map DigitRun.chars).getD []

/-- The digits before and behind the point. -/
def digits : List Char := n.whole.chars ++ n.fraction

/-- The numeral between its sign and its exponent. -/
def body : List Char := n.whole.chars ++ (n.places.map fun places => '.' :: places.chars).getD []

def chars : List Char := n.sign.chars ++ n.body ++ (n.exponent.map Exponent.chars).getD []

/-- The number without the exponent. -/
def base : ℚ := Decimal.unit n.sign.negative * (Digits.toNat n.digits / 10 ^ n.fraction.length)

/-- The number that a numeral spells. -/
def value : ℚ :=
  match n.exponent with
  | none => n.base
  | some e => if e.sign.negative then n.base / 10 ^ e.size else n.base * 10 ^ e.size

/-- How many places the number has. -/
def scale : Nat :=
  match n.exponent with
  | none => n.fraction.length
  | some e => if e.sign.negative then n.fraction.length + e.size else n.fraction.length

/-- Whether 96 bits hold the digits, and 28 places are enough. -/
def Fits : Prop := Digits.toNat n.digits < twoTo 96 ∧ n.scale ≤ 28

end Numeral

/-! ### Signs -/

theorem Binary64.signed_of_sign (s : Sign) {rest : List Char} (h : ∀ c ∈ rest.head?, c ≠ '-' ∧ c ≠ '+') :
    Binary64.signed (s.chars ++ rest) = (s.negative, rest) := by
  cases s with
  | minus | plus => rfl
  | none =>
    cases rest with
    | nil => rfl
    | cons c rest =>
      obtain ⟨hminus, hplus⟩ := h c rfl
      simp [Sign.chars, Binary64.signed, Sign.negative, hminus, hplus]

/-- Whatever sign a text has, it is told from what follows it. -/
theorem Binary64.exists_signed (cs : List Char) : ∃ s : Sign, s.negative = (signed cs).1 ∧ s.chars ++ (signed cs).2 = cs := by
  unfold signed
  split
  · exact ⟨.minus, rfl, rfl⟩
  · exact ⟨.plus, rfl, rfl⟩
  · exact ⟨.none, rfl, rfl⟩

theorem Decimal.ofPlain?_eq (cs : List Char) :
    ofPlain? cs = Accumulated.read ⟨(Binary64.signed cs).1, 0, 0, false, false⟩ (Binary64.signed cs).2 := by
  unfold ofPlain?
  split <;> simp_all [Binary64.signed]

theorem unsigned_of_isDigit {c : Char} (h : c.isDigit = true) : c ≠ '-' ∧ c ≠ '+' := by
  constructor <;> rintro rfl <;> cases h

namespace Numeral

open Decimal

variable {n : Numeral} {d : Decimal}

/-- The body has nothing but digits and a point. -/
theorem mem_body {c : Char} (h : c ∈ n.body) : c.isDigit = true ∨ c = '.' := by
  obtain hwhole | hplaces := List.mem_append.mp h
  · exact .inl (n.whole.isDigit c hwhole)
  · cases hp : n.places with
    | none => simp [hp] at hplaces
    | some places =>
      rw [hp] at hplaces
      obtain rfl | hmem := List.mem_cons.mp hplaces
      · exact .inr rfl
      · exact .inl (places.isDigit c hmem)

theorem unsigned_body {c : Char} (h : c ∈ n.body) : c ≠ '-' ∧ c ≠ '+' := by
  obtain hdigit | rfl := mem_body h
  · exact unsigned_of_isDigit hdigit
  · decide

/-- The sign is told from what follows it. -/
theorem signed_base (n : Numeral) : Binary64.signed (n.sign.chars ++ n.body) = (n.sign.negative, n.body) :=
  Binary64.signed_of_sign _ fun _ hc => unsigned_body (List.mem_of_head? hc)

theorem unsigned_mark (e : Exponent) : e.mark ≠ '-' ∧ e.mark ≠ '+' := by
  obtain heq | heq := e.isMark <;> rw [heq] <;> decide

theorem signed_chars (n : Numeral) :
    Binary64.signed n.chars = (n.sign.negative, n.body ++ (n.exponent.map Exponent.chars).getD []) := by
  rw [chars, List.append_assoc]
  refine Binary64.signed_of_sign _ fun c hc => ?_
  rw [List.head?_append, Option.mem_def, Option.or_eq_some_iff] at hc
  obtain hbody | ⟨-, hexponent⟩ := hc
  · exact unsigned_body (List.mem_of_head? hbody)
  · cases he : n.exponent with
    | none => simp [he] at hexponent
    | some e =>
      obtain rfl : e.mark = c := by simpa [he, Exponent.chars] using hexponent
      exact unsigned_mark e

/-! ### Numerals without an exponent -/

theorem toNat_digits (n : Numeral) :
    Digits.toNat n.digits = Nat.ofDigitChars 10 n.fraction (Digits.toNat n.whole.chars) := by
  rw [digits, Digits.toNat_append, Nat.ofDigitChars_eq_ofDigitChars_zero]
  rfl

/-- The digits before the point are read first. -/
theorem ofPlain?_of_whole (h : Digits.toNat n.whole.chars < twoTo 96) :
    ofPlain? (n.sign.chars ++ n.body) =
      Accumulated.read ⟨n.sign.negative, Digits.toNat n.whole.chars, 0, false, !n.whole.chars.isEmpty⟩
        ((n.places.map fun places => '.' :: places.chars).getD []) := by
  rw [ofPlain?_eq, signed_base, body]
  exact read_whole n.whole.isDigit h

/-- Digits that fit are read as they are. -/
theorem ofPlain?_of_fit (hfit : Digits.toNat n.digits < twoTo 96) (hplaces : n.fraction.length ≤ 28) :
    ofPlain? (n.sign.chars ++ n.body) =
      if n.digits.isEmpty then none else unsignedZero? n.sign.negative (Digits.toNat n.digits) n.fraction.length := by
  have hwhole : Digits.toNat n.whole.chars < twoTo 96 := (n.toNat_digits ▸ Digits.le_ofDigitChars _ _).trans_lt hfit
  rw [ofPlain?_of_whole hwhole]
  cases hp : n.places with
  | none =>
    have hfraction : n.fraction = [] := by simp [fraction, hp]
    simp only [digits, hfraction, List.append_nil]
    cases hempty : n.whole.chars.isEmpty <;> rfl
  | some places =>
    have hfraction : n.fraction = places.chars := by simp [fraction, hp]
    rw [toNat_digits, hfraction] at hfit
    rw [hfraction] at hplaces
    rw [Option.map_some, Option.getD_some, read_point, read_places places.isDigit hfit (by omega), toNat_digits, digits,
      hfraction, Nat.zero_add]
    cases n.whole.chars <;> cases places.chars <;> rfl

/-- Whatever digits a numeral has, it is read as a number that rounds it. -/
theorem rounds_of_ofPlain? (h : ofPlain? (n.sign.chars ++ n.body) = some d) : d.Rounds n.base := by
  by_cases hwhole : Digits.toNat n.whole.chars < twoTo 96
  · rw [ofPlain?_of_whole hwhole] at h
    cases hp : n.places with
    | none =>
      have hfraction : n.fraction = [] := by simp [fraction, hp]
      rw [hp, Option.map_none, Option.getD_none, read_nil] at h
      split at h
      · refine .of_eq ((value_of_unsignedZero? h).1.trans ?_)
        rw [base, digits, hfraction, List.append_nil]
        rfl
      · cases h
    | some places =>
      have hfraction : n.fraction = places.chars := by simp [fraction, hp]
      rw [hp, Option.map_some, Option.getD_some, read_point] at h
      have hrounds := rounds_of_read_places places.isDigit hwhole (Nat.zero_le 28) h
      have hbase : n.base = unit n.sign.negative * ((Digits.toNat n.whole.chars + Decimal.fraction places.chars) / 10 ^ 0) := by
        rw [base, digits, hfraction, Digits.toNat_append, Decimal.fraction, Nat.cast_add, Nat.cast_mul, cast_tenTo]
        field_simp
      rwa [hbase]
  · rw [ofPlain?_eq, signed_base, body, read_whole_eq_none n.whole.isDigit (Nat.le_of_not_lt hwhole) (by decide)] at h
    cases h

/-! ### Exponents -/

/-- Whether a character is the mark of an exponent. -/
def isMark (c : Char) : Bool := c == 'e' || c == 'E'

theorem isMark_mark (e : Exponent) : isMark e.mark = true := by obtain heq | heq := e.isMark <;> rw [heq] <;> rfl

theorem not_isMark_of_isDigit {c : Char} (h : c.isDigit = true) : isMark c = false := by
  unfold isMark
  rw [Bool.or_eq_false_iff, beq_eq_false_iff_ne, beq_eq_false_iff_ne]
  constructor <;> rintro rfl <;> cases h

theorem not_isMark {c : Char} (h : c ∈ n.sign.chars ++ n.body) : (!isMark c) = true := by
  obtain hsign | hbody := List.mem_append.mp h
  · cases hs : n.sign with
    | none => simp [hs, Sign.chars] at hsign
    | minus | plus =>
      obtain rfl : c = _ := by simpa [hs, Sign.chars] using hsign
      rfl
  · obtain hdigit | rfl := mem_body hbody
    · rw [not_isMark_of_isDigit hdigit]
      rfl
    · rfl

theorem ofChars?_of_plain (h : n.exponent = none) : ofChars? n.chars = ofPlain? (n.sign.chars ++ n.body) := by
  have hchars : n.chars = n.sign.chars ++ n.body ++ [] := by rw [chars, h]; rfl
  have hdrop : n.chars.dropWhile (!isMark ·) = [] := by
    rw [hchars, List.dropWhile_append_of_pos fun _ => not_isMark]
    rfl
  have hnone : ofScientific? n.chars = none := by
    simp only [ofScientific?]
    split
    · rfl
    next heq => exact absurd (hdrop.symm.trans heq) nofun
  rw [ofChars?, hnone, Option.or_none, hchars, List.append_nil]

theorem exponent?_eq_some {s : Sign} (hs : s ≠ .minus) {r : DigitRun} {k : Nat}
    (h : exponent? (s.chars ++ r.chars) = some k) : k = Digits.toNat r.chars ∧ k ≤ 28 := by
  have hdigits : exponent? (s.chars ++ r.chars) =
      if r.chars.isEmpty || !r.chars.all Char.isDigit then none
      else if Digits.toNat r.chars ≤ 28 then some (Digits.toNat r.chars) else none := by
    cases s with
    | minus => exact absurd rfl hs
    | plus => rfl
    | none =>
      rw [Sign.chars, List.nil_append, exponent?]
      intro rest hplus
      exact nomatch r.isDigit '+' (hplus ▸ List.mem_cons_self)
  rw [hdigits] at h
  split at h
  · cases h
  · rw [Option.ite_none_right_eq_some, Option.some.injEq] at h
    exact ⟨h.2.symm, h.2 ▸ h.1⟩

section Exponents

variable {e : Exponent} (he : n.exponent = some e)

include he

theorem chars_of_exponent : n.chars = n.sign.chars ++ n.body ++ e.chars := by
  rw [chars, he]
  rfl

/-- The mark of an exponent is neither a digit nor a point. -/
theorem ofPlain?_of_exponent : ofPlain? n.chars = none := by
  have hmem : e.mark ∈ n.body ++ (n.exponent.map Exponent.chars).getD [] := by
    rw [he]
    exact List.mem_append_right _ List.mem_cons_self
  rw [ofPlain?_eq, signed_chars]
  refine read_eq_none hmem ?_ ?_ _ <;> obtain heq | heq := e.isMark <;> rw [heq] <;> decide

theorem dropWhile_chars : n.chars.dropWhile (!isMark ·) = e.chars := by
  rw [chars_of_exponent he, List.dropWhile_append_of_pos fun _ => not_isMark, Exponent.chars,
    List.dropWhile_cons_of_neg (by simp [isMark_mark])]

theorem takeWhile_chars : n.chars.takeWhile (!isMark ·) = n.sign.chars ++ n.body := by
  rw [chars_of_exponent he, List.takeWhile_append_of_pos fun _ => not_isMark, Exponent.chars,
    List.takeWhile_cons_of_neg (by simp [isMark_mark]), List.append_nil]

/-- A numeral with an exponent is its base with the point moved. -/
theorem shifted_of_ofChars? (h : ofChars? n.chars = some d) :
    e.size ≤ 28 ∧ ∃ b, ofPlain? (n.sign.chars ++ n.body) = some b ∧
      (if e.sign.negative then b.shiftedRight? e.size else b.shiftedLeft? e.size) = some d := by
  rw [ofChars?, ofPlain?_of_exponent he, Option.none_or] at h
  simp only [ofScientific?] at h
  split at h
  next heq => exact absurd ((dropWhile_chars he).symm.trans heq) nofun
  next heq =>
    obtain ⟨rfl, rfl⟩ := List.cons_eq_cons.mp (heq.symm.trans (dropWhile_chars he))
    obtain ⟨b, hb, hshift⟩ := Option.bind_eq_some_iff.mp h
    have hbase : ofPlain? (n.sign.chars ++ n.body) = some b := by
      rw [← takeWhile_chars he]
      exact hb
    by_cases hs : e.sign = .minus
    · rw [hs] at hshift
      obtain ⟨k, hk, hshift⟩ := Option.bind_eq_some_iff.mp hshift
      obtain ⟨rfl, hle⟩ := exponent?_eq_some (s := .none) nofun hk
      exact ⟨hle, b, hbase, by simpa [Sign.negative, hs, Exponent.size] using hshift⟩
    · split at hshift
      next hminus =>
        cases hsign : e.sign with
        | minus => exact absurd hsign hs
        | plus =>
          rw [hsign] at hminus
          cases hminus
        | none =>
          rw [hsign] at hminus
          have hmem : '-' ∈ e.digits.chars := (show e.digits.chars = '-' :: _ from hminus) ▸ List.mem_cons_self
          exact nomatch e.digits.isDigit '-' hmem
      next =>
        obtain ⟨k, hk, hshift⟩ := Option.bind_eq_some_iff.mp hshift
        obtain ⟨rfl, hle⟩ := exponent?_eq_some hs hk
        exact ⟨hle, b, hbase, by simpa [Sign.negative, hs, Exponent.size] using hshift⟩

end Exponents

/-! ### Numerals of any kind -/

/-- A numeral is read as a number less than one away in the last place. -/
theorem near_of_ofChars? (h : ofChars? n.chars = some d) : |d.value - n.value| < 1 / 10 ^ d.scale := by
  unfold value
  cases he : n.exponent with
  | none =>
    rw [ofChars?_of_plain he] at h
    refine (rounds_of_ofPlain? h).near.trans_lt (div_lt_div_of_pos_right ?_ (by positivity))
    norm_num
  | some e =>
    obtain ⟨hsize, b, hbase, hshift⟩ := shifted_of_ofChars? he h
    have hrounds := rounds_of_ofPlain? hbase
    dsimp only
    split at hshift
    next hnegative =>
      rw [if_pos hnegative]
      exact hrounds.shiftedRight hshift
    next hpositive =>
      rw [if_neg hpositive]
      exact hrounds.shiftedLeft hsize hshift

/-- A numeral that fits is read as the number that it spells. -/
theorem value_of_ofChars? (hfits : n.Fits) (h : ofChars? n.chars = some d) : d.value = n.value := by
  obtain ⟨hdigits, hscale⟩ := hfits
  have hbase {b : Decimal} (hplaces : n.fraction.length ≤ 28) (hb : ofPlain? (n.sign.chars ++ n.body) = some b) :
      b.value = n.base ∧ b.scale = n.fraction.length := by
    rw [ofPlain?_of_fit hdigits hplaces] at hb
    split at hb
    · cases hb
    · obtain ⟨hvalue, -, hscale⟩ := value_of_unsignedZero? hb
      exact ⟨hvalue, hscale⟩
  unfold value
  unfold scale at hscale
  cases he : n.exponent with
  | none =>
    rw [he] at hscale
    rw [ofChars?_of_plain he] at h
    exact (hbase hscale h).1
  | some e =>
    rw [he] at hscale
    obtain ⟨-, b, hb, hshift⟩ := shifted_of_ofChars? he h
    dsimp only at hscale ⊢
    split at hshift
    next hnegative =>
      rw [if_pos hnegative] at hscale ⊢
      obtain ⟨hvalue, hplaces⟩ := hbase (by omega) hb
      rw [← hvalue]
      exact (value_of_shiftedRight? hshift (by omega)).1
    next hpositive =>
      rw [if_neg hpositive] at hscale ⊢
      rw [← (hbase hscale hb).1]
      exact value_of_shiftedLeft? hshift

/-! ### Floats -/

/-- A numeral with a digit, and with one in its exponent if there is an exponent. -/
def Proper (n : Numeral) : Prop := n.digits ≠ [] ∧ ∀ e ∈ n.exponent, e.digits.chars ≠ []

/-- The power of ten by which the exponent moves the point. -/
def power (n : Numeral) : Int :=
  match n.exponent with
  | none => 0
  | some e => if e.sign.negative then -e.size else e.size

/-- The text of the exponent. -/
def tail (n : Numeral) : List Char := (n.exponent.map Exponent.chars).getD []

theorem mem_head?_tail {c : Char} (h : c ∈ n.tail.head?) : c = 'e' ∨ c = 'E' := by
  rw [tail] at h
  cases he : n.exponent with
  | none =>
    rw [he] at h
    cases h
  | some e =>
    rw [he] at h
    obtain rfl : e.mark = c := Option.some.inj h
    exact e.isMark

theorem exponent?_tail (h : ∀ e ∈ n.exponent, e.digits.chars ≠ []) : Binary64.exponent? n.tail = some n.power := by
  rw [tail, power]
  cases he : n.exponent with
  | none => rfl
  | some e =>
    have hsigned : Binary64.signed (e.sign.chars ++ e.digits.chars) = (e.sign.negative, e.digits.chars) :=
      Binary64.signed_of_sign _ fun c hc => unsigned_of_isDigit (e.digits.isDigit c (List.mem_of_head? hc))
    have hempty : e.digits.chars.isEmpty = false := List.isEmpty_eq_false_iff.mpr (h e he)
    have hall : e.digits.chars.all Char.isDigit = true := List.all_eq_true.mpr e.digits.isDigit
    rw [Option.map_some, Option.getD_some, Exponent.chars, Binary64.exponent?, if_pos e.isMark, hsigned]
    simp [hempty, hall, Exponent.size]

/-- The float next to the number that a numeral spells, up to its sign. -/
def nearest (n : Numeral) (negative : Bool) : Binary64 :=
  Binary64.ofDecimal negative (Digits.toNat n.digits) (n.power - n.fraction.length)

/-- The digits before the point, those behind it and the exponent are told from each other. -/
theorem ofNumeral?_eq (h : n.Proper) (negative : Bool) :
    Binary64.ofNumeral? negative (n.body ++ n.tail) = some (n.nearest negative) := by
  have htail : ∀ c ∈ n.tail.head?, c.isDigit = false ∧ c ≠ '.' := fun c hc => by
    obtain rfl | rfl := mem_head?_tail hc <;> decide
  have hempty : (n.whole.chars.isEmpty && n.fraction.isEmpty) = false := by
    rw [Bool.eq_false_iff, Ne, Bool.and_eq_true, List.isEmpty_iff, List.isEmpty_iff]
    rintro ⟨hwhole, hfraction⟩
    exact h.1 (by rw [digits, hwhole, hfraction]; rfl)
  have hexponent := exponent?_tail h.2
  unfold Binary64.ofNumeral?
  rw [body, List.append_assoc]
  cases hp : n.places with
  | none =>
    have hfraction : n.fraction = [] := by simp [fraction, hp]
    rw [hfraction] at hempty
    rw [Option.map_none, Option.getD_none, List.nil_append,
      Digits.span_append n.whole.isDigit fun c hc => (htail c hc).1]
    dsimp only
    split
    next heq => exact absurd rfl (htail '.' (by rw [heq]; rfl)).2
    next => simpa [hexponent, nearest, digits, hfraction] using hempty
  | some places =>
    have hfraction : n.fraction = places.chars := by simp [fraction, hp]
    rw [hfraction] at hempty
    rw [Option.map_some, Option.getD_some, List.cons_append,
      Digits.span_append n.whole.isDigit fun c hc => by cases hc; rfl]
    simp [Digits.span_append places.isDigit fun c hc => (htail c hc).1, hempty, hexponent, nearest, digits, hfraction]

theorem body_ne_nil (h : n.digits ≠ []) : n.body ≠ [] := by
  intro hbody
  obtain ⟨hwhole, hplaces⟩ := List.append_eq_nil_iff.mp hbody
  cases hp : n.places with
  | none => exact h (by rw [digits, fraction, hwhole, hp]; rfl)
  | some places =>
    rw [hp] at hplaces
    cases hplaces

/-- A numeral is no word for infinity or for no number, and is read as the float next to it. -/
theorem ofChars?_eq (h : n.Proper) : Binary64.ofChars? n.chars = some (n.nearest n.sign.negative) := by
  obtain ⟨c, body, hbody⟩ := List.exists_cons_of_ne_nil (body_ne_nil h.1)
  have hlower : c.toLower ≠ 'i' ∧ c.toLower ≠ 'n' := by
    obtain hdigit | rfl := mem_body (n := n) (hbody ▸ List.mem_cons_self)
    · have hplain : (c.toLower != 'i' && c.toLower != 'n') = true :=
        Digits.forall_isDigit (p := fun c => c.toLower != 'i' && c.toLower != 'n') (by decide) hdigit
      simpa using hplain
    · decide
  have hread := ofNumeral?_eq h n.sign.negative
  rw [tail] at hread
  rw [Binary64.ofChars?, n.signed_chars]
  simp only [hread]
  simp [hbody, hlower]

/-- A text that is read as an exponent is one. -/
theorem exists_exponent {cs : List Char} (h : (Binary64.exponent? cs).isSome = true) :
    ∃ e : Option Exponent, (∀ x ∈ e, x.digits.chars ≠ []) ∧ (e.map Exponent.chars).getD [] = cs := by
  cases cs with
  | nil => exact ⟨none, nofun, rfl⟩
  | cons mark rest =>
    obtain ⟨s, -, hs⟩ := Binary64.exists_signed rest
    rw [Binary64.exponent?] at h
    dsimp only at h
    by_cases hmark : mark = 'e' ∨ mark = 'E'
    · rw [if_pos hmark] at h
      by_cases hbad : ((Binary64.signed rest).2.isEmpty || !(Binary64.signed rest).2.all Char.isDigit) = true
      · rw [if_pos hbad] at h
        cases h
      · simp only [Bool.or_eq_true, Bool.not_eq_true', not_or, List.isEmpty_iff, Bool.not_eq_false, List.all_eq_true] at hbad
        exact ⟨some ⟨mark, hmark, s, ⟨_, hbad.2⟩⟩, fun x hx => Option.some.inj hx ▸ hbad.1, congrArg (List.cons mark) hs⟩
    · rw [if_neg hmark] at h
      cases h

/-- A text that is read as a number without a sign is a numeral behind its sign. -/
theorem exists_of_ofNumeral? {negative : Bool} {cs : List Char} (h : (Binary64.ofNumeral? negative cs).isSome = true)
    (s : Sign) : ∃ n : Numeral, n.Proper ∧ n.sign = s ∧ n.body ++ n.tail = cs := by
  obtain ⟨hwhole, hdigits⟩ := Digits.span_spec cs
  unfold Binary64.ofNumeral? at h
  generalize Digits.span cs = read at h hwhole hdigits
  obtain ⟨whole, rest⟩ := read
  dsimp only at h hwhole hdigits
  split at h
  next after =>
    obtain ⟨hplaces, hfraction⟩ := Digits.span_spec after
    split_ifs at h with hempty
    · cases h
    rw [Option.isSome_map] at h
    obtain ⟨e, he, htail⟩ := exists_exponent h
    refine ⟨⟨s, ⟨whole, hdigits⟩, some ⟨(Digits.span after).1, hfraction⟩, e⟩, ⟨?_, he⟩, rfl, ?_⟩
    · simpa [digits, fraction] using hempty
    · simp [body, tail, htail, hplaces, hwhole]
  next =>
    split_ifs at h with hempty
    · cases h
    rw [Option.isSome_map] at h
    obtain ⟨e, he, htail⟩ := exists_exponent h
    refine ⟨⟨s, ⟨whole, hdigits⟩, none, e⟩, ⟨?_, he⟩, rfl, ?_⟩
    · simpa [digits, fraction] using hempty
    · simp [body, tail, htail, hwhole]

end Numeral

/-- An integer or a decimal, as it is written. -/
def IsNumeral (cs : List Char) : Prop := ∃ n : Numeral, n.Proper ∧ n.chars = cs

/-- What is read as a number behind its sign is a numeral. -/
theorem isNumeral_iff {cs : List Char} :
    IsNumeral cs ↔ (Binary64.ofNumeral? (Binary64.signed cs).1 (Binary64.signed cs).2).isSome = true := by
  constructor
  · rintro ⟨n, hn, rfl⟩
    rw [n.signed_chars]
    exact Option.isSome_of_eq_some (n.ofNumeral?_eq hn _)
  · intro h
    obtain ⟨s, -, hs⟩ := Binary64.exists_signed cs
    obtain ⟨n, hn, rfl, hbody⟩ := Numeral.exists_of_ofNumeral? h s
    exact ⟨n, hn, by rw [← hs, ← hbody, Numeral.chars, List.append_assoc]; rfl⟩

instance (cs : List Char) : Decidable (IsNumeral cs) := decidable_of_iff' _ isNumeral_iff

end Conform

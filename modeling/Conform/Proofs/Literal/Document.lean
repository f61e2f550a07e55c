import Conform.Proofs.Conversion.Nested
import Conform.Proofs.Json.Grammar
import Conform.Proofs.Literal
import Mathlib.Data.List.DropRight

/-! Documents as literals. The scanner reads every document, at any depth, but in its own way: a string keeps the escapes
    that are none of its own, an integer must have 64 bits, and a float beyond the range is infinite. -/

namespace Conform.Literal

open Json (Blanks Piece Number Tree Part Reading Spells quoted openings)

variable {c : Char} {cs b rest : List Char} {fuel : Nat}

/-! ### Strings -/

/-- What the scanner makes of a piece of a string: without an escape of that letter, the piece as it stands. -/
def raw : Piece → List Char
  | .plain c _ => [c]
  | .short letter _ _ => unescape letter
  | .coded i j k l _ _ => ['\\', 'u', i, j, k, l]

/-- The digits of a code are neither quotes nor backslashes. -/
theorem digit_of_hex4? {i j k l : Char} {n : Nat} (h : Json.hex4? i j k l = some n) :
    ∀ c ∈ [i, j, k, l], c ≠ '"' ∧ c ≠ '\\' := by
  have hdigit {c : Char} {m : Nat} (hc : Digits.hexValue? c = some m) : c ≠ '"' ∧ c ≠ '\\' := by
    constructor <;> (rintro rfl; cases hc)
  simp only [Json.hex4?, Option.bind_eq_bind, Option.bind_eq_some_iff] at h
  obtain ⟨_, hi, _, hj, _, hk, _, hl, -⟩ := h
  simp only [List.forall_mem_cons, List.not_mem_nil, false_implies, implies_true, and_true]
  exact ⟨hdigit hi, hdigit hj, hdigit hk, hdigit hl⟩

theorem takeString_piece (p : Piece) (rest : List Char) :
    takeString '"' (p.chars ++ rest) = (takeString '"' rest).map fun read => (raw p ++ read.1, read.2) := by
  cases p with
  | plain c h => exact takeString_bare h.1 h.2.1 rest
  | short letter c h => exact takeString_unescape letter rest
  | coded i j k l n h =>
    have hplain := digit_of_hex4? h
    simp only [List.forall_mem_cons, List.not_mem_nil, false_implies, implies_true, and_true] at hplain
    obtain ⟨hi, hj, hk, hl⟩ := hplain
    simp only [Piece.chars, List.cons_append, List.nil_append]
    rw [takeString_unescape, takeString_bare hi.1 hi.2, takeString_bare hj.1 hj.2, takeString_bare hk.1 hk.2,
      takeString_bare hl.1 hl.2]
    cases takeString '"' rest <;> rfl

theorem takeString_pieces (ps : List Piece) (rest : List Char) :
    takeString '"' (ps.flatMap Piece.chars ++ '"' :: rest) = .ok (ps.flatMap raw, rest) := by
  induction ps with
  | nil =>
    rw [List.flatMap_nil, List.nil_append, takeString.eq_def]
    exact if_pos rfl
  | cons p ps ih =>
    rw [List.flatMap_cons, List.append_assoc, takeString_piece, ih]
    rfl

/-! ### Numbers -/

theorem Run.append {run more : List Char} (hrun : Run run) (hmore : Run more) : Run (run ++ more) := by
  induction hrun with
  | nil => exact hmore
  | plain hc _ ih => exact .plain hc ih
  | signed hmark hsign _ ih => exact .signed hmark hsign ih

theorem run_body (n : Numeral) : Run n.body := by
  refine (run_of_digits n.whole.isDigit).append ?_
  cases n.places with
  | none => exact .nil
  | some p => exact .plain (.inr (.inr (.inl rfl))) (run_of_digits p.isDigit)

theorem run_tail (n : Numeral) : Run n.tail := by
  rw [Numeral.tail]
  cases n.exponent with
  | none => exact .nil
  | some e =>
    rw [Option.map_some, Option.getD_some, Exponent.chars]
    have hdigits := run_of_digits e.digits.isDigit
    cases hs : e.sign with
    | none => exact .plain (.inr (.inr (.inr e.isMark))) hdigits
    | minus => exact .signed e.isMark (.inl rfl) hdigits
    | plus => exact .signed e.isMark (.inr rfl) hdigits

theorem opens_number (n : Number) : Opens n.sign.chars (n.body ++ n.tail) := by
  cases hs : n.sign with
  | minus => exact .inl rfl
  | plus => exact .inr (.inl rfl)
  | none =>
    obtain ⟨c, ds, hds⟩ := List.exists_cons_of_ne_nil n.whole_ne
    refine .inr (.inr ⟨rfl, c, ?_, n.whole.isDigit c (hds ▸ List.mem_cons_self)⟩)
    rw [Numeral.body, hds]
    rfl

/-- What the scanner makes of a number: an integer of 64 bits, or the float next to a number with a point or an
    exponent. -/
def number? (n : Number) : Option Value :=
  if n.places.isNone && n.exponent.isNone then (integer? n.chars).map .int
  else some (.float (n.nearest n.sign.negative))

theorem ne_underscore {n : Numeral} (hc : c ∈ n.body ++ n.tail) : c ≠ '_' := by
  have hdigit {c : Char} (hc : c.isDigit = true) : c ≠ '_' := by rintro rfl; cases hc
  obtain hbody | htail := List.mem_append.mp hc
  · obtain hc | rfl := Numeral.mem_body hbody
    · exact hdigit hc
    · decide
  · rw [Numeral.tail] at htail
    cases he : n.exponent with
    | none => simp [he] at htail
    | some e =>
      rw [he, Option.map_some, Option.getD_some, Exponent.chars] at htail
      obtain rfl | htail := List.mem_cons.mp htail
      · obtain hmark | hmark := e.isMark <;> rw [hmark] <;> decide
      · obtain hsign | hdigits := List.mem_append.mp htail
        · cases hs : e.sign <;> simp_all [Sign.chars]
        · exact hdigit (e.digits.isDigit c hdigits)

/-- A point or an exponent tells a float from an integer. -/
theorem any_mark (n : Numeral) : ((n.body ++ n.tail).any fun c => c == '.' || c == 'e' || c == 'E') =
    !(n.places.isNone && n.exponent.isNone) := by
  have hwhole : (n.whole.chars.any fun c => c == '.' || c == 'e' || c == 'E') = false := by
    rw [List.any_eq_false]
    intro c hc
    have hplain : (!(c == '.' || c == 'e' || c == 'E')) = true :=
      Digits.forall_isDigit (p := fun c => !(c == '.' || c == 'e' || c == 'E')) rfl (n.whole.isDigit c hc)
    simpa using hplain
  rw [Numeral.body, Numeral.tail, List.any_append, List.any_append, hwhole]
  cases n.places with
  | some p => simp
  | none =>
    cases n.exponent with
    | none => rfl
    | some e => obtain hmark | hmark := e.isMark <;> simp [Exponent.chars, hmark]

theorem proper_number (n : Number) : n.Proper :=
  ⟨fun h => n.whole_ne (List.append_eq_nil_iff.mp h).1, n.exponent_ne⟩

theorem spelled_number (n : Number) : (spelled n.sign.chars (n.body ++ n.tail)).toOption = number? n := by
  have hfilter : (n.body ++ n.tail).filter (· != '_') = n.body ++ n.tail :=
    List.filter_eq_self.mpr fun c hc => bne_iff_ne.mpr (ne_underscore hc)
  have hchars : n.sign.chars ++ (n.body ++ n.tail) = n.chars := (List.append_assoc ..).symm
  rw [spelled, any_mark, hfilter, hchars, number?, Numeral.ofChars?_eq (proper_number n)]
  cases n.places.isNone && n.exponent.isNone with
  | true => cases integer? n.chars <;> rfl
  | false => rfl

/-! ### Values -/

/-- The reading of a document as a literal. -/
def reading : Reading Value where
  null := .null
  bool := .bool
  number? := number?
  text? ps := some (String.ofList (ps.flatMap raw))
  string := .str
  array := .list
  object ms := .map (Value.entriesOf (Value.textEntries ms))

/-- A value, and what is behind it and the blanks that follow. -/
def next? (fuel : Nat) (cs : List Char) : Option (Value × List Char) :=
  (takeValue fuel cs).toOption.map fun read => (read.1, Text.trimStart read.2)

theorem trimStart_blanks (hb : Blanks b) (cs : List Char) : Text.trimStart (b ++ cs) = Text.trimStart cs := by
  refine List.dropWhile_append_of_pos fun c hc => ?_
  have hblank : Json.isBlank c = true := hb c hc
  simp only [Json.isBlank, Bool.or_eq_true, beq_iff_eq, or_assoc] at hblank
  obtain rfl | rfl | rfl | rfl := hblank <;> rfl

theorem trimStart_trimStart (cs : List Char) : Text.trimStart (Text.trimStart cs) = Text.trimStart cs :=
  List.dropWhile_idempotent _ cs

theorem takeValue_trimStart (fuel : Nat) (cs : List Char) : takeValue fuel (Text.trimStart cs) = takeValue fuel cs := by
  cases fuel with
  | zero => rw [takeValue_zero, takeValue_zero]
  | succ fuel => rw [takeValue, takeValue, trimStart_trimStart]

theorem takeEntries_trimStart (fuel : Nat) (cs : List Char) : takeEntries fuel (Text.trimStart cs) = takeEntries fuel cs := by
  cases fuel with
  | zero => rw [takeEntries_zero, takeEntries_zero]
  | succ fuel => rw [takeEntries, takeEntries, trimStart_trimStart]

theorem next?_blanks (hb : Blanks b) (fuel : Nat) (cs : List Char) : next? fuel (b ++ cs) = next? fuel cs := by
  rw [next?, next?, ← takeValue_trimStart, trimStart_blanks hb, takeValue_trimStart]

section Next

variable {v? : Option Value} {k : Value} {tail : List Char}

theorem exists_of_next? (h : next? fuel cs = v?.map fun v => (v, rest)) :
    (∃ e, takeValue fuel (Text.trimStart cs) = .error e ∧ v? = none) ∨
      ∃ v behind, takeValue fuel (Text.trimStart cs) = .ok (v, behind) ∧ v? = some v ∧ Text.trimStart behind = rest := by
  rw [takeValue_trimStart]
  rw [next?] at h
  cases htake : takeValue fuel cs with
  | error e =>
    rw [htake] at h
    cases v? with
    | none => exact .inl ⟨e, rfl, rfl⟩
    | some v => cases h
  | ok read =>
    rw [htake] at h
    cases v? with
    | none => cases h
    | some v =>
      obtain ⟨hvalue, hrest⟩ := Prod.mk.inj (Option.some.inj h)
      exact .inr ⟨read.1, read.2, rfl, congrArg some hvalue.symm, hrest⟩

theorem eq_ok_of_next? (h : next? fuel cs = some (v, rest)) :
    ∃ behind, takeValue fuel (Text.trimStart cs) = .ok (v, behind) ∧ Text.trimStart behind = rest := by
  have hsome : next? fuel cs = (some v).map fun v => (v, rest) := h
  obtain ⟨e, -, hnone⟩ | ⟨w, behind, htake, hw, hbehind⟩ := exists_of_next? hsome
  · cases hnone
  · exact ⟨behind, Option.some.inj hw ▸ htake, hbehind⟩

/-- Behind an item there is a comma and more of them. -/
theorem takeItems_comma (hopen : (Text.trimStart cs).head? ≠ some ']') (h : next? fuel cs = v?.map fun v => (v, ',' :: rest)) :
    (takeItems (fuel + 1) ']' cs).toOption =
      v?.bind fun v => (takeItems fuel ']' rest).toOption.map fun more => (v :: more.1, more.2) := by
  rw [takeItems]
  simp only [if_neg hopen]
  obtain ⟨e, htake, rfl⟩ | ⟨v, behind, htake, rfl, hbehind⟩ := exists_of_next? h
  · rw [htake]
    rfl
  · simp only [htake, bind, Except.bind, hbehind, List.head?_cons, List.tail_cons, if_true]
    cases takeItems fuel ']' rest <;> rfl

/-- Behind the last item there is the closing bracket. -/
theorem takeItems_end (hopen : (Text.trimStart cs).head? ≠ some ']') (h : next? fuel cs = v?.map fun v => (v, ']' :: rest)) :
    (takeItems (fuel + 1) ']' cs).toOption = v?.map fun v => ([v], rest) := by
  rw [takeItems]
  simp only [if_neg hopen]
  obtain ⟨e, htake, rfl⟩ | ⟨v, behind, htake, rfl, hbehind⟩ := exists_of_next? h
  · rw [htake]
    rfl
  · simp only [htake, bind, Except.bind, hbehind]
    rfl

variable (hopen : (Text.trimStart cs).head? ≠ some '\x7d') (hkey : next? fuel cs = some (k, ':' :: tail))
  (h : next? fuel tail = v?.map fun v => (v, rest))

include hopen hkey h

/-- Behind a key there is a colon and its value, and then the other entries. -/
theorem takeEntries_key : (takeEntries (fuel + 1) (',' :: cs)).toOption =
    v?.bind fun v => (takeEntries fuel rest).toOption.map fun more => ((k, v) :: more.1, more.2) := by
  rw [takeEntries, trimStart_mark rfl]
  simp only [List.head?_cons, Option.some.injEq, Char.reduceEq, if_false, expect, if_true, bind, Except.bind, if_neg hopen]
  obtain ⟨behind, htake, hbehind⟩ := eq_ok_of_next? hkey
  simp only [htake, hbehind, if_true]
  obtain ⟨e, htake, rfl⟩ | ⟨v, behind, htake, rfl, hbehind⟩ := exists_of_next? h
  · rw [takeValue_trimStart] at htake
    simp only [htake]
    rfl
  · rw [takeValue_trimStart] at htake
    simp only [htake, ← takeEntries_trimStart fuel behind, hbehind]
    cases takeEntries fuel rest <;> rfl

theorem takeBraced_key : (takeBraced (fuel + 1) cs).toOption =
    v?.bind fun v => (takeEntries fuel rest).toOption.map fun more => (.map (Value.entriesOf ((k, v) :: more.1)), more.2) := by
  rw [takeBraced]
  simp only [if_neg hopen, bind, Except.bind]
  obtain ⟨behind, htake, hbehind⟩ := eq_ok_of_next? hkey
  simp only [htake, hbehind, List.head?_cons, List.tail_cons, if_true]
  obtain ⟨e, htake, rfl⟩ | ⟨v, behind, htake, rfl, hbehind⟩ := exists_of_next? h
  · rw [takeValue_trimStart] at htake
    simp only [htake]
    rfl
  · rw [takeValue_trimStart] at htake
    simp only [htake, ← takeEntries_trimStart fuel behind, hbehind]
    cases takeEntries fuel rest <;> rfl

end Next

/-! ### Documents -/

/-- A part is scanned as the reading has it, up to what ends a value. -/
def Scans : Part → List Char → Prop
  | .value t, cs | .spaced t, cs => ∀ fuel rest, cs.length ≤ fuel → Ends (Text.trimStart rest) →
    next? fuel (cs ++ rest) = (t.read? reading).map fun v => (v, Text.trimStart rest)
  | .items ts, cs => ∀ fuel rest, cs.length < fuel →
    (takeItems fuel ']' (cs ++ ']' :: rest)).toOption = (Json.readItems? reading ts).map fun vs => (vs, rest)
  | .members ms, cs => ∀ fuel rest, cs.length < fuel →
    (takeBraced fuel (cs ++ '\x7d' :: rest)).toOption =
        (Json.readMembers? reading ms).map (fun vs => (.map (Value.entriesOf (Value.textEntries vs)), rest)) ∧
      (takeEntries fuel (',' :: (cs ++ '\x7d' :: rest))).toOption =
        (Json.readMembers? reading ms).map fun vs => (Value.textEntries vs, rest)

variable {t : Tree} {ts : List Tree} {ms : List (List Piece × Tree)} {key : List Piece} {more : List Char} {part : Part}

theorem next?_quoted (ps : List Piece) (fuel : Nat) (rest : List Char) : next? (fuel + 1) (quoted ps ++ rest) =
    some (.str (String.ofList (ps.flatMap raw)), Text.trimStart rest) := by
  have hquoted : quoted ps ++ rest = '"' :: (ps.flatMap Piece.chars ++ '"' :: rest) := by simp [quoted]
  rw [hquoted, next?, takeValue, Text.trimStart_cons rfl]
  simp only [takeString_pieces]
  rfl

theorem ends_trimStart (h : isDelimiter c = true) (rest : List Char) : Ends (Text.trimStart (c :: rest)) := by
  rw [trimStart_mark h]
  exact ends_of_mark h

theorem head?_items (h : Spells (.items ts) cs) (rest : List Char) : (Text.trimStart (cs ++ rest)).head? ≠ some ']' := by
  obtain ⟨b, c, more, hb, rfl, hc⟩ := h.items_begin
  have hplain : Text.isBlank c = false ∧ c ≠ ']' := by
    simpa using Json.forall_openings (p := fun c => !Text.isBlank c && c != ']') rfl hc
  rw [List.append_assoc, trimStart_blanks hb, List.cons_append, Text.trimStart_cons hplain.1]
  exact fun heq => hplain.2 (Option.some.inj heq)

theorem scans_items (hcs : Spells (.items (t :: ts)) (cs ++ ',' :: more)) (h : Scans (.spaced t) cs) (hmore : Scans (.items ts) more) :
    Scans (.items (t :: ts)) (cs ++ ',' :: more) := by
  intro fuel rest hfuel
  obtain ⟨fuel, rfl⟩ := Nat.exists_eq_add_one.mpr (Nat.zero_lt_of_lt hfuel)
  have hopen := head?_items hcs (']' :: rest)
  rw [List.length_append, List.length_cons] at hfuel
  have hnext := h fuel (',' :: (more ++ ']' :: rest)) (by omega) (ends_trimStart rfl _)
  rw [trimStart_mark rfl] at hnext
  rw [List.append_assoc, List.cons_append] at hopen ⊢
  rw [takeItems_comma hopen hnext, hmore fuel rest (by omega), Json.readItems?]
  cases t.read? reading with
  | none => rfl
  | some v => cases Json.readItems? reading ts <;> rfl

theorem scans_item (hcs : Spells (.items [t]) cs) (h : Scans (.spaced t) cs) : Scans (.items [t]) cs := by
  intro fuel rest hfuel
  obtain ⟨fuel, rfl⟩ := Nat.exists_eq_add_one.mpr (Nat.zero_lt_of_lt hfuel)
  have hnext := h fuel (']' :: rest) (by omega) (ends_trimStart rfl _)
  rw [trimStart_mark rfl] at hnext
  rw [takeItems_end (head?_items hcs (']' :: rest)) hnext, Json.readItems?]
  cases t.read? reading <;> rfl

/-- Entries go on behind the first as they are scanned there. -/
theorem scans_member {c behind : List Char} (hb : Blanks b) (hc : Blanks c) (h : Scans (.spaced t) cs)
    {es? : Option (List (String × Value))} (hbehind : Ends behind) (hfuel : (b ++ (quoted key ++ (c ++ ':' :: cs))).length ≤ fuel)
    (hentries : (takeEntries fuel behind).toOption = es?.map fun vs => (Value.textEntries vs, rest)) :
    (takeBraced (fuel + 1) (b ++ (quoted key ++ (c ++ ':' :: (cs ++ behind))))).toOption =
        ((t.read? reading).bind fun v => es?.map ((String.ofList (key.flatMap raw), v) :: ·)).map
          (fun vs => (.map (Value.entriesOf (Value.textEntries vs)), rest)) ∧
      (takeEntries (fuel + 1) (',' :: (b ++ (quoted key ++ (c ++ ':' :: (cs ++ behind)))))).toOption =
        ((t.read? reading).bind fun v => es?.map ((String.ofList (key.flatMap raw), v) :: ·)).map
          fun vs => (Value.textEntries vs, rest) := by
  have hquoted : ∃ more, quoted key ++ (c ++ ':' :: (cs ++ behind)) = '"' :: more := ⟨_, rfl⟩
  have hopen : (Text.trimStart (b ++ (quoted key ++ (c ++ ':' :: (cs ++ behind))))).head? ≠ some '\x7d' := by
    obtain ⟨more, hmore⟩ := hquoted
    rw [trimStart_blanks hb, hmore, Text.trimStart_cons rfl]
    exact fun heq => absurd (Option.some.inj heq) (by decide)
  simp only [List.length_append, List.length_cons, quoted] at hfuel
  obtain ⟨fuel, rfl⟩ := Nat.exists_eq_add_one.mpr (by omega : 0 < fuel)
  have hkey : next? (fuel + 1) (b ++ (quoted key ++ (c ++ ':' :: (cs ++ behind)))) =
      some (.str (String.ofList (key.flatMap raw)), ':' :: (cs ++ behind)) := by
    rw [next?_blanks hb, next?_quoted, trimStart_blanks hc, trimStart_mark rfl]
  have htrim : Text.trimStart behind = behind :=
    Text.trimStart_of_head fun d hd => not_isBlank_of_isDelimiter (hbehind d hd)
  have hnext := h (fuel + 1) behind (by omega) (htrim.symm ▸ hbehind)
  rw [htrim] at hnext
  rw [takeBraced_key hopen hkey hnext, takeEntries_key hopen hkey hnext, hentries]
  cases t.read? reading with
  | none => exact ⟨rfl, rfl⟩
  | some v => cases es? <;> exact ⟨rfl, rfl⟩

theorem scans_members {c : List Char} (hb : Blanks b) (hc : Blanks c) (h : Scans (.spaced t) cs) (hmore : Scans (.members ms) more) :
    Scans (.members ((key, t) :: ms)) (b ++ (quoted key ++ (c ++ ':' :: (cs ++ ',' :: more)))) := by
  intro fuel rest hfuel
  obtain ⟨fuel, rfl⟩ := Nat.exists_eq_add_one.mpr (Nat.zero_lt_of_lt hfuel)
  have hfuel' : (b ++ (quoted key ++ (c ++ ':' :: cs))).length ≤ fuel := by
    simp only [List.length_append, List.length_cons] at hfuel ⊢
    omega
  simp only [List.length_append, List.length_cons] at hfuel
  have hmembers := scans_member hb hc h (ends_of_mark rfl) hfuel' (hmore fuel rest (by omega)).2
  simp only [List.append_assoc, List.cons_append]
  rw [Json.readMembers?]
  exact hmembers

theorem scans_single {c : List Char} (hb : Blanks b) (hc : Blanks c) (h : Scans (.spaced t) cs) :
    Scans (.members [(key, t)]) (b ++ (quoted key ++ (c ++ ':' :: cs))) := by
  intro fuel rest hfuel
  obtain ⟨fuel, rfl⟩ := Nat.exists_eq_add_one.mpr (Nat.zero_lt_of_lt hfuel)
  have hlength := Nat.le_of_lt_succ hfuel
  have hlast : (takeEntries fuel ('\x7d' :: rest)).toOption = (some []).map fun vs => (Value.textEntries vs, rest) := by
    simp only [List.length_append, List.length_cons] at hlength
    obtain ⟨fuel, rfl⟩ := Nat.exists_eq_add_one.mpr (by omega : 0 < fuel)
    rw [takeEntries_close]
    rfl
  have hmembers := scans_member hb hc h (ends_of_mark rfl) hlength hlast
  simp only [List.append_assoc, List.cons_append]
  rw [Json.readMembers?]
  exact hmembers

theorem scans_array (h : Scans (.items ts) cs) : Scans (.value (.array ts)) ('[' :: (cs ++ [']'])) := by
  intro fuel rest hfuel _
  simp only [List.length_cons, List.length_append] at hfuel
  obtain ⟨fuel, rfl⟩ := Nat.exists_eq_add_one.mpr (by omega : 0 < fuel)
  have hitems := h fuel rest (by omega)
  rw [List.cons_append, List.append_assoc, List.singleton_append, next?, takeValue_bracket, Json.Tree.read?]
  cases htake : takeItems fuel ']' (cs ++ ']' :: rest) <;> cases hread : Json.readItems? reading ts <;> rw [htake, hread] at hitems
  · rfl
  · cases hitems
  · cases hitems
  · cases hitems
    rfl

theorem scans_object (h : Scans (.members ms) cs) : Scans (.value (.object ms)) ('\x7b' :: (cs ++ ['\x7d'])) := by
  intro fuel rest hfuel _
  simp only [List.length_cons, List.length_append] at hfuel
  obtain ⟨fuel, rfl⟩ := Nat.exists_eq_add_one.mpr (by omega : 0 < fuel)
  have hmembers := (h fuel rest (by omega)).1
  rw [List.cons_append, List.append_assoc, List.singleton_append, next?, takeValue_brace, hmembers, Json.Tree.read?]
  cases Json.readMembers? reading ms <;> rfl

theorem scans_emptyArray (hb : Blanks b) : Scans (.value (.array [])) ('[' :: (b ++ [']'])) := by
  intro fuel rest hfuel _
  simp only [List.length_cons, List.length_append] at hfuel
  obtain ⟨fuel, rfl⟩ := Nat.exists_eq_add_one.mpr (by omega : 0 < fuel)
  obtain ⟨fuel, rfl⟩ := Nat.exists_eq_add_one.mpr (by omega : 0 < fuel)
  have hclose : takeItems (fuel + 1) ']' (b ++ ']' :: rest) = .ok ([], rest) := by
    rw [takeItems, trimStart_blanks hb, trimStart_mark rfl]
    exact if_pos rfl
  rw [List.cons_append, List.append_assoc, List.singleton_append, next?, takeValue_bracket, hclose]
  rfl

theorem scans_emptyObject (hb : Blanks b) : Scans (.value (.object [])) ('\x7b' :: (b ++ ['\x7d'])) := by
  intro fuel rest hfuel _
  simp only [List.length_cons, List.length_append] at hfuel
  obtain ⟨fuel, rfl⟩ := Nat.exists_eq_add_one.mpr (by omega : 0 < fuel)
  obtain ⟨fuel, rfl⟩ := Nat.exists_eq_add_one.mpr (by omega : 0 < fuel)
  have hclose : takeBraced (fuel + 1) (b ++ '\x7d' :: rest) = .ok (.map [], rest) := by
    rw [takeBraced, trimStart_blanks hb, trimStart_mark rfl]
    exact if_pos rfl
  rw [List.cons_append, List.append_assoc, List.singleton_append, next?, takeValue_brace, hclose]
  rfl

/-- The word of a truth value, or of nothing, is taken with the blanks behind it. -/
theorem scans_word {v : Value} (hfirst : c = 'n' ∨ c = 't' ∨ c = 'f')
    (hplain : (c :: cs).all (fun d => !Text.isBlank d && !isDelimiter d) = true) (hread : t.read? reading = some v)
    (hvalue : wordValue (String.ofList (c :: cs)) = v) : Scans (.value t) (c :: cs) := by
  intro fuel rest hfuel hrest
  obtain ⟨fuel, rfl⟩ := Nat.exists_eq_add_one.mpr (Nat.zero_lt_of_lt hfuel)
  have hpart (d : Char) (hd : d ∈ c :: cs) : Text.isBlank d = false ∧ isDelimiter d = false := by
    simpa using List.all_eq_true.mp hplain d hd
  have hblanks : ∀ d ∈ rest.takeWhile Text.isBlank, Text.isBlank d = true := List.all_eq_true.mp List.all_takeWhile
  have hword := takeWord_blanks (fun d hd => (hpart d hd).2) (fun d hd => (hpart d (List.mem_of_getLast? hd)).1)
    (List.cons_ne_nil c cs) hblanks hrest
  have hsplit : rest.takeWhile Text.isBlank ++ Text.trimStart rest = rest := List.takeWhile_append_dropWhile
  have hopen : c ∉ ['[', '(', '\x7b', '"', '\''] ∧ ¬(c = '-' ∨ c = '+' ∨ c.isDigit = true) := by
    obtain rfl | rfl | rfl := hfirst <;> decide
  rw [hsplit, List.cons_append] at hword
  rw [List.cons_append, next?, takeValue_word (hpart c List.mem_cons_self).1 hopen.1 hopen.2, hword, hread, ← hvalue]
  simp only [Except.map, Except.toOption, Option.map_some, trimStart_trimStart]

theorem stops_of_ends (h : Ends (Text.trimStart rest)) : Stops rest := by
  rintro c hc
  obtain ⟨more, rfl⟩ := List.head?_eq_some_iff.mp hc
  cases hblank : Text.isBlank c with
  | true => rfl
  | false =>
    rw [Text.trimStart_cons hblank] at h
    exact h c rfl

theorem scans_number (n : Number) : Scans (.value (.number n)) n.chars := by
  intro fuel rest hfuel hrest
  obtain ⟨c, more, hchars, hfirst⟩ := n.begins
  have hread := takeNumber_append (opens_number n) ((run_body n.toNumeral).append (run_tail n.toNumeral)) (stops_of_ends hrest)
  have hsplit : n.sign.chars ++ (n.body ++ n.tail ++ rest) = n.chars ++ rest := by
    rw [← List.append_assoc, ← List.append_assoc]
    rfl
  have hnumber : (Tree.number n).read? reading = (spelled n.sign.chars (n.body ++ n.tail)).toOption := (spelled_number n).symm
  rw [hsplit, hchars, List.cons_append] at hread
  rw [hchars, List.length_cons] at hfuel
  obtain ⟨fuel, rfl⟩ := Nat.exists_eq_add_one.mpr (by omega : 0 < fuel)
  rw [hchars, List.cons_append, next?, takeValue_number (hfirst.imp_right .inr), hread, hnumber]
  cases spelled n.sign.chars (n.body ++ n.tail) <;> rfl

/-- Every part is scanned as it is spelled. -/
theorem scans_of_spells (h : Spells part cs) : Scans part cs := by
  induction h with
  | null => exact scans_word (.inl rfl) rfl rfl rfl
  | trueWord => exact scans_word (.inr (.inl rfl)) rfl rfl rfl
  | falseWord => exact scans_word (.inr (.inr rfl)) rfl rfl rfl
  | number n => exact scans_number n
  | string ps =>
    intro fuel rest hfuel _
    rw [quoted, List.length_cons] at hfuel
    obtain ⟨fuel, rfl⟩ := Nat.exists_eq_add_one.mpr (Nat.zero_lt_of_lt hfuel)
    exact next?_quoted ps fuel rest
  | emptyArray hb => exact scans_emptyArray hb
  | emptyObject hb => exact scans_emptyObject hb
  | array _ ih => exact scans_array ih
  | object _ ih => exact scans_object ih
  | spaced hb _ hafter ih =>
    intro fuel rest hfuel hrest
    simp only [List.length_append] at hfuel
    rw [List.append_assoc, List.append_assoc, next?_blanks hb]
    rw [← trimStart_blanks hafter] at hrest ⊢
    exact ih fuel _ (by omega) hrest
  | item h ih => exact scans_item (.item h) ih
  | items h hmore ih ihmore => exact scans_items (.items h hmore) ih ihmore
  | member hb hc _ ih => exact scans_single hb hc ih
  | members hb hc _ _ ih ihmore => exact scans_members hb hc ih ihmore

/-- A document of any depth is a literal as the reading has it. -/
theorem read_of_spells (h : Spells (.spaced t) cs) : (read cs).toOption = t.read? reading := by
  have hscan := scans_of_spells h (3 * cs.length + 1) [] (by omega) nofun
  have hnext : (read cs).toOption =
      (next? (3 * cs.length + 1) cs).bind fun read => if read.2.isEmpty then some read.1 else none := by
    rw [read, next?]
    cases takeValue (3 * cs.length + 1) cs with
    | error e => rfl
    | ok read =>
      obtain ⟨v, rest⟩ := read
      simp only [bind, Except.bind]
      by_cases hempty : (Text.trimStart rest).isEmpty = true
      · rw [if_pos hempty]
        exact (if_pos hempty).symm
      · rw [if_neg hempty]
        exact (if_neg hempty).symm
  rw [List.append_nil] at hscan
  rw [hnext, hscan]
  cases t.read? reading <;> rfl

end Conform.Literal

import Conform.Literal
import Conform.Proofs.Numeric.Written
import Conform.Proofs.Value.Equality

/-! Literals as they are written. The text of a value of nulls, truth values, integers, strings and containers is read back
    as that value, whatever ends it. A value begins with a character that neither is blank nor ends one, so brackets, a
    comma and a colon are met where they are looked for; a set and a map begin alike, and are told apart by what stands
    behind their first item. -/

namespace Conform.Literal

variable {c close : Char} {cs rest tail word : List Char} {fuel : Nat} {v k w : Value} {items : List Value}
  {entries : List (Value × Value)}

/-! ### Words and numbers -/

/-- What may stand behind a value: nothing, or a mark that ends it. -/
def Ends (rest : List Char) : Prop := ∀ c ∈ rest.head?, isDelimiter c = true

theorem ends_of_mark (h : isDelimiter c = true) : Ends (c :: rest) := fun _ hc => Option.some.inj hc ▸ h

theorem mark_of_isDelimiter (h : isDelimiter c = true) :
    c = ',' ∨ c = ':' ∨ c = ']' ∨ c = ')' ∨ c = '\x7d' := by
  simpa [isDelimiter, or_assoc] using h

theorem not_isBlank_of_isDelimiter (h : isDelimiter c = true) : Text.isBlank c = false := by
  obtain rfl | rfl | rfl | rfl | rfl := mark_of_isDelimiter h <;> rfl

/-- A word without a blank at its end is taken up to the mark that ends it, with the blanks before that. -/
theorem takeWord_blanks {blanks : List Char} (hword : ∀ c ∈ word, isDelimiter c = false)
    (hlast : ∀ c ∈ word.getLast?, Text.isBlank c = false) (hne : word ≠ []) (hblanks : ∀ c ∈ blanks, Text.isBlank c = true)
    (hrest : Ends rest) : takeWord (word ++ (blanks ++ rest)) = .ok (String.ofList word, rest) := by
  have hall : ∀ c ∈ word ++ blanks, (!isDelimiter c) = true := by
    intro c hc
    rw [Bool.not_eq_true', Bool.eq_false_iff]
    intro hmark
    obtain hc | hc := List.mem_append.mp hc
    · exact Bool.false_ne_true ((hword c hc).symm.trans hmark)
    · exact Bool.false_ne_true ((not_isBlank_of_isDelimiter hmark).symm.trans (hblanks c hc))
  have htake : (word ++ (blanks ++ rest)).takeWhile (!isDelimiter ·) = word ++ blanks := by
    rw [← List.append_assoc, List.takeWhile_append_of_pos hall]
    cases rest with
    | nil => rw [List.takeWhile_nil, List.append_nil]
    | cons c rest => rw [List.takeWhile_cons_of_neg (by simp [hrest c rfl]), List.append_nil]
  have hdrop : (word ++ (blanks ++ rest)).dropWhile (!isDelimiter ·) = rest := by
    rw [← List.append_assoc, List.dropWhile_append_of_pos hall]
    cases rest with
    | nil => rfl
    | cons c rest => rw [List.dropWhile_cons_of_neg (by simp [hrest c rfl])]
  have htrim : Text.trimEnd (word ++ blanks) = word := by
    rw [Text.trimEnd, List.reverse_append, List.dropWhile_append_of_pos fun c hc => hblanks c (List.mem_reverse.mp hc)]
    exact Text.trimEnd_of_last hlast
  rw [takeWord, htake, hdrop, htrim]
  simp [hne]

theorem takeWord_append (hword : ∀ c ∈ word, isDelimiter c = false) (hlast : ∀ c ∈ word.getLast?, Text.isBlank c = false)
    (hne : word ≠ []) (hrest : Ends rest) : takeWord (word ++ rest) = .ok (String.ofList word, rest) :=
  takeWord_blanks hword hlast hne (List.forall_mem_nil _) hrest

/-- What a number may be made of behind its sign. -/
inductive Run : List Char → Prop
  | nil : Run []
  | plain {c : Char} {run : List Char} (hc : c.isDigit = true ∨ c = '_' ∨ c = '.' ∨ c = 'e' ∨ c = 'E') (hrun : Run run) :
    Run (c :: run)
  | signed {mark sign : Char} {run : List Char} (hmark : mark = 'e' ∨ mark = 'E') (hsign : sign = '-' ∨ sign = '+')
      (hrun : Run run) : Run (mark :: sign :: run)

/-- What stands behind a number: nothing, a blank, or a mark that ends a value. -/
def Stops (rest : List Char) : Prop := ∀ c ∈ rest.head?, (Text.isBlank c || isDelimiter c) = true

theorem Ends.stops (h : Ends rest) : Stops rest := fun c hc => by rw [h c hc, Bool.or_true]

theorem run_of_digits {ds : List Char} (h : ∀ c ∈ ds, c.isDigit = true) : Run ds := by
  induction ds with
  | nil => exact .nil
  | cons c ds ih =>
    obtain ⟨hc, hds⟩ := List.forall_mem_cons.mp h
    exact .plain (.inl hc) (ih hds)

theorem Stops.apart (h : Stops (c :: rest)) :
    c.isDigit = false ∧ c ≠ '_' ∧ c ≠ '.' ∧ c ≠ 'e' ∧ c ≠ 'E' ∧ c ≠ '-' ∧ c ≠ '+' := by
  have hc : (Text.isBlank c || isDelimiter c) = true := h c rfl
  refine ⟨Bool.eq_false_iff.mpr fun hdigit => ?_, ?_, ?_, ?_, ?_, ?_, ?_⟩
  · have hplain : (!(Text.isBlank c || isDelimiter c)) = true :=
      Digits.forall_isDigit (p := fun c => !(Text.isBlank c || isDelimiter c)) rfl hdigit
    rw [hc] at hplain
    cases hplain
  all_goals
    rintro rfl
    cases hc

theorem numberRun_of_stops (hrest : Stops rest) : numberRun rest = ([], rest) := by
  match rest with
  | [] => rfl
  | [c] =>
    obtain ⟨hdigit, hlow, hpoint, he, hE, -, -⟩ := hrest.apart
    simp [numberRun, hdigit, hlow, hpoint, he, hE]
  | c :: d :: rest =>
    obtain ⟨hdigit, hlow, hpoint, he, hE, -, -⟩ := hrest.apart
    simp [numberRun, hdigit, hlow, hpoint, he, hE]

/-- A run goes on with any of its characters, an exponent mark before a sign apart. -/
theorem numberRun_plain (hc : c.isDigit = true ∨ c = '_' ∨ c = '.' ∨ c = 'e' ∨ c = 'E')
    (hnext : ∀ d ∈ cs.head?, d ≠ '-' ∧ d ≠ '+') : numberRun (c :: cs) = (c :: (numberRun cs).1, (numberRun cs).2) := by
  have hpart : (c.isDigit || c == '_' || c == '.' || c == 'e' || c == 'E') = true := by simpa [or_assoc] using hc
  cases cs with
  | nil => simp [numberRun, hpart]
  | cons d cs => simp [numberRun, hpart, hnext d rfl]

theorem numberRun_signed {mark sign : Char} (hmark : mark = 'e' ∨ mark = 'E') (hsign : sign = '-' ∨ sign = '+')
    (cs : List Char) : numberRun (mark :: sign :: cs) = (mark :: sign :: (numberRun cs).1, (numberRun cs).2) := by
  simp [numberRun, hmark, hsign]

theorem Run.head?_ne {run : List Char} (h : Run run) (hrest : Stops rest) : ∀ d ∈ (run ++ rest).head?, d ≠ '-' ∧ d ≠ '+' := by
  rintro d hd
  cases h with
  | nil =>
    cases rest with
    | nil => cases hd
    | cons c rest =>
      cases hd
      exact hrest.apart.2.2.2.2.2
  | plain hc =>
    cases hd
    constructor <;> (rintro rfl; revert hc; decide)
  | signed hmark =>
    cases hd
    constructor <;> (rintro rfl; revert hmark; decide)

/-- A run is taken up to where it stops. -/
theorem numberRun_append {run : List Char} (h : Run run) (hrest : Stops rest) : numberRun (run ++ rest) = (run, rest) := by
  induction h with
  | nil => exact numberRun_of_stops hrest
  | plain hc hrun ih => rw [List.cons_append, numberRun_plain hc (hrun.head?_ne hrest), ih]
  | signed hmark hsign _ ih => rw [List.cons_append, List.cons_append, numberRun_signed hmark hsign, ih]

/-- The number that a sign and a run spell, or why they spell none. -/
def spelled (sign run : List Char) : Except LiteralError Value :=
  let numeral := sign ++ run.filter (· != '_')
  if run.any fun c => c == '.' || c == 'e' || c == 'E' then
    match Binary64.ofChars? numeral with
    | some x => .ok (.float x)
    | none => .error (.badFloat (String.ofList numeral))
  else
    match integer? numeral with
    | some i => .ok (.int i)
    | none => .error (.badInteger (String.ofList numeral))

/-- A number begins with a sign, or else with a digit. -/
def Opens (sign run : List Char) : Prop :=
  sign = ['-'] ∨ sign = ['+'] ∨ sign = [] ∧ ∃ c ∈ run.head?, c.isDigit = true

theorem Opens.sign {sign run : List Char} (h : Opens sign run) (rest : List Char) :
    ((sign ++ (run ++ rest)).take 1).filter (fun c => c == '-' || c == '+') = sign := by
  obtain rfl | rfl | ⟨rfl, c, hc, hdigit⟩ := h
  · rfl
  · rfl
  · obtain ⟨run, rfl⟩ := List.head?_eq_some_iff.mp hc
    have hsign : c ≠ '-' ∧ c ≠ '+' := by constructor <;> (rintro rfl; cases hdigit)
    simp [hsign]

/-- Where a run stops, its number is all that counts. -/
theorem takeNumber_append {sign run : List Char} (hopens : Opens sign run) (hrun : Run run) (hrest : Stops rest) :
    takeNumber (sign ++ (run ++ rest)) = (spelled sign run).map fun v => (v, rest) := by
  unfold takeNumber spelled
  simp only [hopens.sign, List.drop_left, numberRun_append hrun hrest]
  rcases rest with _ | ⟨c, rest⟩
  on_goal 1 => rw [if_pos rfl]
  on_goal 2 => rw [if_pos (hrest c rfl)]
  all_goals
    split_ifs
    · cases Binary64.ofChars? (sign ++ run.filter (· != '_')) <;> rfl
    · cases integer? (sign ++ run.filter (· != '_')) <;> rfl

/-- With neither a point nor an exponent among the digits, it is the reading of an integer that counts. -/
theorem spelled_digits {sign ds : List Char} {i : Int64} (hds : ∀ c ∈ ds, c.isDigit = true)
    (hread : integer? (sign ++ ds) = some i) : spelled sign ds = .ok (.int i) := by
  have hplain {c : Char} (hc : c ∈ ds) (mark : Char) (hmark : mark.isDigit = false) : c ≠ mark := by
    rintro rfl
    exact Bool.false_ne_true (hmark.symm.trans (hds c hc))
  have hwhole : ds.any (fun c => c == '.' || c == 'e' || c == 'E') = false := by
    rw [List.any_eq_false]
    intro c hc
    simp [hplain hc '.' rfl, hplain hc 'e' rfl, hplain hc 'E' rfl]
  have hfilter : ds.filter (· != '_') = ds := List.filter_eq_self.mpr fun c hc => bne_iff_ne.mpr (hplain hc '_' rfl)
  simp only [spelled, hwhole, hfilter, hread, Bool.false_eq_true, if_false]

theorem exists_intChars (i : Int64) : ∃ c cs, Value.intChars i = c :: cs ∧ (c = '-' ∨ c.isDigit = true) := by
  by_cases h : i.toInt < 0
  · exact ⟨'-', _, by rw [Value.intChars, if_pos h], .inl rfl⟩
  · obtain ⟨c, cs, hcs⟩ := List.exists_cons_of_ne_nil (Digits.ofNat_ne_nil (n := i.toInt.natAbs))
    exact ⟨c, cs, by rw [Value.intChars, if_neg h, hcs], .inr (Digits.isDigit_of_mem_ofNat (hcs ▸ List.mem_cons_self))⟩

theorem takeNumber_intChars (i : Int64) (hrest : Ends rest) : takeNumber (Value.intChars i ++ rest) = .ok (.int i, rest) := by
  have hdigits : ∀ c ∈ Digits.ofNat i.toInt.natAbs, c.isDigit = true := fun _ => Digits.isDigit_of_mem_ofNat
  have hread : integer? (Value.intChars i) = some i := integer?_integerChars i
  by_cases h : i.toInt < 0
  · rw [Value.intChars, if_pos h] at hread ⊢
    have hopens : Opens ['-'] (Digits.ofNat i.toInt.natAbs) := .inl rfl
    have htake := takeNumber_append hopens (run_of_digits hdigits) hrest.stops
    rwa [spelled_digits hdigits hread] at htake
  · rw [Value.intChars, if_neg h] at hread ⊢
    obtain ⟨c, cs, hcs⟩ := List.exists_cons_of_ne_nil (Digits.ofNat_ne_nil (n := i.toInt.natAbs))
    have hopens : Opens [] (Digits.ofNat i.toInt.natAbs) :=
      .inr (.inr ⟨rfl, c, by rw [hcs]; rfl, hdigits c (hcs ▸ List.mem_cons_self)⟩)
    have htake := takeNumber_append hopens (run_of_digits hdigits) hrest.stops
    rwa [spelled_digits hdigits hread] at htake

/-! ### Strings -/

/-- A character that stands between quotes as itself, or by the letter of its escape. -/
def Shows (c : Char) : Prop :=
  Text.escape c = [c] ∨ ∃ letter ∈ ['t', 'r', 'n', '"', '\\'], Text.escape c = ['\\', letter]

instance (c : Char) : Decidable (Shows c) :=
  have := List.decidableBEx (fun letter => Text.escape c = ['\\', letter]) ['t', 'r', 'n', '"', '\\']
  inferInstanceAs (Decidable (_ ∨ _))

/-- The letter of an escape stands for what is escaped by it. -/
theorem unescape_of_escape {letter : Char} (hletter : letter ∈ ['t', 'r', 'n', '"', '\\'])
    (h : Text.escape c = ['\\', letter]) : unescape letter = [c] := by
  unfold Text.escape at h
  split_ifs at h with hzero ht hr hn hquote hslash hshown
  · cases h
    simp at hletter
  · cases h
    rw [ht]
    rfl
  · cases h
    rw [hr]
    rfl
  · cases h
    rw [hn]
    rfl
  · cases h
    rw [hquote]
    rfl
  · cases h
    rw [hslash]
    rfl
  · cases h
  · exact absurd (congrArg List.length h) (by simp)

theorem takeString_bare (hquote : c ≠ '"') (hslash : c ≠ '\\') (rest : List Char) :
    takeString '"' (c :: rest) = (takeString '"' rest).map fun read => (c :: read.1, read.2) := by
  rw [takeString.eq_def]
  simp only [if_neg hquote, if_neg hslash]
  cases takeString '"' rest <;> rfl

theorem takeString_unescape (letter : Char) (rest : List Char) :
    takeString '"' ('\\' :: letter :: rest) = (takeString '"' rest).map fun read => (unescape letter ++ read.1, read.2) := by
  rw [takeString.eq_def]
  simp only [if_neg (by decide : '\\' ≠ '"'), if_pos]
  cases takeString '"' rest <;> rfl

theorem takeString_escaped {letter : Char} (h : unescape letter = [c]) (rest : List Char) :
    takeString '"' ('\\' :: letter :: rest) = (takeString '"' rest).map fun read => (c :: read.1, read.2) := by
  rw [takeString_unescape, h]
  rfl

theorem takeString_escape (h : Shows c) (rest : List Char) :
    takeString '"' (Text.escape c ++ rest) = (takeString '"' rest).map fun read => (c :: read.1, read.2) := by
  rcases h with h | ⟨letter, hletter, h⟩
  · rw [h]
    refine takeString_bare ?_ ?_ rest <;> (rintro rfl; cases h)
  · rw [h]
    exact takeString_escaped (unescape_of_escape hletter h) rest

/-- Between its quotes a string is taken as it is written. -/
theorem takeString_flatMap (hcs : ∀ c ∈ cs, Shows c) (rest : List Char) :
    takeString '"' (cs.flatMap Text.escape ++ '"' :: rest) = .ok (cs, rest) := by
  induction cs with
  | nil =>
    rw [List.flatMap_nil, List.nil_append, takeString.eq_def]
    exact if_pos rfl
  | cons c cs ih =>
    obtain ⟨hc, hcs⟩ := List.forall_mem_cons.mp hcs
    rw [List.flatMap_cons, List.append_assoc, takeString_escape hc, ih hcs]
    rfl

/-! ### Values -/

/-- Values of nulls, truth values, integers, and strings whose characters stand for themselves or have an escape of one
    letter, in lists, tuples, sets with a member at least, and maps; no member of a set and no key of a map stands twice. -/
inductive Legible : Value → Prop
  | null : Legible .null
  | bool (b : Bool) : Legible (.bool b)
  | int (i : Int64) : Legible (.int i)
  | str {s : String} (hs : ∀ c ∈ s.toList, Shows c) : Legible (.str s)
  | list {items : List Value} (hitems : ∀ v ∈ items, Legible v) : Legible (.list items)
  | tuple {items : List Value} (hitems : ∀ v ∈ items, Legible v) : Legible (.tuple items)
  | set {items : List Value} (hne : items ≠ []) (hapart : Value.Apart items) (hitems : ∀ v ∈ items, Legible v) :
    Legible (.set items)
  | map {entries : List (Value × Value)} (hapart : Value.Apart (entries.map Prod.fst))
    (hkeys : ∀ e ∈ entries, Legible e.1) (hvalues : ∀ e ∈ entries, Legible e.2) : Legible (.map entries)

theorem legible_str {s : String} (hs : s.toList.all (fun c => decide (Shows c)) = true) : Legible (.str s) :=
  .str fun c hc => of_decide_eq_true (List.all_eq_true.mp hs c hc)

/-- A text that begins with a character that neither is blank nor ends a value. -/
def Begins (cs : List Char) : Prop := ∃ c rest, cs = c :: rest ∧ Text.isBlank c = false ∧ isDelimiter c = false

namespace Begins

theorem append (h : Begins cs) (rest : List Char) : Begins (cs ++ rest) := by
  obtain ⟨c, more, rfl, hblank, hmark⟩ := h
  exact ⟨c, more ++ rest, rfl, hblank, hmark⟩

theorem trimStart (h : Begins cs) : Text.trimStart cs = cs := by
  obtain ⟨c, more, rfl, hblank, -⟩ := h
  exact Text.trimStart_cons hblank

theorem head?_ne (h : Begins cs) (hclose : isDelimiter close = true) : cs.head? ≠ some close := by
  obtain ⟨c, more, rfl, -, hmark⟩ := h
  intro heq
  rw [Option.some.inj heq, hclose] at hmark
  cases hmark

theorem length_pos (h : Begins cs) : 0 < cs.length := by
  obtain ⟨c, more, rfl, -⟩ := h
  exact Nat.succ_pos _

end Begins

theorem begins_intChars (i : Int64) : Begins (Value.intChars i) := by
  obtain ⟨c, cs, hcs, rfl | hc⟩ := exists_intChars i
  · exact ⟨'-', cs, hcs, rfl, rfl⟩
  · have hmark : (!isDelimiter c) = true := Digits.forall_isDigit (p := fun c => !isDelimiter c) rfl hc
    exact ⟨c, cs, hcs, Text.not_isBlank_of_isDigit hc, by simpa using hmark⟩

/-- A value that begins as one, and is taken from the front of a text that goes on with the end of a value. -/
structure Readable (v : Value) : Prop where
  begins : Begins v.chars
  taken : ∀ (fuel : Nat) (rest : List Char), v.chars.length ≤ fuel → Ends rest →
    takeValue fuel (v.chars ++ rest) = .ok (v, rest)

/-! ### Single values -/

theorem takeValue_word (hblank : Text.isBlank c = false) (hopen : c ∉ ['[', '(', '\x7b', '"', '\''])
    (hnumber : ¬(c = '-' ∨ c = '+' ∨ c.isDigit = true)) (fuel : Nat) (cs : List Char) :
    takeValue (fuel + 1) (c :: cs) = (takeWord (c :: cs)).map fun read => (wordValue read.1, read.2) := by
  rw [takeValue, Text.trimStart_cons hblank]
  split
  case h_7 heq =>
    cases heq
    exact if_neg hnumber
  all_goals simp_all

theorem takeValue_number (h : c = '-' ∨ c = '+' ∨ c.isDigit = true) (fuel : Nat) (cs : List Char) :
    takeValue (fuel + 1) (c :: cs) = takeNumber (c :: cs) := by
  have hblank : Text.isBlank c = false := by
    obtain rfl | rfl | hdigit := h
    · rfl
    · rfl
    · exact Text.not_isBlank_of_isDigit hdigit
  rw [takeValue, Text.trimStart_cons hblank]
  split
  case h_7 heq =>
    cases heq
    exact if_pos h
  all_goals simp_all

/-- A value whose text is a word is taken as it is written. -/
theorem readable_word (hchars : v.chars = c :: cs) (hfirst : c = 'n' ∨ c = 't' ∨ c = 'f')
    (hplain : (c :: cs).all (fun d => !Text.isBlank d && !isDelimiter d) = true)
    (hvalue : wordValue (String.ofList (c :: cs)) = v) : Readable v := by
  have hpart (d : Char) (hd : d ∈ c :: cs) : Text.isBlank d = false ∧ isDelimiter d = false := by
    simpa using List.all_eq_true.mp hplain d hd
  have hsolid : Text.Solid (c :: cs) := fun d hd => (hpart d hd).1
  have hmarks (d : Char) (hd : d ∈ c :: cs) : isDelimiter d = false := (hpart d hd).2
  refine ⟨⟨c, cs, hchars, hsolid c List.mem_cons_self, hmarks c List.mem_cons_self⟩, fun fuel rest hfuel hrest => ?_⟩
  rw [hchars] at hfuel ⊢
  obtain ⟨fuel, rfl⟩ := Nat.exists_eq_add_one.mpr (Nat.zero_lt_of_lt hfuel)
  have hword := takeWord_append hmarks (fun d hd => hsolid d (List.mem_of_getLast? hd)) (List.cons_ne_nil c cs) hrest
  rw [List.cons_append] at hword ⊢
  have hopen : c ∉ ['[', '(', '\x7b', '"', '\''] ∧ ¬(c = '-' ∨ c = '+' ∨ c.isDigit = true) := by
    obtain rfl | rfl | rfl := hfirst <;> decide
  rw [takeValue_word (hsolid c List.mem_cons_self) hopen.1 hopen.2, hword, ← hvalue]
  rfl

theorem readable_null : Readable .null :=
  readable_word (by rw [Value.chars]) (.inl rfl) rfl rfl

theorem readable_bool (b : Bool) : Readable (.bool b) := by
  cases b with
  | true => exact readable_word (by rw [Value.chars]; rfl) (.inr (.inl rfl)) rfl rfl
  | false => exact readable_word (by rw [Value.chars]; rfl) (.inr (.inr rfl)) rfl rfl

theorem readable_int (i : Int64) : Readable (.int i) := by
  have hchars : (Value.int i).chars = Value.intChars i := by rw [Value.chars]
  refine ⟨hchars ▸ begins_intChars i, fun fuel rest hfuel hrest => ?_⟩
  rw [hchars] at hfuel ⊢
  obtain ⟨fuel, rfl⟩ := Nat.exists_eq_add_one.mpr ((begins_intChars i).length_pos.trans_le hfuel)
  have hread := takeNumber_intChars i hrest
  obtain ⟨c, cs, hcs, hfirst⟩ := exists_intChars i
  rw [hcs, List.cons_append] at hread ⊢
  rw [takeValue_number (hfirst.imp_right .inr), hread]

theorem readable_str {s : String} (hs : ∀ c ∈ s.toList, Shows c) : Readable (.str s) := by
  have hchars : (Value.str s).chars = '"' :: (s.toList.flatMap Text.escape ++ ['"']) := by rw [Value.chars]; rfl
  refine ⟨⟨'"', _, hchars, rfl, rfl⟩, fun fuel rest hfuel _ => ?_⟩
  rw [hchars] at hfuel ⊢
  obtain ⟨fuel, rfl⟩ := Nat.exists_eq_add_one.mpr (Nat.zero_lt_of_lt hfuel)
  rw [List.cons_append, List.append_assoc, List.singleton_append, takeValue, Text.trimStart_cons rfl]
  simp only [takeString_flatMap hs]
  exact congrArg (fun t => Except.ok (Value.str t, rest)) (String.ofList_toList ..)

/-! ### Containers -/

theorem trimStart_mark (h : isDelimiter c = true) (rest : List Char) : Text.trimStart (c :: rest) = c :: rest :=
  Text.trimStart_cons (not_isBlank_of_isDelimiter h)

theorem takeValue_blank (fuel : Nat) (cs : List Char) : takeValue fuel (' ' :: cs) = takeValue fuel cs := by
  have htrim : Text.trimStart (' ' :: cs) = Text.trimStart cs := rfl
  cases fuel with
  | zero => rw [takeValue_zero, takeValue_zero]
  | succ fuel => rw [takeValue, takeValue, htrim]

theorem takeItems_blank (fuel : Nat) (close : Char) (cs : List Char) :
    takeItems fuel close (' ' :: cs) = takeItems fuel close cs := by
  have htrim : Text.trimStart (' ' :: cs) = Text.trimStart cs := rfl
  cases fuel with
  | zero => rw [takeItems_zero, takeItems_zero]
  | succ fuel => rw [takeItems, takeItems, htrim]

section Items

variable (hclose : isDelimiter close = true)

include hclose

theorem takeItems_close (fuel : Nat) (rest : List Char) : takeItems (fuel + 1) close (close :: rest) = .ok ([], rest) := by
  rw [takeItems, trimStart_mark hclose]
  exact if_pos rfl

theorem takeItems_last (hbegins : Begins cs) (hcomma : close ≠ ',') (h : takeValue fuel cs = .ok (v, close :: rest)) :
    takeItems (fuel + 1) close cs = .ok ([v], rest) := by
  have hnext : (close :: rest).head? ≠ some ',' := fun heq => hcomma (Option.some.inj heq)
  rw [takeItems, hbegins.trimStart]
  simp only [if_neg (hbegins.head?_ne hclose), h, bind, Except.bind, trimStart_mark hclose, if_neg hnext, expect, if_pos]
  rfl

theorem takeItems_more (hbegins : Begins cs) (h : takeValue fuel cs = .ok (v, ',' :: rest)) :
    takeItems (fuel + 1) close cs = (takeItems fuel close rest).map fun read => (v :: read.1, read.2) := by
  rw [takeItems, hbegins.trimStart]
  simp only [if_neg (hbegins.head?_ne hclose), h, bind, Except.bind, trimStart_mark (rfl : isDelimiter ',' = true),
    List.head?_cons, if_pos, List.tail_cons]
  cases takeItems fuel close rest <;> rfl

/-- Items are taken up to the closing bracket. -/
theorem takeItems_itemChars (hcomma : close ≠ ',') (hitems : ∀ v ∈ items, Readable v)
    (hfuel : (Value.itemChars items).length < fuel) (rest : List Char) :
    takeItems fuel close (Value.itemChars items ++ close :: rest) = .ok (items, rest) := by
  induction items generalizing fuel with
  | nil =>
    obtain ⟨fuel, rfl⟩ := Nat.exists_eq_add_one.mpr (Nat.zero_lt_of_lt hfuel)
    rw [Value.itemChars]
    exact takeItems_close hclose fuel rest
  | cons v more ih =>
    obtain ⟨hv, hmore⟩ := List.forall_mem_cons.mp hitems
    obtain ⟨fuel, rfl⟩ := Nat.exists_eq_add_one.mpr (Nat.zero_lt_of_lt hfuel)
    by_cases hlast : more = []
    · subst hlast
      rw [Value.itemChars] at hfuel ⊢
      exact takeItems_last hclose (hv.begins.append _) hcomma (hv.taken fuel _ (by omega) (ends_of_mark hclose))
    · rw [Value.itemChars_cons v hlast, List.length_append, List.length_cons, List.length_cons] at hfuel
      have hnext := hv.taken fuel (',' :: ' ' :: (Value.itemChars more ++ close :: rest)) (by omega) (ends_of_mark rfl)
      rw [Value.itemChars_cons v hlast, List.append_assoc, List.cons_append, List.cons_append,
        takeItems_more hclose (hv.begins.append _) hnext, takeItems_blank, ih hmore (by omega)]
      rfl

end Items

theorem takeEntries_close (fuel : Nat) (rest : List Char) : takeEntries (fuel + 1) ('\x7d' :: rest) = .ok ([], rest) := by
  rw [takeEntries, trimStart_mark rfl]
  exact if_pos rfl

theorem takeEntries_more (hbegins : Begins cs) (hkey : takeValue fuel cs = .ok (k, ':' :: rest))
    (hvalue : takeValue fuel rest = .ok (w, tail)) :
    takeEntries (fuel + 1) (',' :: ' ' :: cs) = (takeEntries fuel tail).map fun read => ((k, w) :: read.1, read.2) := by
  have hblank : Text.trimStart (' ' :: cs) = cs := hbegins.trimStart
  rw [takeEntries, trimStart_mark rfl]
  simp only [List.head?_cons, Option.some.injEq, Char.reduceEq, if_false, expect, if_true, bind, Except.bind, hblank,
    if_neg (hbegins.head?_ne (rfl : isDelimiter '\x7d' = true)), hkey, trimStart_mark (rfl : isDelimiter ':' = true), hvalue]
  cases takeEntries fuel tail <;> rfl

theorem takeBraced_close (fuel : Nat) (rest : List Char) : takeBraced (fuel + 1) ('\x7d' :: rest) = .ok (.map [], rest) := by
  rw [takeBraced, trimStart_mark rfl]
  exact if_pos rfl

section Braces

variable (hbegins : Begins cs)

include hbegins

theorem takeBraced_single (h : takeValue fuel cs = .ok (v, '\x7d' :: rest)) : takeBraced (fuel + 1) cs = .ok (.set [v], rest) := by
  rw [takeBraced, hbegins.trimStart]
  simp only [if_neg (hbegins.head?_ne (rfl : isDelimiter '\x7d' = true)), h, bind, Except.bind,
    trimStart_mark (rfl : isDelimiter '\x7d' = true)]
  rfl

theorem takeBraced_set (h : takeValue fuel cs = .ok (v, ',' :: rest)) (hitems : takeItems fuel '\x7d' rest = .ok (items, tail)) :
    takeBraced (fuel + 1) cs = .ok (.set (Value.distinct (v :: items)), tail) := by
  rw [takeBraced, hbegins.trimStart]
  simp only [if_neg (hbegins.head?_ne (rfl : isDelimiter '\x7d' = true)), h, bind, Except.bind,
    trimStart_mark (rfl : isDelimiter ',' = true), expect, List.head?_cons, Option.some.injEq, Char.reduceEq, if_false, if_true,
    hitems]
  rfl

theorem takeBraced_map (hkey : takeValue fuel cs = .ok (k, ':' :: rest)) (hvalue : takeValue fuel rest = .ok (w, tail))
    {after : List Char} (hentries : takeEntries fuel tail = .ok (entries, after)) :
    takeBraced (fuel + 1) cs = .ok (.map (Value.entriesOf ((k, w) :: entries)), after) := by
  rw [takeBraced, hbegins.trimStart]
  simp only [if_neg (hbegins.head?_ne (rfl : isDelimiter '\x7d' = true)), hkey, bind, Except.bind,
    trimStart_mark (rfl : isDelimiter ':' = true), List.head?_cons, List.tail_cons, if_true, hvalue, hentries]
  rfl

end Braces

/-- Entries with a comma before each. -/
def entryTail : List (Value × Value) → List Char
  | [] => []
  | (k, w) :: more => ',' :: ' ' :: (k.chars ++ ':' :: ' ' :: (w.chars ++ entryTail more))

theorem entryChars_cons (k w : Value) (more : List (Value × Value)) :
    Value.entryChars ((k, w) :: more) = k.chars ++ ':' :: ' ' :: (w.chars ++ entryTail more) := by
  induction more generalizing k w with
  | nil => rw [Value.entryChars, entryTail, List.append_nil]
  | cons e more ih =>
    obtain ⟨k', w'⟩ := e
    rw [Value.entryChars, ih, entryTail, List.append_assoc]
    · rfl
    · exact List.cons_ne_nil _ _

theorem ends_entryTail (entries : List (Value × Value)) (rest : List Char) : Ends (entryTail entries ++ '\x7d' :: rest) := by
  cases entries with
  | nil => exact ends_of_mark rfl
  | cons e more => exact ends_of_mark rfl

/-- The value behind the colon of an entry is taken up to the next entry, or to the closing brace. -/
theorem takeValue_behind (hw : Readable w) (hfuel : w.chars.length ≤ fuel) (entries : List (Value × Value)) (rest : List Char) :
    takeValue fuel (' ' :: (w.chars ++ (entryTail entries ++ '\x7d' :: rest))) = .ok (w, entryTail entries ++ '\x7d' :: rest) := by
  rw [takeValue_blank]
  exact hw.taken fuel _ hfuel (ends_entryTail entries rest)

/-- Entries are taken up to the closing brace, each behind its comma. -/
theorem takeEntries_entryTail (hkeys : ∀ e ∈ entries, Readable e.1) (hvalues : ∀ e ∈ entries, Readable e.2)
    (hfuel : (entryTail entries).length < fuel) (rest : List Char) :
    takeEntries fuel (entryTail entries ++ '\x7d' :: rest) = .ok (entries, rest) := by
  induction entries generalizing fuel with
  | nil =>
    obtain ⟨fuel, rfl⟩ := Nat.exists_eq_add_one.mpr (Nat.zero_lt_of_lt hfuel)
    exact takeEntries_close fuel rest
  | cons e more ih =>
    obtain ⟨k, w⟩ := e
    obtain ⟨hk, hkeys⟩ : Readable k ∧ ∀ e ∈ more, Readable e.1 := List.forall_mem_cons.mp hkeys
    obtain ⟨hw, hvalues⟩ : Readable w ∧ ∀ e ∈ more, Readable e.2 := List.forall_mem_cons.mp hvalues
    obtain ⟨fuel, rfl⟩ := Nat.exists_eq_add_one.mpr (Nat.zero_lt_of_lt hfuel)
    -- The comma of an entry pays for its step, so the fuel that is left is more than the text that is left.
    simp only [entryTail, List.length_cons, List.length_append] at hfuel
    simp only [entryTail, List.cons_append, List.append_assoc]
    rw [takeEntries_more (hk.begins.append _) (hk.taken fuel _ (by omega) (ends_of_mark rfl))
      (takeValue_behind hw (by omega) more rest), ih hkeys hvalues (by omega)]
    rfl

theorem takeValue_bracket (fuel : Nat) (cs : List Char) :
    takeValue (fuel + 1) ('[' :: cs) = (takeItems fuel ']' cs).map fun read => (.list read.1, read.2) := by
  rw [takeValue, Text.trimStart_cons rfl]
  cases h : takeItems fuel ']' cs <;> simp only [h] <;> rfl

theorem takeValue_parenthesis (fuel : Nat) (cs : List Char) :
    takeValue (fuel + 1) ('(' :: cs) = (takeItems fuel ')' cs).map fun read => (.tuple read.1, read.2) := by
  rw [takeValue, Text.trimStart_cons rfl]
  cases h : takeItems fuel ')' cs <;> simp only [h] <;> rfl

theorem takeValue_brace (fuel : Nat) (cs : List Char) : takeValue (fuel + 1) ('\x7b' :: cs) = takeBraced fuel cs := by
  rw [takeValue, Text.trimStart_cons rfl]
  rfl

/-- Items between two brackets are taken as what the brackets stand for. -/
theorem readable_enclosed {mark : Char} {make : List Value → Value} (hmark : Text.isBlank mark = false ∧ isDelimiter mark = false)
    (hclose : isDelimiter close = true ∧ close ≠ ',') (hchars : (make items).chars = mark :: (Value.itemChars items ++ [close]))
    (htake : ∀ fuel cs, takeValue (fuel + 1) (mark :: cs) = (takeItems fuel close cs).map fun read => (make read.1, read.2))
    (hitems : ∀ v ∈ items, Readable v) : Readable (make items) := by
  refine ⟨⟨mark, _, hchars, hmark⟩, fun fuel rest hfuel _ => ?_⟩
  rw [hchars, List.length_cons, List.length_append, List.length_singleton] at hfuel
  obtain ⟨fuel, rfl⟩ := Nat.exists_eq_add_one.mpr (by omega : 0 < fuel)
  rw [hchars, List.cons_append, List.append_assoc, List.singleton_append, htake,
    takeItems_itemChars hclose.1 hclose.2 hitems (by omega)]
  rfl

theorem readable_list (hitems : ∀ v ∈ items, Readable v) : Readable (.list items) :=
  readable_enclosed ⟨rfl, rfl⟩ ⟨rfl, by decide⟩ (by rw [Value.chars]; rfl) takeValue_bracket hitems

theorem readable_tuple (hitems : ∀ v ∈ items, Readable v) : Readable (.tuple items) :=
  readable_enclosed ⟨rfl, rfl⟩ ⟨rfl, by decide⟩ (by rw [Value.chars]; rfl) takeValue_parenthesis hitems

/-- What stands behind the first member tells a set from a map, whether there is another one or not. -/
theorem readable_set (hne : items ≠ []) (hapart : Value.Apart items) (hitems : ∀ v ∈ items, Readable v) :
    Readable (.set items) := by
  have hchars : (Value.set items).chars = '\x7b' :: (Value.itemChars items ++ ['\x7d']) := by rw [Value.chars]; rfl
  refine ⟨⟨'\x7b', _, hchars, rfl, rfl⟩, fun fuel rest hfuel _ => ?_⟩
  rw [hchars, List.length_cons, List.length_append, List.length_singleton] at hfuel
  obtain ⟨v, more, rfl⟩ := List.exists_cons_of_ne_nil hne
  obtain ⟨hv, hmore⟩ := List.forall_mem_cons.mp hitems
  -- One step of fuel goes to the brace and one to what stands behind it; both braces are of the text.
  obtain ⟨fuel, rfl⟩ := Nat.exists_eq_add_one.mpr (by omega : 0 < fuel)
  obtain ⟨fuel, rfl⟩ := Nat.exists_eq_add_one.mpr (by omega : 0 < fuel)
  rw [hchars, List.cons_append, List.append_assoc, List.singleton_append, takeValue_brace]
  by_cases hlast : more = []
  · subst hlast
    rw [Value.itemChars] at hfuel ⊢
    exact takeBraced_single (hv.begins.append _) (hv.taken fuel _ (by omega) (ends_of_mark rfl))
  · rw [Value.itemChars_cons v hlast, List.length_append, List.length_cons, List.length_cons] at hfuel
    have hnext := hv.taken fuel (',' :: ' ' :: (Value.itemChars more ++ '\x7d' :: rest)) (by omega) (ends_of_mark rfl)
    have hothers : takeItems fuel '\x7d' (Value.itemChars more ++ '\x7d' :: rest) = .ok (more, rest) :=
      takeItems_itemChars rfl (by decide) hmore (by omega) rest
    rw [Value.itemChars_cons v hlast, List.append_assoc, List.cons_append, List.cons_append,
      takeBraced_set (hv.begins.append _) hnext ((takeItems_blank ..).trans hothers), Value.distinct_of_apart hapart]

theorem readable_map (hapart : Value.Apart (entries.map Prod.fst)) (hkeys : ∀ e ∈ entries, Readable e.1)
    (hvalues : ∀ e ∈ entries, Readable e.2) : Readable (.map entries) := by
  have hchars : (Value.map entries).chars = '\x7b' :: (Value.entryChars entries ++ ['\x7d']) := by rw [Value.chars]; rfl
  refine ⟨⟨'\x7b', _, hchars, rfl, rfl⟩, fun fuel rest hfuel _ => ?_⟩
  rw [hchars, List.length_cons, List.length_append, List.length_singleton] at hfuel
  obtain ⟨fuel, rfl⟩ := Nat.exists_eq_add_one.mpr (by omega : 0 < fuel)
  obtain ⟨fuel, rfl⟩ := Nat.exists_eq_add_one.mpr (by omega : 0 < fuel)
  rw [hchars, List.cons_append, List.append_assoc, List.singleton_append, takeValue_brace]
  cases entries with
  | nil =>
    rw [Value.entryChars]
    exact takeBraced_close fuel rest
  | cons e more =>
    obtain ⟨k, w⟩ := e
    obtain ⟨hk, hkeys⟩ : Readable k ∧ ∀ e ∈ more, Readable e.1 := List.forall_mem_cons.mp hkeys
    obtain ⟨hw, hvalues⟩ : Readable w ∧ ∀ e ∈ more, Readable e.2 := List.forall_mem_cons.mp hvalues
    rw [entryChars_cons, List.length_append, List.length_cons, List.length_cons, List.length_append] at hfuel
    have hothers := takeEntries_entryTail hkeys hvalues (by omega : _ < fuel) rest
    simp only [entryChars_cons, List.append_assoc, List.cons_append]
    rw [takeBraced_map (hk.begins.append _) (hk.taken fuel _ (by omega) (ends_of_mark rfl))
      (takeValue_behind hw (by omega) more rest) hothers, Value.entriesOf_of_apart hapart]

/-! ### Literals -/

theorem readable_of_legible (h : Legible v) : Readable v := by
  induction h with
  | null => exact readable_null
  | bool b => exact readable_bool b
  | int i => exact readable_int i
  | str hs => exact readable_str hs
  | list _ ih => exact readable_list ih
  | tuple _ ih => exact readable_tuple ih
  | set hne hapart _ ih => exact readable_set hne hapart ih
  | map hapart _ _ ihkeys ihvalues => exact readable_map hapart ihkeys ihvalues

/-- A value whose text has nothing but short escapes is read back from it as it is. -/
theorem read_text (h : Legible v) : read v.text.toList = .ok v := by
  have htext : v.text.toList = v.chars := String.toList_ofList ..
  have hread := (readable_of_legible h).taken (3 * v.chars.length + 1) [] (by omega) nofun
  rw [List.append_nil] at hread
  rw [htext, read, hread]
  rfl

/-- Each kind of value in a map: the least integer, escapes, a set of one member and one of two, and what is empty. -/
theorem read_text_nested :
    let v : Value := .map [(.int Int64.minValue, .list [.null, .bool true, .str "a\"\\\n"]),
      (.str "k", .tuple [.set [.int 1, .str "1"], .set [.map []], .list []])]
    Legible v ∧ read v.text.toList = .ok v := by
  intro v
  have hlist : Legible (.list [.null, .bool true, .str "a\"\\\n"]) := by
    refine .list (List.forall_mem_cons.mpr ⟨.null, List.forall_mem_cons.mpr ⟨.bool true, ?_⟩⟩)
    exact List.forall_mem_singleton.mpr (legible_str rfl)
  have hset : Legible (.set [.int 1, .str "1"]) := by
    refine .set (List.cons_ne_nil _ _) (by simp [Value.Apart, Value.same]) (List.forall_mem_cons.mpr ⟨.int 1, ?_⟩)
    exact List.forall_mem_singleton.mpr (legible_str rfl)
  have hempty : Legible (.set [.map []]) :=
    .set (List.cons_ne_nil _ _) (List.pairwise_singleton _ _)
      (List.forall_mem_singleton.mpr (.map .nil (List.forall_mem_nil _) (List.forall_mem_nil _)))
  have htuple : Legible (.tuple [.set [.int 1, .str "1"], .set [.map []], .list []]) := by
    refine .tuple (List.forall_mem_cons.mpr ⟨hset, List.forall_mem_cons.mpr ⟨hempty, ?_⟩⟩)
    exact List.forall_mem_singleton.mpr (.list (List.forall_mem_nil _))
  have hv : Legible v := by
    refine .map (by simp [Value.Apart, Value.same]) (List.forall_mem_cons.mpr ⟨.int _, ?_⟩)
      (List.forall_mem_cons.mpr ⟨hlist, List.forall_mem_singleton.mpr htuple⟩)
    exact List.forall_mem_singleton.mpr (legible_str rfl)
  exact ⟨hv, read_text hv⟩

end Conform.Literal

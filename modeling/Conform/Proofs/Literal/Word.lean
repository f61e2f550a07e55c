import Conform.Proofs.Literal

/-! Words between brackets. A word that is no numeral stands for itself, unless it looks like a number: where a sign or a
    digit begins a run that goes on to the end of the word, or to a blank in it, the run is held to be a number, and the
    word is refused. -/

namespace Conform.Literal

variable {c close : Char} {cs w sign run rest tail : List Char} {fuel : Nat} {v : Value}

/-! ### Runs -/

/-- The run at the front of a text, and what is behind it. -/
theorem numberRun_spec (cs : List Char) : (numberRun cs).1 ++ (numberRun cs).2 = cs ∧ Run (numberRun cs).1 := by
  fun_induction numberRun cs with
  | case1 => exact ⟨rfl, .nil⟩
  | case2 mark sign rest hsigned run after hread ih =>
    rw [hread] at ih
    simp only [Bool.and_eq_true, Bool.or_eq_true, beq_iff_eq] at hsigned
    exact ⟨congrArg (fun cs => mark :: sign :: cs) ih.1, .signed hsigned.1 hsigned.2 ih.2⟩
  | case3 mark sign rest hsigned hplain run after hread ih =>
    rw [hread] at ih
    simp only [Bool.or_eq_true, beq_iff_eq, or_assoc] at hplain
    exact ⟨congrArg (List.cons mark) ih.1, .plain hplain ih.2⟩
  | case4 => exact ⟨rfl, .nil⟩
  | case5 c hplain =>
    simp only [Bool.or_eq_true, beq_iff_eq, or_assoc] at hplain
    exact ⟨rfl, .plain hplain .nil⟩
  | case6 => exact ⟨rfl, .nil⟩

theorem head?_numberRun (hc : c.isDigit = true) (cs : List Char) : (numberRun (c :: cs)).1.head? = some c := by
  have hmark : c ≠ 'e' ∧ c ≠ 'E' := by constructor <;> (rintro rfl; cases hc)
  cases cs <;> simp [numberRun, hc, hmark]

/-- What is so of the digits and of the marks in numbers is so of a run. -/
theorem Run.forall_mem {p : Char → Bool} (hp : (Digits.all ++ ['_', '.', 'e', 'E', '-', '+']).all p = true) (h : Run run) :
    ∀ c ∈ run, p c = true := by
  have hdigit {c : Char} (hc : c.isDigit = true) : p c = true :=
    List.all_eq_true.mp hp c (List.mem_append_left _ (Digits.mem_all hc))
  have hmark {c : Char} (hc : c ∈ ['_', '.', 'e', 'E', '-', '+']) : p c = true :=
    List.all_eq_true.mp hp c (List.mem_append_right _ hc)
  induction h with
  | nil => exact List.forall_mem_nil _
  | plain hfirst _ ih =>
    refine List.forall_mem_cons.mpr ⟨?_, ih⟩
    obtain hfirst | rfl | rfl | rfl | rfl := hfirst
    · exact hdigit hfirst
    all_goals exact hmark (by decide)
  | signed hfirst hsign _ ih =>
    refine List.forall_mem_cons.mpr ⟨?_, List.forall_mem_cons.mpr ⟨?_, ih⟩⟩
    · obtain rfl | rfl := hfirst <;> exact hmark (by decide)
    · obtain rfl | rfl := hsign <;> exact hmark (by decide)

/-- There is no letter of a word for infinity, or for no number, in a run. -/
theorem Run.toLower_ne (h : Run run) (hc : c ∈ run) : c.toLower ≠ 'n' := by
  have hplain : (c.toLower != 'n') = true := h.forall_mem (p := fun c => c.toLower != 'n') (by decide) c hc
  simpa using hplain

/-! ### Numbers that are none -/

theorem Opens.signed (h : Opens sign run) :
    ∃ negative, Binary64.signed (sign ++ run.filter (· != '_')) = (negative, run.filter (· != '_')) := by
  obtain rfl | rfl | ⟨rfl, c, hc, hdigit⟩ := h
  · exact ⟨true, rfl⟩
  · exact ⟨false, rfl⟩
  · obtain ⟨run, rfl⟩ := List.head?_eq_some_iff.mp hc
    have hlow : c ≠ '_' := by rintro rfl; cases hdigit
    rw [List.filter_cons_of_pos (by simpa using hlow)]
    exact ⟨false, Binary64.signed_of_sign .none fun d hd => Option.some.inj hd ▸ unsigned_of_isDigit hdigit⟩

theorem integer?_eq_none (h : ¬IsNumeral cs) : integer? cs = none := by
  obtain ⟨s, -, hs⟩ := Binary64.exists_signed cs
  rw [integer?]
  refine if_pos (Decidable.of_not_not fun hdigits => ?_)
  simp only [Bool.or_eq_true, Bool.not_eq_true', not_or, List.isEmpty_iff, Bool.not_eq_false, List.all_eq_true] at hdigits
  have hne : (Binary64.signed cs).2 ≠ [] := hdigits.1
  refine h ⟨⟨s, ⟨(Binary64.signed cs).2, hdigits.2⟩, none, none⟩, ⟨?_, by simp⟩, ?_⟩
  · simpa [Numeral.digits, Numeral.fraction] using hne
  · simpa [Numeral.chars, Numeral.body] using hs

/-- A run that makes no numeral spells no number. -/
theorem spelled_eq_error (hopens : Opens sign run) (hrun : Run run) (h : ¬IsNumeral (sign ++ run.filter (· != '_'))) :
    ∃ e, spelled sign run = .error e := by
  obtain ⟨negative, hsigned⟩ := hopens.signed
  have hword (word : List Char) (hn : 'n' ∈ word) : (run.filter (· != '_')).map Char.toLower ≠ word := by
    rintro rfl
    obtain ⟨c, hc, hlower⟩ := List.mem_map.mp hn
    exact hrun.toLower_ne (List.mem_filter.mp hc).1 hlower
  have hfloat : Binary64.ofChars? (sign ++ run.filter (· != '_')) = none := by
    rw [isNumeral_iff, hsigned, Option.not_isSome_iff_eq_none] at h
    simp [Binary64.ofChars?, hsigned, h, hword ['i', 'n', 'f'] (by decide), hword ['n', 'a', 'n'] (by decide),
      hword ['i', 'n', 'f', 'i', 'n', 'i', 't', 'y'] (by decide)]
  rw [spelled, hfloat, integer?_eq_none h]
  split_ifs
  · exact ⟨_, rfl⟩
  · exact ⟨_, rfl⟩

/-! ### Words -/

/-- A word without quotes: no blanks around it, no bracket or quote at its front, no mark that ends a value in it; neither
    a keyword nor, without its underscores, a numeral. -/
structure Bare (w : List Char) : Prop where
  ne_nil : w ≠ []
  first : ∀ c ∈ w.head?, Text.isBlank c = false ∧ c ∉ ['[', '(', '\x7b', '"', '\'']
  last : ∀ c ∈ w.getLast?, Text.isBlank c = false
  unmarked : ∀ c ∈ w, isDelimiter c = false
  notKeyword : String.ofList w ∉ ["true", "True", "false", "False", "null", "None"]
  notNumeral : ¬IsNumeral (w.filter (· != '_'))

theorem bare_iff : Bare w ↔ w ≠ [] ∧
    w.head?.all (fun c => decide (Text.isBlank c = false ∧ c ∉ ['[', '(', '\x7b', '"', '\''])) = true ∧
    w.getLast?.all (fun c => decide (Text.isBlank c = false)) = true ∧ w.all (fun c => decide (isDelimiter c = false)) = true ∧
    String.ofList w ∉ ["true", "True", "false", "False", "null", "None"] ∧ ¬IsNumeral (w.filter (· != '_')) := by
  simp only [Option.all_eq_true, List.all_eq_true, decide_eq_true_eq]
  exact ⟨fun h => ⟨h.ne_nil, h.first, h.last, h.unmarked, h.notKeyword, h.notNumeral⟩,
    fun ⟨hne, hfirst, hlast, hmarks, hkeyword, hnumeral⟩ => ⟨hne, hfirst, hlast, hmarks, hkeyword, hnumeral⟩⟩

instance (w : List Char) : Decidable (Bare w) := decidable_of_iff' _ bare_iff

/-- A text that looks like a number: a sign or a digit begins a run that reaches up to the end, a blank, or a mark that
    ends a value. -/
def Numberlike (cs : List Char) : Prop :=
  ∃ sign run rest, cs = sign ++ (run ++ rest) ∧ Opens sign run ∧ Run run ∧ Stops rest

/-- The sign at the front of a text, if there is one. -/
def signOf (cs : List Char) : List Char := (cs.take 1).filter fun c => c == '-' || c == '+'

/-- Whether a text looks like a number is settled by the longest run behind its sign. -/
theorem numberlike_iff : Numberlike cs ↔
    Opens (signOf cs) (numberRun (cs.drop (signOf cs).length)).1 ∧ Stops (numberRun (cs.drop (signOf cs).length)).2 := by
  constructor
  · rintro ⟨sign, run, rest, rfl, hopens, hrun, hstops⟩
    rw [signOf, hopens.sign, List.drop_left, numberRun_append hrun hstops]
    exact ⟨hopens, hstops⟩
  · rintro ⟨hopens, hstops⟩
    obtain ⟨hsplit, hrun⟩ := numberRun_spec (cs.drop (signOf cs).length)
    have hsign : signOf cs ++ cs.drop (signOf cs).length = cs := by
      cases cs with
      | nil => rfl
      | cons c cs => by_cases hc : (c == '-' || c == '+') = true <;> simp [signOf, hc]
    exact ⟨signOf cs, _, _, by rw [hsplit, hsign], hopens, hrun, hstops⟩

instance (rest : List Char) : Decidable (Stops rest) :=
  decidable_of_iff (rest.head?.all fun c => Text.isBlank c || isDelimiter c) (Option.all_eq_true _ _)

instance (sign run : List Char) : Decidable (Opens sign run) :=
  decidable_of_iff (sign = ['-'] ∨ sign = ['+'] ∨ sign = [] ∧ run.head?.any Char.isDigit) (by simp only [Opens, Option.any_eq_true]; rfl)

instance (cs : List Char) : Decidable (Numberlike cs) := decidable_of_iff' _ numberlike_iff

theorem Numberlike.first (h : Numberlike cs) : ∃ c ∈ cs.head?, c = '-' ∨ c = '+' ∨ c.isDigit = true := by
  obtain ⟨sign, run, rest, rfl, rfl | rfl | ⟨rfl, c, hc, hdigit⟩, -⟩ := h
  · exact ⟨'-', rfl, .inl rfl⟩
  · exact ⟨'+', rfl, .inr (.inl rfl)⟩
  · obtain ⟨run, rfl⟩ := List.head?_eq_some_iff.mp hc
    exact ⟨c, rfl, .inr (.inr hdigit)⟩

/-- Neither a sign nor a run has a mark that ends a value. -/
theorem Opens.not_isDelimiter (hopens : Opens sign run) (hrun : Run run) (hc : c ∈ sign ++ run) : isDelimiter c = false := by
  obtain hsign | hc := List.mem_append.mp hc
  · obtain rfl | rfl | ⟨rfl, -⟩ := hopens
    · rw [List.mem_singleton.mp hsign]
      rfl
    · rw [List.mem_singleton.mp hsign]
      rfl
    · cases hsign
  · have hplain : (!isDelimiter c) = true := hrun.forall_mem (p := fun c => !isDelimiter c) rfl c hc
    simpa using hplain

/-- What ends a value does not make a word look like a number. -/
theorem Numberlike.of_append (hword : ∀ c ∈ w, isDelimiter c = false) (hrest : Ends rest) (h : Numberlike (w ++ rest)) :
    Numberlike w := by
  obtain ⟨sign, run, behind, hsplit, hopens, hrun, hstops⟩ := h
  rw [← List.append_assoc] at hsplit
  obtain ⟨more, hmore, hbehind⟩ | ⟨more, rfl, rfl⟩ := List.append_eq_append_iff.mp hsplit
  · -- No character of a sign or a run ends a value, so the number does not reach beyond the word.
    have hnil : more = [] := by
      cases more with
      | nil => rfl
      | cons c more =>
        have hmark : isDelimiter c = true := hrest c (by rw [hbehind]; rfl)
        rw [hopens.not_isDelimiter hrun (hmore ▸ List.mem_append_right w List.mem_cons_self)] at hmark
        cases hmark
    rw [hnil, List.append_nil] at hmore
    exact ⟨sign, run, [], by rw [List.append_nil, hmore], hopens, hrun, nofun⟩
  · refine ⟨sign, run, more, List.append_assoc .., hopens, hrun, fun c hc => hstops c ?_⟩
    rw [List.head?_append, Option.mem_def.mp hc]
    rfl

/-- A text that does not look like a number, for all that it begins as one, is taken as a word. -/
theorem takeNumber_word (hfirst : ∃ c ∈ cs.head?, c = '-' ∨ c = '+' ∨ c.isDigit = true) (h : ¬Numberlike cs) :
    takeNumber cs = (takeWord cs).map fun read => (.str read.1, read.2) := by
  have hopens : Opens (signOf cs) (numberRun (cs.drop (signOf cs).length)).1 := by
    obtain ⟨c, hc, hfirst⟩ := hfirst
    obtain ⟨cs, rfl⟩ := List.head?_eq_some_iff.mp hc
    obtain rfl | rfl | hdigit := hfirst
    · exact .inl rfl
    · exact .inr (.inl rfl)
    · have hsign : signOf (c :: cs) = [] := by simp [signOf, unsigned_of_isDigit hdigit]
      rw [hsign]
      exact .inr (.inr ⟨rfl, c, head?_numberRun hdigit cs, hdigit⟩)
  refine if_neg fun hends => h (numberlike_iff.mpr ⟨hopens, fun c hc => ?_⟩)
  rw [signOf] at hc
  split at hends
  next heq =>
    rw [heq] at hc
    cases hc
  next heq =>
    rw [heq] at hc
    exact Option.some.inj hc ▸ hends

/-! ### Words as items -/

section Bare

variable (hw : Bare w)

include hw

theorem Bare.begins : Begins w := by
  obtain ⟨c, more, rfl⟩ := List.exists_cons_of_ne_nil hw.ne_nil
  exact ⟨c, more, rfl, (hw.first c rfl).1, hw.unmarked c List.mem_cons_self⟩

theorem wordValue_of_bare : wordValue (String.ofList w) = .str (String.ofList w) := by
  have hkeyword := hw.notKeyword
  simp only [List.mem_cons, List.not_mem_nil, or_false, not_or] at hkeyword
  simp [wordValue, hkeyword]

/-- A word that does not look like a number is taken as it is. -/
theorem takeValue_bare (h : ¬Numberlike w) (hrest : Ends rest) (fuel : Nat) :
    takeValue (fuel + 1) (w ++ rest) = .ok (.str (String.ofList w), rest) := by
  have hword : takeWord (w ++ rest) = .ok (String.ofList w, rest) := takeWord_append hw.unmarked hw.last hw.ne_nil hrest
  have hlike : ¬Numberlike (w ++ rest) := fun hlike => h (hlike.of_append hw.unmarked hrest)
  have hvalue := wordValue_of_bare hw
  obtain ⟨c, more, rfl⟩ := List.exists_cons_of_ne_nil hw.ne_nil
  obtain ⟨hblank, hopen⟩ := hw.first c rfl
  rw [List.cons_append] at hword hlike ⊢
  by_cases hfirst : c = '-' ∨ c = '+' ∨ c.isDigit = true
  · rw [takeValue_number hfirst, takeNumber_word ⟨c, rfl, hfirst⟩ hlike, hword]
    rfl
  · rw [takeValue_word hblank hopen hfirst, hword, ← hvalue]
    rfl

/-- A run of the whole word spells no number. -/
theorem Bare.spelled_eq_error (hsplit : w = sign ++ run) (hopens : Opens sign run) (hrun : Run run) :
    ∃ e, spelled sign run = .error e := by
  have hsign : sign.filter (· != '_') = sign := by obtain rfl | rfl | ⟨rfl, -⟩ := hopens <;> rfl
  refine Literal.spelled_eq_error hopens hrun fun hnumeral => hw.notNumeral ?_
  rwa [hsplit, List.filter_append, hsign]

/-- Of a word that looks like a number, either nothing is taken, or a number with more of the word behind it. -/
theorem takeValue_numberlike (h : Numberlike w) (hrest : Ends rest) (fuel : Nat) :
    (∃ e, takeValue (fuel + 1) (w ++ rest) = .error e) ∨
      ∃ v behind d more, takeValue (fuel + 1) (w ++ rest) = .ok (v, behind) ∧ Text.trimStart behind = d :: more ∧ d ∈ w := by
  obtain ⟨c, hc, hfirst⟩ := h.first
  obtain ⟨sign, run, behind, hsplit, hopens, hrun, hstops⟩ := h
  have hread : takeValue (fuel + 1) (w ++ rest) = (spelled sign run).map fun v => (v, behind ++ rest) := by
    have hstops : Stops (behind ++ rest) := by
      cases behind with
      | nil => exact hrest.stops
      | cons => exact hstops
    rw [← takeNumber_append hopens hrun hstops, ← List.append_assoc run, ← List.append_assoc sign, ← hsplit]
    obtain ⟨more, rfl⟩ := List.head?_eq_some_iff.mp hc
    exact takeValue_number hfirst fuel (more ++ rest)
  rw [hread]
  cases hspelled : spelled sign run with
  | error e => exact .inl ⟨e, rfl⟩
  | ok v =>
    -- What is spelled is not the whole word, and the word does not end with a blank.
    have hne : behind ≠ [] := by
      rintro rfl
      obtain ⟨e, he⟩ := hw.spelled_eq_error (by rw [hsplit, List.append_nil]) hopens hrun
      cases hspelled.symm.trans he
    have hlast : ∀ c ∈ behind.getLast?, Text.isBlank c = false := fun c hc => hw.last c (by
      rw [hsplit, List.getLast?_append, List.getLast?_append, Option.mem_def.mp hc]
      rfl)
    obtain ⟨d, more, htrim, hd⟩ := Text.exists_trimStart hne hlast rest
    refine .inr ⟨v, behind ++ rest, d, more, rfl, htrim, ?_⟩
    rw [hsplit]
    exact List.mem_append_right _ (List.mem_append_right _ hd)

end Bare

/-! ### Words between brackets -/

theorem takeItems_error {e : LiteralError} (hclose : isDelimiter close = true) (hbegins : Begins cs)
    (h : takeValue fuel cs = .error e) : takeItems (fuel + 1) close cs = .error e := by
  rw [takeItems, hbegins.trimStart]
  simp only [if_neg (hbegins.head?_ne hclose), h]
  rfl

/-- Behind an item there is a comma or the closing bracket. -/
theorem takeItems_stuck (hclose : isDelimiter close = true) (hbegins : Begins cs) (h : takeValue fuel cs = .ok (v, rest))
    (hrest : Text.trimStart rest = c :: tail) (hc : isDelimiter c = false) :
    takeItems (fuel + 1) close cs = .error (.expected close) := by
  have hnext : c ≠ ',' ∧ close ≠ c := by
    constructor
    · rintro rfl
      cases hc
    · rintro rfl
      exact Bool.false_ne_true (hc.symm.trans hclose)
  rw [takeItems, hbegins.trimStart]
  simp [hbegins.head?_ne hclose, h, hrest, hnext, expect, bind, Except.bind]

theorem read_bracket (cs : List Char) : read ('[' :: cs) = (takeItems (3 * cs.length + 3) ']' cs).bind fun read =>
    if (Text.trimStart read.2).isEmpty then .ok (.list read.1) else .error .trailingInput := by
  have hfuel : 3 * ('[' :: cs).length + 1 = 3 * cs.length + 3 + 1 := by rw [List.length_cons]; omega
  rw [read, hfuel, takeValue_bracket]
  cases takeItems (3 * cs.length + 3) ']' cs <;> rfl

/-- A word without quotes between brackets is the one item of a list, as it is written, unless it looks like a number: that
    is refused. -/
theorem read_bare (hw : Bare w) :
    (¬Numberlike w → read ('[' :: (w ++ [']'])) = .ok (.list [.str (String.ofList w)])) ∧
      (Numberlike w → ∃ e, read ('[' :: (w ++ [']'])) = .error e) := by
  have hclose : isDelimiter ']' = true := rfl
  have hbegins : Begins (w ++ [']']) := hw.begins.append _
  have hrest : Ends [']'] := ends_of_mark hclose
  rw [read_bracket]
  constructor
  · intro h
    rw [takeItems_last hclose hbegins (by decide) (takeValue_bare hw h hrest _)]
    rfl
  · intro h
    obtain ⟨e, herror⟩ | ⟨v, behind, d, more, hread, htrim, hd⟩ := takeValue_numberlike hw h hrest (3 * (w ++ [']']).length + 1)
    · exact ⟨e, by rw [takeItems_error hclose hbegins herror]; rfl⟩
    · exact ⟨.expected ']', by rw [takeItems_stuck hclose hbegins hread htrim (hw.unmarked d hd)]; rfl⟩

/-- A sign, a point and an exponent do not make a number of a word that goes on behind them. -/
theorem read_word_behind_run : let w := "-1.5e+x y".toList
    Bare w ∧ ¬Numberlike w ∧ read ('[' :: (w ++ [']'])) = .ok (.list [.str (String.ofList w)]) := by
  intro w
  have hw : Bare w := by decide
  have hlike : ¬Numberlike w := by decide
  exact ⟨hw, hlike, (read_bare hw).1 hlike⟩

/-- Two points make a word look like a number, and so does a blank behind a digit; neither word is a numeral. -/
theorem read_points_refused :
    (Bare "1.2.3".toList ∧ read "[1.2.3]".toList = .error (.badFloat "1.2.3")) ∧
      Bare "1 a".toList ∧ read "[1 a]".toList = .error (.expected ']') := by
  have hpoints : Bare "1.2.3".toList := by decide
  have hblank : Bare "1 a".toList := by decide
  exact ⟨⟨hpoints, rfl⟩, hblank, rfl⟩

end Conform.Literal

import Conform.Json.Reader
import Conform.Json.Writer
import Conform.Proofs.Numeric.Written
import Conform.Proofs.Uuid

/-! A document that holds integers of 64 bits and no other numbers is read as it is written, whatever stands behind it.
    The escapes of a string are undone one by one; items and members are taken in turn, each up to its separator. -/

namespace Conform.Json

variable {c : Char} {rest : List Char} {fuel depth : Nat}

/-! ### Strings -/

/-- One more character in front of what was taken. -/
def withChar (c : Char) (read : List Char × List Char) : List Char × List Char := (c :: read.1, read.2)

theorem takeString?_bare (hquote : c ≠ '"') (hescape : c ≠ '\\') (hcontrol : ¬c.toNat < 0x20) :
    takeString? (c :: rest) = (takeString? rest).map (withChar c) := by
  rw [takeString?.eq_def]
  split
  case h_5 heq =>
    cases heq
    rw [if_neg (by simp [hescape, hcontrol])]
    cases takeString? rest <;> rfl
  all_goals simp_all

theorem takeString?_escaped {letter : Char} (h : escapes.lookup letter = some c) :
    takeString? ('\\' :: letter :: rest) = (takeString? rest).map (withChar c) := by
  have hletter : letter ≠ 'u' := by
    rintro rfl
    cases h
  rw [takeString?.eq_def]
  split
  case h_4 heq =>
    cases heq
    rw [h]
    cases takeString? rest <;> rfl
  all_goals grind

/-- A character by its number, which is not that of a surrogate. -/
theorem takeString?_coded {i j k l : Char} {n : Nat} (h : hex4? i j k l = some n) (hn : ¬(0xd800 ≤ n ∧ n < 0xe000))
    (rest : List Char) :
    takeString? ('\\' :: 'u' :: i :: j :: k :: l :: rest) = (takeString? rest).map (withChar (Char.ofNat n)) := by
  rw [takeString?.eq_def]
  split
  case h_2 heq =>
    cases heq
    rw [h]
    simp only [Option.bind_eq_bind, Option.bind_some]
    rw [if_neg (by omega), if_neg (by omega)]
    cases takeString? _ <;> rfl
  case h_3 heq =>
    cases heq
    rw [h]
    simp only [Option.bind_eq_bind, Option.bind_some]
    rw [if_neg (by omega)]
    cases takeString? rest <;> rfl
  all_goals grind

theorem hex4?_control (h : c.toNat < 0x20) :
    hex4? '0' '0' (Nat.digitChar (c.toNat / 16)) (Nat.digitChar (c.toNat % 16)) = some c.toNat := by
  have hzero : Digits.hexValue? '0' = some 0 := rfl
  rw [hex4?, Uuid.hexValue?_digitChar (by omega), Uuid.hexValue?_digitChar (by omega), hzero]
  exact congrArg some (by omega)

theorem takeString?_escape (c : Char) (rest : List Char) :
    takeString? (escape c ++ rest) = (takeString? rest).map (withChar c) := by
  unfold escape
  split_ifs with hquote hslash hb hf hn hr ht hcontrol
  · exact takeString?_escaped (by rw [hquote]; rfl)
  · exact takeString?_escaped (by rw [hslash]; rfl)
  · exact takeString?_escaped (by rw [hb]; rfl)
  · exact takeString?_escaped (by rw [hf]; rfl)
  · exact takeString?_escaped (by rw [hn]; rfl)
  · exact takeString?_escaped (by rw [hr]; rfl)
  · exact takeString?_escaped (by rw [ht]; rfl)
  · have hcoded := takeString?_coded (hex4?_control hcontrol) (by omega) rest
    rwa [Char.ofNat_toNat] at hcoded
  · exact takeString?_bare hquote hslash hcontrol

/-- Between its quotes a string is taken as it is written. -/
theorem takeString?_flatMap (cs rest : List Char) : takeString? (cs.flatMap escape ++ '"' :: rest) = some (cs, rest) := by
  induction cs with
  | nil => rw [List.flatMap_nil, List.nil_append, takeString?]
  | cons c cs ih => rw [List.flatMap_cons, List.append_assoc, takeString?_escape, ih]; rfl

/-! ### Numbers -/

/-- What may stand behind a value: nothing, or a mark that ends it. -/
def Ends (rest : List Char) : Prop := ∀ c ∈ rest.head?, c = ',' ∨ c = ']' ∨ c = '\x7d'

/-- Digits are gathered to the end if the number that they spell fits. -/
theorem gather_of_lt {ds : List Char} {n : Nat} (h : Nat.ofDigitChars 10 ds n < twoTo 64) :
    gather n ds = (Nat.ofDigitChars 10 ds n, ds.length) := by
  induction ds generalizing n with
  | nil => rfl
  | cons c ds ih =>
    have hnext : 10 * n + Digits.value c < twoTo 64 := (Digits.le_ofDigitChars _ ds).trans_lt h
    have hread : gather (10 * n + Digits.value c) ds = (Nat.ofDigitChars 10 (c :: ds) n, ds.length) := ih h
    rw [gather, if_pos hnext, hread, List.length_cons]

/-- No zero stands before the other digits of a number. -/
theorem head?_ofNat_ne {n : Nat} (h : 1 < (Digits.ofNat n).length) : (Digits.ofNat n).head? ≠ some '0' := by
  intro hzero
  obtain ⟨ds, hds⟩ := List.head?_eq_some_iff.mp hzero
  have hlength : 0 < ds.length := by
    rw [hds, List.length_cons] at h
    omega
  have hdigits : ∀ c ∈ ds, c.isDigit = true := fun c hc =>
    Digits.isDigit_of_mem_ofNat (n := n) (hds ▸ List.mem_cons_of_mem _ hc)
  have hvalue : n = Digits.toNat ds := by
    have hzeroValue : Digits.value '0' = 0 := rfl
    rw [← Digits.toNat_ofNat n, hds, Digits.toNat_cons, hzeroValue, Nat.mul_zero, Nat.zero_add]
  have hshort : (Digits.ofNat n).length ≤ ds.length := Digits.length_ofNat_le hlength (hvalue ▸ Digits.toNat_lt hdigits)
  rw [hds, List.length_cons] at hshort
  omega

theorem takeUnsigned?_ofNat {n : Nat} {negative : Bool} (hn : n < twoTo 64) (hnegative : negative = true → 0 < n ∧ n ≤ twoTo 63)
    (hrest : Ends rest) :
    takeUnsigned? negative (Digits.ofNat n ++ rest) = some (.integer (if negative then -n else n), rest) := by
  have hdigit : ∀ c ∈ rest.head?, c.isDigit = false := fun c hc => by
    obtain rfl | rfl | rfl := hrest c hc <;> rfl
  have hmark : ∀ c ∈ rest.head?, c ≠ '.' ∧ c ≠ 'e' ∧ c ≠ 'E' := fun c hc => by
    obtain rfl | rfl | rfl := hrest c hc <;> decide
  have hspan : Digits.span (Digits.ofNat n ++ rest) = (Digits.ofNat n, rest) :=
    Digits.span_append (fun _ => Digits.isDigit_of_mem_ofNat) hdigit
  -- Digits of a number have no leading zero, so the strict grammar takes them.
  have hleading : ((Digits.ofNat n).isEmpty ||
      (decide ((Digits.ofNat n).length > 1) && (Digits.ofNat n).head? == some '0')) = false := by
    rw [List.isEmpty_eq_false_iff.mpr Digits.ofNat_ne_nil, Bool.false_or]
    by_cases h : 1 < (Digits.ofNat n).length
    · simp [head?_ofNat_ne h]
    · simp [h]
  have hgather : gather 0 (Digits.ofNat n) = (n, (Digits.ofNat n).length) := by
    have hvalue : Nat.ofDigitChars 10 (Digits.ofNat n) 0 = n := Digits.toNat_ofNat n
    rw [gather_of_lt (hvalue.symm ▸ hn), hvalue]
  have hmarked : (rest.head? == some 'e' || rest.head? == some 'E') = false := by
    cases rest with
    | nil => rfl
    | cons c rest => simp [hmark c rfl]
  unfold takeUnsigned?
  rw [hspan]
  simp only [hleading, hgather, Bool.false_eq_true, if_false, hmarked, Int.sub_self, bne_self_eq_false, Bool.or_self]
  split
  next => exact absurd rfl (hmark '.' rfl).1
  next =>
    cases negative with
    | false => rfl
    | true =>
      obtain ⟨hpos, hle⟩ := hnegative rfl
      rw [if_pos rfl, if_neg (by omega), if_pos rfl]

theorem takeNumber?_of_head {cs : List Char} (h : ∀ c ∈ cs.head?, c.isDigit = true) : takeNumber? cs = takeUnsigned? false cs := by
  unfold takeNumber?
  split
  next => exact absurd (h '-' rfl) (by decide)
  next => rfl

/-- An integer of 64 bits is taken as it is written. -/
theorem takeNumber?_integerChars (i : Int64) (hrest : Ends rest) :
    takeNumber? (integerChars i.toInt ++ rest) = some (.integer i.toInt, rest) := by
  have hlow : -9223372036854775808 ≤ i.toInt := i.minValue_le_toInt
  have hhigh : i.toInt ≤ 9223372036854775807 := i.toInt_le
  have hpower : twoTo 64 = 18446744073709551616 ∧ twoTo 63 = 9223372036854775808 := ⟨rfl, rfl⟩
  by_cases hneg : i.toInt < 0
  · rw [integerChars, if_pos hneg, List.cons_append, takeNumber?,
      takeUnsigned?_ofNat (by omega) (fun _ => by omega) hrest, if_pos rfl]
    exact congrArg (fun m => some (Json.integer m, rest)) (by omega)
  · have hunsigned : takeNumber? (Digits.ofNat i.toInt.natAbs ++ rest) =
        takeUnsigned? false (Digits.ofNat i.toInt.natAbs ++ rest) := by
      refine takeNumber?_of_head fun c hc => ?_
      rw [List.head?_append_of_ne_nil _ Digits.ofNat_ne_nil] at hc
      exact Digits.isDigit_of_mem_ofNat (List.mem_of_head? hc)
    rw [integerChars, if_neg hneg, hunsigned,
      takeUnsigned?_ofNat (by omega) (fun h => absurd h Bool.false_ne_true) hrest, if_neg Bool.false_ne_true]
    exact congrArg (fun m => some (Json.integer m, rest)) (by omega)

/-! ### Values -/

/-- Documents without floats, containers nested at most so deep, the members of an object in the order of their keys. -/
inductive Legible : Nat → Json → Prop
  | null (depth : Nat) : Legible depth .null
  | bool (depth : Nat) (b : Bool) : Legible depth (.bool b)
  | integer (depth : Nat) (i : Int64) : Legible depth (.integer i.toInt)
  | string (depth : Nat) (s : String) : Legible depth (.string s)
  | array {depth : Nat} {items : List Json} (hitems : ∀ j ∈ items, Legible depth j) : Legible (depth + 1) (.array items)
  | object {depth : Nat} {members : List (String × Json)} (hsorted : sortMembers members = members)
      (hmembers : ∀ m ∈ members, Legible depth m.2) : Legible (depth + 1) (.object members)

/-- A document is taken from the front of a text that goes on with the end of a value. -/
def Taken (depth : Nat) (j : Json) : Prop :=
  ∀ (fuel : Nat) (rest : List Char), 2 * j.chars.length ≤ fuel → Ends rest →
    takeValue? fuel depth (j.chars ++ rest) = some (j, rest)

theorem skipBlanks_cons (h : isBlank c = false) : skipBlanks (c :: rest) = c :: rest :=
  List.dropWhile_cons_of_neg (by simp [h])

theorem isBlank_of_isDigit (h : c.isDigit = true) : isBlank c = false :=
  Bool.not_eq_true' _ ▸ Digits.forall_isDigit (p := fun c => !isBlank c) rfl h

/-- The characters that a value begins with. -/
theorem chars_cons {j : Json} (h : Legible depth j) :
    ∃ c cs, j.chars = c :: cs ∧ isBlank c = false ∧ c ≠ ']' := by
  cases h with
  | null => exact ⟨'n', _, rfl, rfl, by decide⟩
  | bool _ b => cases b <;> exact ⟨_, _, rfl, rfl, by decide⟩
  | integer _ i =>
    rw [chars_integer, integerChars]
    split
    · exact ⟨'-', _, rfl, rfl, by decide⟩
    · obtain ⟨c, cs, hcs⟩ := List.exists_cons_of_ne_nil (Digits.ofNat_ne_nil (n := i.toInt.natAbs))
      have hdigit : c.isDigit = true := Digits.isDigit_of_mem_ofNat (hcs ▸ List.mem_cons_self)
      refine ⟨c, cs, hcs, isBlank_of_isDigit hdigit, ?_⟩
      rintro rfl
      cases hdigit
  | string _ s => exact ⟨'"', _, rfl, rfl, by decide⟩
  | array => exact ⟨'[', _, rfl, rfl, by decide⟩
  | object => exact ⟨'\x7b', _, rfl, rfl, by decide⟩

/-- A document has a character at least, and so there is fuel for it. -/
theorem fuel_pos {j : Json} (h : Legible depth j) (hfuel : 2 * j.chars.length ≤ fuel) : 0 < fuel := by
  obtain ⟨c, cs, hcs, -⟩ := chars_cons h
  rw [hcs, List.length_cons] at hfuel
  omega

/-- A value that begins as a number does is taken as one. -/
theorem takeValue?_number (h : c = '-' ∨ c.isDigit = true) : takeValue? (fuel + 1) depth (c :: rest) = takeNumber? (c :: rest) := by
  have hblank : isBlank c = false := by
    obtain rfl | hdigit := h
    · rfl
    · exact isBlank_of_isDigit hdigit
  rw [takeValue?, skipBlanks_cons hblank]
  split <;> first | rfl | simp_all

theorem takeValue?_integer (i : Int64) (hfuel : 0 < fuel) (hrest : Ends rest) :
    takeValue? fuel depth (integerChars i.toInt ++ rest) = some (.integer i.toInt, rest) := by
  obtain ⟨fuel, rfl⟩ := Nat.exists_eq_add_one.mpr hfuel
  rw [← takeNumber?_integerChars i hrest, integerChars]
  split
  · exact takeValue?_number (.inl rfl)
  · obtain ⟨c, cs, hcs⟩ := List.exists_cons_of_ne_nil (Digits.ofNat_ne_nil (n := i.toInt.natAbs))
    rw [hcs]
    exact takeValue?_number (.inr (Digits.isDigit_of_mem_ofNat (hcs ▸ List.mem_cons_self)))

theorem takeValue?_string (s : String) (hfuel : 0 < fuel) :
    takeValue? fuel depth (stringChars s ++ rest) = some (.string s, rest) := by
  obtain ⟨fuel, rfl⟩ := Nat.exists_eq_add_one.mpr hfuel
  have hopen : stringChars s ++ rest = '"' :: (s.toList.flatMap escape ++ '"' :: rest) := by simp [stringChars]
  rw [hopen, takeValue?, skipBlanks_cons rfl]
  simp [takeString?_flatMap]

/-! ### Containers -/

theorem ends_of_mark (h : c = ',' ∨ c = ']' ∨ c = '\x7d') : Ends (c :: rest) := fun _ hc => Option.some.inj hc ▸ h

/-- Items are taken up to the closing bracket. -/
theorem takeItems?_itemChars {items : List Json} (hitems : ∀ j ∈ items, Taken depth j) (hne : items ≠ [])
    (hfuel : 2 * (itemChars items).length < fuel) (rest : List Char) :
    takeItems? fuel depth (itemChars items ++ ']' :: rest) = some (items, rest) := by
  induction items generalizing fuel with
  | nil => exact absurd rfl hne
  | cons item more ih =>
    obtain ⟨hitem, hmore⟩ := List.forall_mem_cons.mp hitems
    obtain ⟨fuel, rfl⟩ := Nat.exists_eq_add_one.mpr (Nat.zero_lt_of_lt hfuel)
    by_cases hlast : more = []
    · subst hlast
      rw [itemChars] at hfuel ⊢
      rw [takeItems?, hitem _ _ (by omega) (ends_of_mark (.inr (.inl rfl)))]
      rfl
    · rw [itemChars_cons item hlast, List.length_append, List.length_cons] at hfuel
      have hrest := ih hmore hlast (by omega : 2 * (itemChars more).length < fuel)
      rw [itemChars_cons item hlast, List.append_assoc, List.cons_append, takeItems?,
        hitem _ _ (by omega) (ends_of_mark (.inl rfl))]
      simp (disch := decide) only [Option.bind_eq_bind, Option.bind_some, skipBlanks_cons, hrest]
      rfl

/-- Members are taken up to the closing brace, each by its key. -/
theorem takeMembers?_memberChars {members : List (String × Json)} (hmembers : ∀ m ∈ members, Taken depth m.2)
    (hne : members ≠ []) (hfuel : 2 * (memberChars members).length < fuel) (rest : List Char) :
    takeMembers? fuel depth (memberChars members ++ '\x7d' :: rest) = some (members, rest) := by
  have hkey (key : String) (tail : List Char) :
      stringChars key ++ tail = '"' :: (key.toList.flatMap escape ++ '"' :: tail) := by
    simp [stringChars]
  induction members generalizing fuel with
  | nil => exact absurd rfl hne
  | cons member more ih =>
    obtain ⟨key, value⟩ := member
    obtain ⟨hmember, hmore⟩ : Taken depth value ∧ ∀ m ∈ more, Taken depth m.2 := List.forall_mem_cons.mp hmembers
    obtain ⟨fuel, rfl⟩ := Nat.exists_eq_add_one.mpr (Nat.zero_lt_of_lt hfuel)
    by_cases hlast : more = []
    · subst hlast
      rw [memberChars, List.length_append, List.length_cons] at hfuel
      have hvalue := hmember fuel ('\x7d' :: rest) (by omega) (ends_of_mark (.inr (.inr rfl)))
      rw [memberChars, List.append_assoc, List.cons_append, hkey, takeMembers?]
      simp (disch := decide) only [skipBlanks_cons, takeString?_flatMap, Option.bind_eq_bind, Option.bind_some, hvalue]
      simp
    · rw [memberChars_cons key value hlast, List.length_append, List.length_append, List.length_cons, List.length_cons] at hfuel
      have hvalue := hmember fuel (',' :: (memberChars more ++ '\x7d' :: rest)) (by omega)
        (ends_of_mark (.inl rfl))
      have hrest := ih hmore hlast (by omega : 2 * (memberChars more).length < fuel)
      rw [memberChars_cons key value hlast, List.append_assoc, List.append_assoc, List.cons_append, List.cons_append, hkey,
        takeMembers?]
      simp (disch := decide) only [skipBlanks_cons, takeString?_flatMap, Option.bind_eq_bind, Option.bind_some, hvalue, hrest]
      simp

theorem itemChars_ne_nil {items : List Json} (h : ∀ j ∈ items, Legible depth j) (hne : items ≠ []) :
    ∃ c cs, itemChars items = c :: cs ∧ isBlank c = false ∧ c ≠ ']' := by
  obtain ⟨item, more, rfl⟩ := List.exists_cons_of_ne_nil hne
  obtain ⟨c, cs, hcs, hblank, hclose⟩ := chars_cons (h item List.mem_cons_self)
  by_cases hlast : more = []
  · exact ⟨c, cs, by rw [hlast, itemChars, hcs], hblank, hclose⟩
  · exact ⟨c, _, by rw [itemChars_cons item hlast, hcs, List.cons_append], hblank, hclose⟩

theorem memberChars_ne_nil {members : List (String × Json)} (hne : members ≠ []) :
    ∃ cs, memberChars members = '"' :: cs := by
  obtain ⟨⟨key, value⟩, more, rfl⟩ := List.exists_cons_of_ne_nil hne
  by_cases hlast : more = []
  · exact ⟨_, by rw [hlast, memberChars]; rfl⟩
  · exact ⟨_, by rw [memberChars_cons key value hlast]; rfl⟩

theorem taken_array {items : List Json} (hlegible : ∀ j ∈ items, Legible depth j) (hitems : ∀ j ∈ items, Taken depth j) :
    Taken (depth + 1) (.array items) := by
  intro fuel rest hfuel _
  rw [chars, List.length_append, List.length_cons, List.length_singleton] at hfuel
  obtain ⟨fuel, rfl⟩ := Nat.exists_eq_add_one.mpr (by omega : 0 < fuel)
  by_cases hnil : items = []
  · subst hnil
    rw [chars, itemChars, takeValue?]
    rfl
  · obtain ⟨c, cs, hcs, hblank, hclose⟩ := itemChars_ne_nil hlegible hnil
    have hread := takeItems?_itemChars hitems hnil (by omega : 2 * (itemChars items).length < fuel) rest
    rw [hcs, List.cons_append] at hread
    rw [chars, List.append_assoc, hcs, List.singleton_append, List.cons_append, List.cons_append, takeValue?]
    simp (disch := decide) only [skipBlanks_cons, skipBlanks_cons hblank, Nat.add_one_ne_zero, if_false, Nat.add_sub_cancel]
    split
    next heq => exact absurd (List.cons.inj heq).1 hclose
    next => rw [hread]; rfl

theorem taken_object {members : List (String × Json)} (hsorted : sortMembers members = members)
    (hmembers : ∀ m ∈ members, Taken depth m.2) : Taken (depth + 1) (.object members) := by
  intro fuel rest hfuel _
  rw [chars, List.length_append, List.length_cons, List.length_singleton] at hfuel
  obtain ⟨fuel, rfl⟩ := Nat.exists_eq_add_one.mpr (by omega : 0 < fuel)
  by_cases hnil : members = []
  · subst hnil
    rw [chars, memberChars, takeValue?]
    rfl
  · obtain ⟨cs, hcs⟩ := memberChars_ne_nil hnil
    have hread := takeMembers?_memberChars hmembers hnil (by omega : 2 * (memberChars members).length < fuel) rest
    rw [hcs, List.cons_append] at hread
    rw [chars, List.append_assoc, hcs, List.singleton_append, List.cons_append, List.cons_append, takeValue?]
    simp (disch := decide) only [skipBlanks_cons, Nat.add_one_ne_zero, if_false, Nat.add_sub_cancel]
    split
    next heq => exact absurd (List.cons.inj heq).1 (by decide)
    next =>
      rw [hread]
      exact congrArg (fun sorted => some (Json.object sorted, rest)) hsorted

/-! ### Documents -/

theorem taken_of_legible {j : Json} (h : Legible depth j) : Taken depth j := by
  induction h with
  | null depth =>
    intro fuel rest hfuel _
    obtain ⟨fuel, rfl⟩ := Nat.exists_eq_add_one.mpr (fuel_pos (.null depth) hfuel)
    rw [chars, takeValue?]
    rfl
  | bool depth b =>
    intro fuel rest hfuel _
    obtain ⟨fuel, rfl⟩ := Nat.exists_eq_add_one.mpr (fuel_pos (.bool depth b) hfuel)
    cases b <;> rw [chars, takeValue?] <;> rfl
  | integer depth i => exact fun fuel rest hfuel hrest => takeValue?_integer i (fuel_pos (.integer depth i) hfuel) hrest
  | string depth s => exact fun fuel rest hfuel _ => takeValue?_string s (fuel_pos (.string depth s) hfuel)
  | array hitems ih => exact taken_array hitems ih
  | object hsorted _ ih => exact taken_object hsorted ih

/-- A document is read as it is written. -/
theorem ofChars?_chars {j : Json} (h : Legible 127 j) : ofChars? j.chars = some j := by
  have hread := taken_of_legible h (2 * j.chars.length + 1) [] (by omega) nofun
  rw [List.append_nil] at hread
  rw [ofChars?, readWithin?, hread]
  rfl

end Conform.Json

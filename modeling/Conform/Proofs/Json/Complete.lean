import Conform.Proofs.Json.Grammar
import Conform.Proofs.Json.ReadBack
import Mathlib.Data.List.DropRight

/-! Every document is read for what it says: between its quotes a string is decoded, a numeral counts for itself, whatever
    stands behind it, and items and members are taken in turn. Nothing but the depth of a document, a code that is half of
    a pair, and a number beyond the range make the reader give up. -/

namespace Conform.Json

variable {c : Char} {cs b rest : List Char} {fuel depth : Nat}

/-! ### Strings -/

/-- The characters that the pieces of a string stand for. Two codes in a row can be the halves of one character. -/
def decoded? : List Piece → Option (List Char)
  | [] => some []
  | .plain c _ :: ps => (decoded? ps).map (c :: ·)
  | .short _ c _ :: ps => (decoded? ps).map (c :: ·)
  | .coded _ _ _ _ n _ :: ps =>
    if 0xd800 ≤ n ∧ n < 0xe000 then
      match ps with
      | .coded _ _ _ _ m _ :: ps =>
        if n < 0xdc00 ∧ 0xdc00 ≤ m ∧ m < 0xe000 then
          (decoded? ps).map (Char.ofNat (0x10000 + (n - 0xd800) * 0x400 + (m - 0xdc00)) :: ·)
        else none
      | _ => none
    else (decoded? ps).map (Char.ofNat n :: ·)

theorem takeString?_pair {i j k l e f g h : Char} {n m : Nat} (hn : hex4? i j k l = some n) (hm : hex4? e f g h = some m)
    (hpart : 0xd800 ≤ n ∧ n < 0xe000) (rest : List Char) :
    takeString? ('\\' :: 'u' :: i :: j :: k :: l :: '\\' :: 'u' :: e :: f :: g :: h :: rest) =
      if n < 0xdc00 ∧ 0xdc00 ≤ m ∧ m < 0xe000 then
        (takeString? rest).map (withChar (Char.ofNat (0x10000 + (n - 0xd800) * 0x400 + (m - 0xdc00))))
      else none := by
  rw [takeString?]
  simp only [hn, hm, Option.bind_eq_bind, Option.bind_some]
  by_cases hhigh : n < 0xdc00
  · rw [if_pos ⟨hpart.1, hhigh⟩]
    by_cases hlow : 0xdc00 ≤ m ∧ m < 0xe000
    · rw [if_pos hlow, if_pos ⟨hhigh, hlow⟩]
      cases takeString? rest <;> rfl
    · rw [if_neg hlow, if_neg fun h => hlow h.2]
  · rw [if_neg fun h => hhigh h.2, if_pos ⟨by omega, hpart.2⟩, if_neg fun h => hhigh h.1]

theorem takeString?_lone {i j k l : Char} {n : Nat} (hn : hex4? i j k l = some n) (hpart : 0xd800 ≤ n ∧ n < 0xe000)
    (hcs : ∀ more, cs ≠ '\\' :: 'u' :: more) : takeString? ('\\' :: 'u' :: i :: j :: k :: l :: cs) = none := by
  rw [takeString?.eq_def]
  split
  case h_2 heq => 
    cases heq
    exact absurd rfl (hcs _)
  case h_3 heq =>
    cases heq
    simp only [hn, Option.bind_eq_bind, Option.bind_some, if_pos hpart]
  all_goals grind

/-- A backslash before a `u` begins a code. -/
theorem pieces_ne {ps : List Piece} (h : ∀ i j k l n hn more, ps ≠ .coded i j k l n hn :: more) (rest more : List Char) :
    ps.flatMap Piece.chars ++ '"' :: rest ≠ '\\' :: 'u' :: more := by
  cases ps with
  | nil => exact fun heq => absurd (List.cons.inj heq).1 (by decide)
  | cons p ps =>
    rw [List.flatMap_cons, List.append_assoc]
    cases p with
    | plain c hc => exact fun heq => hc.2.1 (List.cons.inj heq).1
    | short letter c hletter =>
      intro heq
      obtain rfl : letter = 'u' := (List.cons.inj (List.cons.inj heq).2).1
      cases hletter
    | coded i j k l n hn => exact absurd rfl (h i j k l n hn ps)

/-- Up to its closing quote a string is decoded. -/
theorem takeString?_pieces (ps : List Piece) (rest : List Char) :
    takeString? (ps.flatMap Piece.chars ++ '"' :: rest) = (decoded? ps).map fun s => (s, rest) := by
  have hcons (p : Piece) (ps : List Piece) :
      (p :: ps).flatMap Piece.chars ++ '"' :: rest = p.chars ++ (ps.flatMap Piece.chars ++ '"' :: rest) := by
    rw [List.flatMap_cons, List.append_assoc]
  fun_induction decoded? ps with
  | case1 => rw [List.flatMap_nil, List.nil_append, takeString?]; rfl
  | case2 c h ps ih =>
    rw [hcons, Piece.chars, List.singleton_append, takeString?_bare h.1 h.2.1 (by omega), ih, Option.map_map, Option.map_map]
    rfl
  | case3 letter c h ps ih =>
    rw [hcons, Piece.chars, List.cons_append, List.singleton_append, takeString?_escaped h, ih, Option.map_map, Option.map_map]
    rfl
  | case4 i j k l n hn hpart e f g h m hm ps hpair ih =>
    rw [hcons, hcons, Piece.chars, Piece.chars]
    simp only [List.cons_append, List.nil_append]
    rw [takeString?_pair hn hm hpart, if_pos hpair, ih, Option.map_map, Option.map_map]
    rfl
  | case5 i j k l n hn hpart e f g h m hm ps hpair =>
    rw [hcons, hcons, Piece.chars, Piece.chars]
    simp only [List.cons_append, List.nil_append]
    rw [takeString?_pair hn hm hpart, if_neg hpair]
    rfl
  | case6 i j k l n hn ps hpart halone =>
    rw [hcons, Piece.chars]
    simp only [List.cons_append, List.nil_append]
    exact takeString?_lone hn hpart (pieces_ne halone rest)
  | case7 i j k l n hn ps hwhole ih =>
    rw [hcons, Piece.chars]
    simp only [List.cons_append, List.nil_append]
    rw [takeString?_coded hn hwhole, ih, Option.map_map, Option.map_map]
    rfl

/-! ### Numbers -/

/-- What does not go on with a number. -/
def Follows (rest : List Char) : Prop := ∀ c ∈ rest.head?, c.isDigit = false ∧ c ∉ ['.', 'e', 'E']

theorem follows_nil : Follows [] := nofun

theorem span_follows {ds : List Char} (hds : ∀ c ∈ ds, c.isDigit = true) (hrest : Follows rest) :
    Digits.span (ds ++ rest) = (ds, rest) :=
  Digits.span_append hds fun c hc => (hrest c hc).1

/-- How an exponent counts. -/
def exponentOf (x : Conform.Exponent) : Exponent :=
  if x.size < twoTo 31 then .exact (if x.sign.negative then -x.size else x.size) else .beyond x.sign.negative

theorem takeExponent?_append {x : Conform.Exponent} (hne : x.digits.chars ≠ []) (hrest : Follows rest) :
    takeExponent? (x.sign.chars ++ (x.digits.chars ++ rest)) = some (exponentOf x, rest) := by
  have hsigned : Binary64.signed (x.sign.chars ++ (x.digits.chars ++ rest)) = (x.sign.negative, x.digits.chars ++ rest) := by
    refine Binary64.signed_of_sign _ fun c hc => ?_
    rw [List.head?_append_of_ne_nil _ hne] at hc
    exact unsigned_of_isDigit (x.digits.isDigit c (List.mem_of_head? hc))
  have hempty : x.digits.chars.isEmpty = false := List.isEmpty_eq_false_iff.mpr hne
  rw [takeExponent?, hsigned]
  by_cases hsize : Digits.toNat x.digits.chars < twoTo 31 <;>
    simp [span_follows x.digits.isDigit hrest, hempty, exponentOf, Conform.Exponent.size, hsize]

section Number

variable (n : Number)

theorem finishFloat?_tail (hrest : Follows rest) (negative : Bool) (significand : Nat) (e : Int) :
    finishFloat? negative significand e (n.tail ++ rest) =
      (finishFloat? negative significand e n.tail).map fun read => (read.1, rest) := by
  rw [Numeral.tail]
  cases hexponent : n.exponent with
  | none =>
    rw [Option.map_none, Option.getD_none, List.nil_append]
    cases rest with
    | nil =>
      rw [finishFloat?]
      cases floatOf? negative significand e <;> rfl
    | cons c rest =>
      have hmark : ¬(c = 'e' ∨ c = 'E') := by
        have hc := (hrest c rfl).2
        simp only [List.mem_cons, List.not_mem_nil, or_false, not_or] at hc
        exact not_or.mpr hc.2
      rw [finishFloat?, if_neg hmark, finishFloat?]
      cases floatOf? negative significand e <;> rfl
  | some x =>
    have hne : x.digits.chars ≠ [] := n.exponent_ne x hexponent
    have halone := takeExponent?_append hne follows_nil
    rw [List.append_nil] at halone
    rw [Option.map_some, Option.getD_some, Exponent.chars, List.cons_append, List.append_assoc, finishFloat?, finishFloat?,
      if_pos x.isMark, if_pos x.isMark, takeExponent?_append hne hrest, halone]
    cases exponentOf x with
    | exact more =>
      simp only [Option.bind_eq_bind, Option.bind_some]
      cases floatOf? negative significand (e + more) <;> rfl
    | beyond small =>
      simp only [Option.bind_eq_bind, Option.bind_some]
      split <;> rfl

theorem isDigit_head?_tail (hrest : Follows rest) : ∀ c ∈ (n.tail ++ rest).head?, c.isDigit = false := by
  intro c hc
  rw [List.head?_append, Option.mem_def, Option.or_eq_some_iff] at hc
  obtain hc | ⟨-, hc⟩ := hc
  · obtain rfl | rfl := Numeral.mem_head?_tail hc <;> rfl
  · exact (hrest c hc).1

theorem leading_eq_false : (n.whole.chars.isEmpty || (n.whole.chars.length > 1 && n.whole.chars.head? == some '0')) = false := by
  rw [List.isEmpty_eq_false_iff.mpr n.whole_ne, Bool.false_or]
  by_cases hzero : n.whole.chars.head? = some '0'
  · simp [n.leading hzero]
  · simp [hzero]

/-- With digits behind a point, a number is a float. -/
theorem takeUnsigned?_places {p : DigitRun} (hp : n.places = some p) (negative : Bool) : ∃ significand e, ∀ rest,
    Follows rest →
      takeUnsigned? negative (n.body ++ (n.tail ++ rest)) = finishFloat? negative significand e (n.tail ++ rest) := by
  have hempty : p.chars.isEmpty = false := List.isEmpty_eq_false_iff.mpr (n.places_ne p hp)
  refine ⟨(gather (gather 0 n.whole.chars).1 p.chars).1,
    n.whole.chars.length - (gather 0 n.whole.chars).2 - (gather (gather 0 n.whole.chars).1 p.chars).2, fun rest hrest => ?_⟩
  have hbody : n.body ++ (n.tail ++ rest) = n.whole.chars ++ ('.' :: (p.chars ++ (n.tail ++ rest))) := by
    rw [Numeral.body, hp, Option.map_some, Option.getD_some, List.append_assoc, List.cons_append]
  have hpoint : ∀ c ∈ ('.' :: (p.chars ++ (n.tail ++ rest))).head?, c.isDigit = false := fun c hc => by
    cases hc
    rfl
  rw [hbody, takeUnsigned?, Digits.span_append n.whole.isDigit hpoint]
  simp only [leading_eq_false, Bool.false_eq_true, if_false, Digits.span_append p.isDigit (isDigit_head?_tail n hrest), hempty]

/-- The integer of a significand that fits, or the float next to it if it is too small for one. -/
def integerOf (negative : Bool) (significand : Nat) : Json :=
  if negative then
    if significand = 0 ∨ twoTo 63 < significand then .float (Binary64.ofNat significand).neg else .integer (-significand)
  else .integer significand

/-- Without a point, a number is a float if it has an exponent, or digits that do not fit. -/
theorem takeUnsigned?_whole (hp : n.places = none) (hrest : Follows rest) (negative : Bool) :
    takeUnsigned? negative (n.body ++ (n.tail ++ rest)) =
      if n.exponent.isSome || (n.whole.chars.length - (gather 0 n.whole.chars).2 : Int) != 0 then
        finishFloat? negative (gather 0 n.whole.chars).1 (n.whole.chars.length - (gather 0 n.whole.chars).2) (n.tail ++ rest)
      else some (integerOf negative (gather 0 n.whole.chars).1, rest) := by
  have hbody : n.body ++ (n.tail ++ rest) = n.whole.chars ++ (n.tail ++ rest) := by
    rw [Numeral.body, hp, Option.map_none, Option.getD_none, List.append_nil]
  have hhead : (n.tail ++ rest).head? ≠ some '.' ∧
      ((n.tail ++ rest).head? == some 'e' || (n.tail ++ rest).head? == some 'E') = n.exponent.isSome := by
    rw [Numeral.tail]
    cases n.exponent with
    | none =>
      cases rest with
      | nil => exact ⟨by simp, rfl⟩
      | cons c rest =>
        have hc := (hrest c rfl).2
        simp only [List.mem_cons, List.not_mem_nil, or_false, not_or] at hc
        simp [hc]
    | some x => obtain hmark | hmark := x.isMark <;> simp [Exponent.chars, hmark]
  rw [hbody, takeUnsigned?, Digits.span_append n.whole.isDigit (isDigit_head?_tail n hrest)]
  simp only [leading_eq_false, Bool.false_eq_true, if_false]
  split
  next heq => exact absurd (by rw [heq]; rfl) hhead.1
  next =>
    rw [hhead.2]
    by_cases hfloat : (n.exponent.isSome || (n.whole.chars.length - (gather 0 n.whole.chars).2 : Int) != 0) = true
    · rw [if_pos hfloat, if_pos hfloat]
    · rw [if_neg hfloat, if_neg hfloat]
      have htail : n.tail = [] := by
        cases hexponent : n.exponent with
        | none => rw [Numeral.tail, hexponent]; rfl
        | some x => simp [hexponent] at hfloat
      rw [htail, List.nil_append, integerOf]
      split_ifs <;> rfl

/-- Digits, a point and an exponent are taken for themselves, whatever stands behind them. -/
theorem takeUnsigned?_append (hrest : Follows rest) (negative : Bool) :
    takeUnsigned? negative (n.body ++ (n.tail ++ rest)) =
      (takeUnsigned? negative (n.body ++ n.tail)).map fun read => (read.1, rest) := by
  have hnil : n.body ++ n.tail = n.body ++ (n.tail ++ []) := by rw [List.append_nil]
  cases hp : n.places with
  | some p =>
    obtain ⟨significand, e, hread⟩ := takeUnsigned?_places n hp negative
    rw [hnil, hread rest hrest, hread [] follows_nil, List.append_nil, finishFloat?_tail n hrest]
  | none =>
    rw [hnil, takeUnsigned?_whole n hp hrest, takeUnsigned?_whole n hp follows_nil, List.append_nil]
    split
    · rw [finishFloat?_tail n hrest]
    · rfl

theorem takeNumber?_chars (rest : List Char) :
    takeNumber? (n.chars ++ rest) = takeUnsigned? n.sign.negative (n.body ++ (n.tail ++ rest)) := by
  have hsplit : n.chars ++ rest = n.sign.chars ++ (n.body ++ (n.tail ++ rest)) := by
    rw [← List.append_assoc n.body, ← List.append_assoc, ← List.append_assoc]
    rfl
  rw [hsplit]
  cases hs : n.sign with
  | plus => exact absurd hs n.sign_ne
  | minus => rfl
  | none =>
    refine takeNumber?_of_head fun c hc => ?_
    rw [Sign.chars, List.nil_append, Numeral.body, List.append_assoc, List.head?_append_of_ne_nil _ n.whole_ne] at hc
    exact n.whole.isDigit c (List.mem_of_head? hc)

/-- A number is taken for itself, whatever stands behind it. -/
theorem takeNumber?_append (hrest : Follows rest) :
    takeNumber? (n.chars ++ rest) = (takeNumber? n.chars).map fun read => (read.1, rest) := by
  have halone := takeNumber?_chars n []
  rw [List.append_nil, List.append_nil] at halone
  rw [takeNumber?_chars, halone, takeUnsigned?_append n hrest]

/-- An integer that 64 bits hold is taken for it. -/
theorem takeNumber?_integer (hp : n.places = none) (he : n.exponent = none) (hsize : Digits.toNat n.whole.chars < twoTo 64) :
    takeNumber? n.chars = some (integerOf n.sign.negative (Digits.toNat n.whole.chars), []) := by
  have halone := takeNumber?_chars n []
  have hgather : gather 0 n.whole.chars = (Digits.toNat n.whole.chars, n.whole.chars.length) := gather_of_lt hsize
  rw [List.append_nil] at halone
  rw [halone, takeUnsigned?_whole n hp follows_nil, hgather, he]
  simp

end Number

/-! ### Values -/

/-- The reading of a document as data. -/
def document : Reading Json where
  null := .null
  bool := .bool
  number? n := (takeNumber? n.chars).map Prod.fst
  text? ps := (decoded? ps).map String.ofList
  string := .string
  array := .array
  object ms := .object (sortMembers ms)

/-- The document of a tree that nests at most `depth` containers. -/
def Tree.within? (depth : Nat) (t : Tree) : Option Json := if t.nesting ≤ depth then t.read? document else none

def itemsWithin? (depth : Nat) (ts : List Tree) : Option (List Json) :=
  if itemsNesting ts ≤ depth then readItems? document ts else none

def membersWithin? (depth : Nat) (ms : List (List Piece × Tree)) : Option (List (String × Json)) :=
  if membersNesting ms ≤ depth then readMembers? document ms else none

theorem within?_of_flat {t : Tree} (h : t.nesting = 0) (depth : Nat) : t.within? depth = t.read? document :=
  if_pos (h ▸ Nat.zero_le depth)

theorem itemsWithin?_cons (t : Tree) (ts : List Tree) : itemsWithin? depth (t :: ts) =
    (t.within? depth).bind fun j => (itemsWithin? depth ts).map (j :: ·) := by
  rw [itemsWithin?, itemsNesting, readItems?, Tree.within?, itemsWithin?]
  by_cases ht : t.nesting ≤ depth <;> by_cases hts : itemsNesting ts ≤ depth <;> simp [ht, hts]

theorem membersWithin?_cons (key : List Piece) (t : Tree) (ms : List (List Piece × Tree)) :
    membersWithin? depth ((key, t) :: ms) = ((decoded? key).map String.ofList).bind fun s =>
      (t.within? depth).bind fun j => (membersWithin? depth ms).map ((s, j) :: ·) := by
  rw [membersWithin?, membersNesting, readMembers?, Tree.within?, membersWithin?]
  by_cases ht : t.nesting ≤ depth <;> by_cases hms : membersNesting ms ≤ depth <;> simp [ht, hms, document]

theorem skipBlanks_blanks (hb : Blanks b) (cs : List Char) : skipBlanks (b ++ cs) = skipBlanks cs :=
  List.dropWhile_append_of_pos hb

theorem skipBlanks_skipBlanks (cs : List Char) : skipBlanks (skipBlanks cs) = skipBlanks cs := List.dropWhile_idempotent _ cs

theorem takeValue?_skipBlanks (fuel depth : Nat) (cs : List Char) :
    takeValue? fuel depth (skipBlanks cs) = takeValue? fuel depth cs := by
  cases fuel with
  | zero => rw [takeValue?_zero, takeValue?_zero]
  | succ fuel => rw [takeValue?, takeValue?, skipBlanks_skipBlanks]

/-- A value, and what is behind it and the blanks that follow. -/
def next? (fuel depth : Nat) (cs : List Char) : Option (Json × List Char) :=
  (takeValue? fuel depth cs).map fun read => (read.1, skipBlanks read.2)

/-- An item with what is behind it: a comma and more items, or the closing bracket. -/
def itemThen? (fuel depth : Nat) (item : Json) : List Char → Option (List Json × List Char)
  | ',' :: rest => do
    let (items, rest) ← takeItems? fuel depth rest
    pure (item :: items, rest)
  | ']' :: rest => pure ([item], rest)
  | _ => none

/-- A member with what is behind it: a comma and more members, or the closing brace. -/
def memberThen? (fuel depth : Nat) (member : String × Json) : List Char → Option (List (String × Json) × List Char)
  | ',' :: rest => do
    let (members, rest) ← takeMembers? fuel depth rest
    pure (member :: members, rest)
  | '\x7d' :: rest => pure ([member], rest)
  | _ => none

theorem takeItems?_eq (fuel depth : Nat) (cs : List Char) : takeItems? (fuel + 1) depth cs =
    (next? fuel depth cs).bind fun read => itemThen? fuel depth read.1 read.2 := by
  rw [takeItems?, next?]
  cases takeValue? fuel depth cs <;> rfl

theorem takeMembers?_eq (fuel depth : Nat) {b c : List Char} (hb : Blanks b) (hc : Blanks c) (key : List Piece)
    (cs : List Char) : takeMembers? (fuel + 1) depth (b ++ (quoted key ++ (c ++ ':' :: cs))) =
    ((decoded? key).map String.ofList).bind fun s =>
      (next? fuel depth cs).bind fun read => memberThen? fuel depth (s, read.1) read.2 := by
  have hquoted : quoted key ++ (c ++ ':' :: cs) = '"' :: (key.flatMap Piece.chars ++ '"' :: (c ++ ':' :: cs)) := by
    simp [quoted]
  have hcolon : skipBlanks (c ++ ':' :: cs) = ':' :: cs := by rw [skipBlanks_blanks hc, skipBlanks_cons rfl]
  rw [hquoted, takeMembers?, skipBlanks_blanks hb, skipBlanks_cons rfl]
  simp only [takeString?_pieces]
  cases decoded? key with
  | none => rfl
  | some s =>
    simp only [Option.map_some, Option.bind_eq_bind, Option.bind_some, hcolon, next?]
    cases takeValue? fuel depth cs <;> rfl

/-! ### Containers -/

theorem takeItems?_skipBlanks (fuel depth : Nat) (cs : List Char) :
    takeItems? fuel depth (skipBlanks cs) = takeItems? fuel depth cs := by
  cases fuel with
  | zero => rw [takeItems?_zero, takeItems?_zero]
  | succ fuel => rw [takeItems?, takeItems?, takeValue?_skipBlanks]

theorem takeMembers?_skipBlanks (fuel depth : Nat) (cs : List Char) :
    takeMembers? fuel depth (skipBlanks cs) = takeMembers? fuel depth cs := by
  cases fuel with
  | zero => rw [takeMembers?_zero, takeMembers?_zero]
  | succ fuel => rw [takeMembers?, takeMembers?, skipBlanks_skipBlanks]

theorem takeValue?_bracket (h : skipBlanks cs = c :: rest) (hc : c ≠ ']') (fuel depth : Nat) :
    takeValue? (fuel + 1) (depth + 1) ('[' :: cs) = (takeItems? fuel depth cs).map fun read => (.array read.1, read.2) := by
  rw [← takeItems?_skipBlanks, takeValue?, skipBlanks_cons rfl]
  simp only [h, Nat.add_one_ne_zero, if_false, Nat.add_sub_cancel]
  split
  next heq => exact absurd (List.cons.inj heq).1 hc
  next => cases takeItems? fuel depth (c :: rest) <;> rfl

theorem takeValue?_brace (h : skipBlanks cs = c :: rest) (hc : c ≠ '\x7d') (fuel depth : Nat) :
    takeValue? (fuel + 1) (depth + 1) ('\x7b' :: cs) =
      (takeMembers? fuel depth cs).map fun read => (.object (sortMembers read.1), read.2) := by
  rw [← takeMembers?_skipBlanks, takeValue?, skipBlanks_cons rfl]
  simp only [h, Nat.add_one_ne_zero, if_false, Nat.add_sub_cancel]
  split
  next heq => exact absurd (List.cons.inj heq).1 hc
  next => cases takeMembers? fuel depth (c :: rest) <;> rfl

/-! ### Documents -/

theorem follows_of_mark (h : c ∈ [',', ':', ']', '\x7d']) : Follows (c :: rest) := by
  rintro d ⟨⟩
  simp only [List.mem_cons, List.not_mem_nil, or_false] at h
  obtain rfl | rfl | rfl | rfl := h <;> decide

theorem follows_blanks (hb : Blanks b) (hrest : Follows rest) : Follows (b ++ rest) := by
  cases b with
  | nil => exact hrest
  | cons c b =>
    rintro d ⟨⟩
    have hblank : isBlank c = true := hb c List.mem_cons_self
    simp only [isBlank, Bool.or_eq_true, beq_iff_eq, or_assoc] at hblank
    obtain rfl | rfl | rfl | rfl := hblank <;> decide

/-- A part is read for what it says, as deep as there is room. -/
def Reads : Part → List Char → Prop
  | .value t, cs => ∀ fuel depth rest, 2 * cs.length ≤ fuel → Follows rest →
    takeValue? fuel depth (cs ++ rest) = (t.within? depth).map fun j => (j, rest)
  | .spaced t, cs => ∀ fuel depth rest, 2 * cs.length ≤ fuel → Follows rest →
    next? fuel depth (cs ++ rest) = (t.within? depth).map fun j => (j, skipBlanks rest)
  | .items ts, cs => ∀ fuel depth rest, 2 * cs.length < fuel →
    takeItems? fuel depth (cs ++ ']' :: rest) = (itemsWithin? depth ts).map fun js => (js, rest)
  | .members ms, cs => ∀ fuel depth rest, 2 * cs.length < fuel →
    takeMembers? fuel depth (cs ++ '\x7d' :: rest) = (membersWithin? depth ms).map fun js => (js, rest)

variable {part : Part} {t : Tree} {ts : List Tree} {ms : List (List Piece × Tree)} {key : List Piece} {more : List Char}

theorem reads_items (h : Reads (.spaced t) cs) (hmore : Reads (.items ts) more) : Reads (.items (t :: ts)) (cs ++ ',' :: more) := by
  intro fuel depth rest hfuel
  obtain ⟨fuel, rfl⟩ := Nat.exists_eq_add_one.mpr (Nat.zero_lt_of_lt hfuel)
  rw [List.length_append, List.length_cons] at hfuel
  have hitem := h fuel depth (',' :: (more ++ ']' :: rest)) (by omega) (follows_of_mark (by decide))
  rw [List.append_assoc, List.cons_append, takeItems?_eq, hitem, itemsWithin?_cons]
  cases t.within? depth with
  | none => rfl
  | some j =>
    rw [Option.map_some, Option.bind_some, Option.bind_some, skipBlanks_cons rfl, itemThen?, hmore fuel depth rest (by omega)]
    cases itemsWithin? depth ts <;> rfl

theorem reads_item (h : Reads (.spaced t) cs) : Reads (.items [t]) cs := by
  intro fuel depth rest hfuel
  obtain ⟨fuel, rfl⟩ := Nat.exists_eq_add_one.mpr (Nat.zero_lt_of_lt hfuel)
  have hitem := h fuel depth (']' :: rest) (by omega) (follows_of_mark (by decide))
  rw [takeItems?_eq, hitem, itemsWithin?_cons]
  cases t.within? depth with
  | none => rfl
  | some j => rfl

theorem reads_members {c : List Char} (hb : Blanks b) (hc : Blanks c) (h : Reads (.spaced t) cs) (hmore : Reads (.members ms) more) :
    Reads (.members ((key, t) :: ms)) (b ++ (quoted key ++ (c ++ ':' :: (cs ++ ',' :: more)))) := by
  intro fuel depth rest hfuel
  obtain ⟨fuel, rfl⟩ := Nat.exists_eq_add_one.mpr (Nat.zero_lt_of_lt hfuel)
  simp only [List.length_append, List.length_cons] at hfuel
  have hitem := h fuel depth (',' :: (more ++ '\x7d' :: rest)) (by omega) (follows_of_mark (by decide))
  simp only [List.append_assoc, List.cons_append]
  rw [takeMembers?_eq fuel depth hb hc, hitem, membersWithin?_cons]
  cases decoded? key with
  | none => rfl
  | some s =>
    cases t.within? depth with
    | none => rfl
    | some j =>
      simp only [Option.map_some, Option.bind_some, skipBlanks_cons (rfl : isBlank ',' = false), memberThen?]
      rw [hmore fuel depth rest (by omega)]
      cases membersWithin? depth ms <;> rfl

theorem reads_member {c : List Char} (hb : Blanks b) (hc : Blanks c) (h : Reads (.spaced t) cs) :
    Reads (.members [(key, t)]) (b ++ (quoted key ++ (c ++ ':' :: cs))) := by
  intro fuel depth rest hfuel
  obtain ⟨fuel, rfl⟩ := Nat.exists_eq_add_one.mpr (Nat.zero_lt_of_lt hfuel)
  simp only [List.length_append, List.length_cons] at hfuel
  have hitem := h fuel depth ('\x7d' :: rest) (by omega) (follows_of_mark (by decide))
  simp only [List.append_assoc, List.cons_append]
  rw [takeMembers?_eq fuel depth hb hc, hitem, membersWithin?_cons]
  cases decoded? key with
  | none => rfl
  | some s => cases t.within? depth <;> rfl

theorem reads_array (hcs : Spells (.items ts) cs) (h : Reads (.items ts) cs) : Reads (.value (.array ts)) ('[' :: (cs ++ [']'])) := by
  intro fuel depth rest hfuel _
  obtain ⟨b, c, more, hb, hsplit, hc⟩ := hcs.items_begin
  have hblank : isBlank c = false ∧ c ≠ ']' := by
    simpa using forall_openings (p := fun c => !isBlank c && c != ']') rfl hc
  have hskip : skipBlanks (cs ++ ']' :: rest) = c :: (more ++ ']' :: rest) := by
    rw [hsplit, List.append_assoc, skipBlanks_blanks hb, List.cons_append, skipBlanks_cons hblank.1]
  simp only [List.length_cons, List.length_append] at hfuel
  obtain ⟨fuel, rfl⟩ := Nat.exists_eq_add_one.mpr (by omega : 0 < fuel)
  rw [List.cons_append, List.append_assoc, List.singleton_append]
  cases depth with
  | zero => 
    rw [takeValue?, skipBlanks_cons rfl]
    rfl
  | succ depth =>
    rw [takeValue?_bracket hskip hblank.2, h fuel depth rest (by omega), Tree.within?, itemsWithin?, Tree.nesting, Tree.read?]
    by_cases hdepth : itemsNesting ts ≤ depth
    · rw [if_pos hdepth, if_pos (by omega)]
      cases readItems? document ts <;> rfl
    · rw [if_neg hdepth, if_neg (by omega)]
      rfl

theorem reads_object (hcs : Spells (.members ms) cs) (h : Reads (.members ms) cs) :
    Reads (.value (.object ms)) ('\x7b' :: (cs ++ ['\x7d'])) := by
  intro fuel depth rest hfuel _
  obtain ⟨b, more, hb, hsplit⟩ := hcs.members_begin
  have hskip : skipBlanks (cs ++ '\x7d' :: rest) = '"' :: (more ++ '\x7d' :: rest) := by
    rw [hsplit, List.append_assoc, skipBlanks_blanks hb, List.cons_append, skipBlanks_cons rfl]
  simp only [List.length_cons, List.length_append] at hfuel
  obtain ⟨fuel, rfl⟩ := Nat.exists_eq_add_one.mpr (by omega : 0 < fuel)
  rw [List.cons_append, List.append_assoc, List.singleton_append]
  cases depth with
  | zero =>
    rw [takeValue?, skipBlanks_cons rfl]
    rfl
  | succ depth =>
    rw [takeValue?_brace hskip (by decide), h fuel depth rest (by omega), Tree.within?, membersWithin?, Tree.nesting, Tree.read?]
    by_cases hdepth : membersNesting ms ≤ depth
    · rw [if_pos hdepth, if_pos (by omega)]
      cases readMembers? document ms <;> rfl
    · rw [if_neg hdepth, if_neg (by omega)]
      rfl

/-- Brackets and braces with nothing but blanks in them. -/
theorem reads_empty {t : Tree} {mark close : Char} {j : Json} (hb : Blanks b) (hread : t.read? document = some j)
    (hnesting : t.nesting = 1)
    (htake : ∀ fuel depth rest cs, skipBlanks cs = close :: rest → takeValue? (fuel + 1) (depth + 1) (mark :: cs) = some (j, rest))
    (hzero : ∀ fuel cs, takeValue? (fuel + 1) 0 (mark :: cs) = none) (hclose : isBlank close = false) :
    Reads (.value t) (mark :: (b ++ [close])) := by
  intro fuel depth rest hfuel _
  rw [List.length_cons] at hfuel
  obtain ⟨fuel, rfl⟩ := Nat.exists_eq_add_one.mpr (by omega : 0 < fuel)
  rw [List.cons_append, Tree.within?, hnesting, hread]
  cases depth with
  | zero => exact hzero fuel _
  | succ depth =>
    rw [htake fuel depth rest, if_pos (by omega)]
    · rfl
    · rw [List.append_assoc, skipBlanks_blanks hb, List.singleton_append, skipBlanks_cons hclose]

theorem reads_word {word : List Char} {t : Tree} {j : Json} (hread : t.read? document = some j) (hnesting : t.nesting = 0)
    (htake : ∀ fuel depth rest, takeValue? (fuel + 1) depth (word ++ rest) = some (j, rest)) (hne : word ≠ []) :
    Reads (.value t) word := by
  intro fuel depth rest hfuel _
  have hlength : 0 < word.length := List.length_pos_of_ne_nil hne
  obtain ⟨fuel, rfl⟩ := Nat.exists_eq_add_one.mpr (by omega : 0 < fuel)
  rw [htake, within?_of_flat hnesting, hread, Option.map_some]

theorem reads_number (n : Number) : Reads (.value (.number n)) n.chars := by
  intro fuel depth rest hfuel hrest
  obtain ⟨c, more, hchars, hfirst⟩ := n.begins
  have hread := takeNumber?_append n hrest
  have hdocument : (Tree.number n).within? depth = (takeNumber? n.chars).map Prod.fst := within?_of_flat rfl depth
  rw [hdocument, Option.map_map]
  rw [hchars, List.cons_append] at hread ⊢
  rw [hchars, List.length_cons] at hfuel
  obtain ⟨fuel, rfl⟩ := Nat.exists_eq_add_one.mpr (by omega : 0 < fuel)
  rw [takeValue?_number hfirst, hread]
  rfl

theorem reads_string (ps : List Piece) : Reads (.value (.string ps)) (quoted ps) := by
  intro fuel depth rest hfuel _
  have hquoted : quoted ps ++ rest = '"' :: (ps.flatMap Piece.chars ++ '"' :: rest) := by simp [quoted]
  rw [quoted, List.length_cons] at hfuel
  obtain ⟨fuel, rfl⟩ := Nat.exists_eq_add_one.mpr (by omega : 0 < fuel)
  rw [hquoted, takeValue?, skipBlanks_cons rfl, within?_of_flat rfl, Tree.read?, document]
  simp only [takeString?_pieces]
  cases decoded? ps <;> rfl

theorem reads_spaced {after : List Char} (hb : Blanks b) (hafter : Blanks after) (h : Reads (.value t) cs) :
    Reads (.spaced t) (b ++ (cs ++ after)) := by
  intro fuel depth rest hfuel hrest
  simp only [List.length_append] at hfuel
  have hread := h fuel depth (after ++ rest) (by omega) (follows_blanks hafter hrest)
  rw [List.append_assoc, List.append_assoc, next?, ← takeValue?_skipBlanks, skipBlanks_blanks hb, takeValue?_skipBlanks, hread,
    Option.map_map]
  exact congrArg (fun cs => (t.within? depth).map fun j => (j, cs)) (skipBlanks_blanks hafter rest)

/-- Every part is read as it is spelled. -/
theorem reads_of_spells (h : Spells part cs) : Reads part cs := by
  induction h with
  | null => exact reads_word rfl rfl (fun fuel depth rest => by rw [takeValue?]; rfl) (List.cons_ne_nil _ _)
  | trueWord => exact reads_word rfl rfl (fun fuel depth rest => by rw [takeValue?]; rfl) (List.cons_ne_nil _ _)
  | falseWord => exact reads_word rfl rfl (fun fuel depth rest => by rw [takeValue?]; rfl) (List.cons_ne_nil _ _)
  | number n => exact reads_number n
  | string ps => exact reads_string ps
  | emptyArray hb =>
    refine reads_empty hb rfl rfl ?_ ?_ rfl
    · intro fuel depth rest cs h
      rw [takeValue?, skipBlanks_cons rfl]
      simp only [h]
      rfl
    · intro fuel cs
      rw [takeValue?, skipBlanks_cons rfl]
      rfl
  | emptyObject hb =>
    refine reads_empty hb rfl rfl ?_ ?_ rfl
    · intro fuel depth rest cs h
      rw [takeValue?, skipBlanks_cons rfl]
      simp only [h]
      rfl
    · intro fuel cs
      rw [takeValue?, skipBlanks_cons rfl]
      rfl
  | array h ih => exact reads_array h ih
  | object h ih => exact reads_object h ih
  | spaced hb _ hafter ih => exact reads_spaced hb hafter ih
  | item _ ih => exact reads_item ih
  | items _ _ ih ihmore => exact reads_items ih ihmore
  | member hb hc _ ih => exact reads_member hb hc ih
  | members hb hc _ _ ih ihmore => exact reads_members hb hc ih ihmore

/-- A document is read for what it says if it nests at most 127 containers, and else not at all. -/
theorem ofChars?_of_spells (h : Spells (.spaced t) cs) : ofChars? cs = t.within? 127 := by
  have hread := reads_of_spells h (2 * cs.length + 1) 127 [] (by omega) follows_nil
  have hnext : ofChars? cs =
      (next? (2 * cs.length + 1) 127 cs).bind fun read => if read.2.isEmpty then some read.1 else none := by
    rw [ofChars?, readWithin?, next?]
    cases takeValue? (2 * cs.length + 1) 127 cs <;> rfl
  rw [List.append_nil] at hread
  rw [hnext, hread]
  cases t.within? 127 <;> rfl

end Conform.Json

import Conform.Json.Reader
import Conform.Proofs.Numeric.Numeral

/-! The texts of documents. A document is spelled as a tree of parts: numerals, the pieces of strings, items and members,
    with blanks between them. What a tree means is up to who reads it: a reading says what becomes of each part, and is
    carried through the tree. -/

namespace Conform.Json

/-! ### Parts -/

/-- Nothing but blanks. -/
def Blanks (cs : List Char) : Prop := ∀ c ∈ cs, isBlank c = true

/-- A piece of a string: a character that stands for itself, a character by the letter of its escape, or the code of one. -/
inductive Piece
  | plain (c : Char) (h : c ≠ '"' ∧ c ≠ '\\' ∧ 0x20 ≤ c.toNat)
  | short (letter c : Char) (h : escapes.lookup letter = some c)
  | coded (i j k l : Char) (n : Nat) (h : hex4? i j k l = some n)

def Piece.chars : Piece → List Char
  | .plain c _ => [c]
  | .short letter _ _ => ['\\', letter]
  | .coded i j k l _ _ => ['\\', 'u', i, j, k, l]

/-- A string between its quotes. -/
def quoted (ps : List Piece) : List Char := '"' :: (ps.flatMap Piece.chars ++ ['"'])

/-- A numeral as documents have it: no plus before it, no zero before its other digits, and a digit wherever there can be
    one. -/
structure Number extends Numeral where
  sign_ne : sign ≠ .plus
  whole_ne : whole.chars ≠ []
  leading : whole.chars.head? = some '0' → whole.chars = ['0']
  places_ne : ∀ p ∈ places, p.chars ≠ []
  exponent_ne : ∀ e ∈ exponent, e.digits.chars ≠ []

/-- A document as it is spelled. -/
inductive Tree
  | null
  | bool (b : Bool)
  | number (n : Number)
  | string (ps : List Piece)
  | array (items : List Tree)
  | object (members : List (List Piece × Tree))

/-! ### Texts -/

/-- A value, a value between blanks, or what stands between brackets or braces. -/
inductive Part
  | value (t : Tree)
  | spaced (t : Tree)
  | items (ts : List Tree)
  | members (ms : List (List Piece × Tree))

/-- The texts of a part; a document is a value between blanks. One relation for all parts, so that an induction goes through
    them together. -/
inductive Spells : Part → List Char → Prop
  | null : Spells (.value .null) ['n', 'u', 'l', 'l']
  | trueWord : Spells (.value (.bool true)) ['t', 'r', 'u', 'e']
  | falseWord : Spells (.value (.bool false)) ['f', 'a', 'l', 's', 'e']
  | number (n : Number) : Spells (.value (.number n)) n.chars
  | string (ps : List Piece) : Spells (.value (.string ps)) (quoted ps)
  | emptyArray {b : List Char} (hb : Blanks b) : Spells (.value (.array [])) ('[' :: (b ++ [']']))
  | array {ts : List Tree} {cs : List Char} (h : Spells (.items ts) cs) :
    Spells (.value (.array ts)) ('[' :: (cs ++ [']']))
  | emptyObject {b : List Char} (hb : Blanks b) : Spells (.value (.object [])) ('\x7b' :: (b ++ ['\x7d']))
  | object {ms : List (List Piece × Tree)} {cs : List Char} (h : Spells (.members ms) cs) :
    Spells (.value (.object ms)) ('\x7b' :: (cs ++ ['\x7d']))
  | spaced {t : Tree} {b cs after : List Char} (hb : Blanks b) (h : Spells (.value t) cs) (hafter : Blanks after) :
    Spells (.spaced t) (b ++ (cs ++ after))
  | item {t : Tree} {cs : List Char} (h : Spells (.spaced t) cs) : Spells (.items [t]) cs
  | items {t : Tree} {ts : List Tree} {cs more : List Char} (h : Spells (.spaced t) cs) (hmore : Spells (.items ts) more) :
    Spells (.items (t :: ts)) (cs ++ ',' :: more)
  | member {key : List Piece} {t : Tree} {b c cs : List Char} (hb : Blanks b) (hc : Blanks c) (h : Spells (.spaced t) cs) :
    Spells (.members [(key, t)]) (b ++ (quoted key ++ (c ++ ':' :: cs)))
  | members {key : List Piece} {t : Tree} {ms : List (List Piece × Tree)} {b c cs more : List Char} (hb : Blanks b)
      (hc : Blanks c) (h : Spells (.spaced t) cs) (hmore : Spells (.members ms) more) :
    Spells (.members ((key, t) :: ms)) (b ++ (quoted key ++ (c ++ ':' :: (cs ++ ',' :: more))))

theorem Spells.alone {t : Tree} {cs : List Char} (h : Spells (.value t) cs) : Spells (.spaced t) cs := by
  have hspaced := Spells.spaced (List.forall_mem_nil _) h (List.forall_mem_nil _)
  rwa [List.nil_append, List.append_nil] at hspaced

/-- The characters that a value begins with. -/
def openings : List Char := ['"', '[', '\x7b', 'n', 't', 'f', '-'] ++ Digits.all

theorem forall_openings {p : Char → Bool} (hall : openings.all p = true) {c : Char} (h : c ∈ openings) : p c = true :=
  List.all_eq_true.mp hall c h

theorem Number.begins (n : Number) : ∃ c more, n.chars = c :: more ∧ (c = '-' ∨ c.isDigit = true) := by
  obtain ⟨c, ds, hds⟩ := List.exists_cons_of_ne_nil n.whole_ne
  cases hs : n.sign with
  | plus => exact absurd hs n.sign_ne
  | minus => exact ⟨'-', n.body ++ n.tail, by simp [Numeral.chars, Numeral.tail, hs, Sign.chars], .inl rfl⟩
  | none =>
    have hchars : n.chars = c :: (ds ++ (n.places.map fun places => '.' :: places.chars).getD [] ++ n.tail) := by
      simp [Numeral.chars, Numeral.body, Numeral.tail, hs, Sign.chars, hds]
    exact ⟨c, _, hchars, .inr (n.whole.isDigit c (hds ▸ List.mem_cons_self))⟩

theorem Spells.begins {t : Tree} {cs : List Char} (h : Spells (.value t) cs) : ∃ c more, cs = c :: more ∧ c ∈ openings := by
  cases h with
  | null => exact ⟨'n', _, rfl, by decide⟩
  | trueWord => exact ⟨'t', _, rfl, by decide⟩
  | falseWord => exact ⟨'f', _, rfl, by decide⟩
  | string => exact ⟨'"', _, rfl, by decide⟩
  | emptyArray | array => exact ⟨'[', _, rfl, by decide⟩
  | emptyObject | object => exact ⟨'\x7b', _, rfl, by decide⟩
  | number n =>
    obtain ⟨c, more, hchars, rfl | hdigit⟩ := n.begins
    · exact ⟨'-', more, hchars, by decide⟩
    · exact ⟨c, more, hchars, List.mem_append_right _ (Digits.mem_all hdigit)⟩

/-- The items of an array begin, behind blanks, as a value does. -/
theorem Spells.items_begin {ts : List Tree} {cs : List Char} (h : Spells (.items ts) cs) :
    ∃ b c more, Blanks b ∧ cs = b ++ c :: more ∧ c ∈ openings := by
  have hspaced {t : Tree} {cs : List Char} (h : Spells (.spaced t) cs) : ∃ b c more, Blanks b ∧ cs = b ++ c :: more ∧
      c ∈ openings := by
    cases h with
    | spaced hb h hafter =>
      obtain ⟨c, more, rfl, hc⟩ := h.begins
      exact ⟨_, c, _, hb, rfl, hc⟩
  cases h with
  | item h => exact hspaced h
  | items h =>
    obtain ⟨b, c, more, hb, rfl, hc⟩ := hspaced h
    exact ⟨b, c, _, hb, List.append_assoc .., hc⟩

/-- The members of an object begin, behind blanks, with a quote. -/
theorem Spells.members_begin {ms : List (List Piece × Tree)} {cs : List Char} (h : Spells (.members ms) cs) :
    ∃ b more, Blanks b ∧ cs = b ++ '"' :: more := by
  cases h with
  | member hb => exact ⟨_, _, hb, rfl⟩
  | members hb => exact ⟨_, _, hb, rfl⟩

/-! ### Readings -/

mutual

/-- How deep containers stand in one another. -/
def Tree.nesting : Tree → Nat
  | .array items => itemsNesting items + 1
  | .object members => membersNesting members + 1
  | _ => 0

def itemsNesting : List Tree → Nat
  | [] => 0
  | t :: ts => max t.nesting (itemsNesting ts)

def membersNesting : List (List Piece × Tree) → Nat
  | [] => 0
  | (_, t) :: ms => max t.nesting (membersNesting ms)

end

/-- What becomes of the parts of a document; a numeral or a string may be refused. -/
structure Reading (α : Type) where
  null : α
  bool : Bool → α
  number? : Number → Option α
  text? : List Piece → Option String
  string : String → α
  array : List α → α
  object : List (String × α) → α

variable {α : Type}

mutual

/-- What a reading makes of a document: nothing, if it refuses a part. -/
def Tree.read? (r : Reading α) : Tree → Option α
  | .null => some r.null
  | .bool b => some (r.bool b)
  | .number n => r.number? n
  | .string ps => (r.text? ps).map r.string
  | .array items => (readItems? r items).map r.array
  | .object members => (readMembers? r members).map r.object

def readItems? (r : Reading α) : List Tree → Option (List α)
  | [] => some []
  | t :: ts => (t.read? r).bind fun a => (readItems? r ts).map (a :: ·)

def readMembers? (r : Reading α) : List (List Piece × Tree) → Option (List (String × α))
  | [] => some []
  | (key, t) :: ms => (r.text? key).bind fun s => (t.read? r).bind fun a => (readMembers? r ms).map ((s, a) :: ·)

end

end Conform.Json

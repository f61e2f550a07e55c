import Conform.Proofs.Conversion.Proper
import Conform.Proofs.Json.Complete
import Conform.Proofs.Literal.Document

/-! Texts in brackets. What the reader of documents gives up is scanned as a literal, so a document too deep for it, or with a
    number beyond the range, has a value all the same. The two agree where a document has no more in it than both grammars
    read alike. -/

namespace Conform

open Json (Piece Number Tree Part Reading Spells document readItems? readMembers?)

/-! ### What both grammars read alike -/

namespace Json

/-- A character that stands for itself, or an escape that literals have as well. -/
def Piece.Alike : Piece → Prop
  | .plain _ _ => True
  | .short letter _ _ => letter ∈ ['"', '\\', 'n', 'r', 't']
  | .coded .. => False

/-- An integer, minus zero apart, or a number that is read as the float next to it. -/
def Number.Alike (n : Number) : Prop :=
  if n.places.isNone && n.exponent.isNone then n.sign = .minus → Digits.toNat n.whole.chars ≠ 0
  else document.number? n = some (.float (n.nearest n.sign.negative))

/-- A document of parts that are read alike, the keys of each object different. -/
inductive Tree.Alike : Tree → Prop
  | null : Alike .null
  | bool (b : Bool) : Alike (.bool b)
  | number {n : Number} (h : n.Alike) : Alike (.number n)
  | string {ps : List Piece} (h : ∀ p ∈ ps, p.Alike) : Alike (.string ps)
  | array {ts : List Tree} (h : ∀ t ∈ ts, Alike t) : Alike (.array ts)
  | object {ms : List (List Piece × Tree)} (hkeys : ∀ m ∈ ms, ∀ p ∈ m.1, p.Alike)
      (hapart : (ms.map fun m => document.text? m.1).Nodup) (h : ∀ m ∈ ms, Alike m.2) : Alike (.object ms)

theorem decoded?_of_alike {ps : List Piece} (h : ∀ p ∈ ps, p.Alike) : decoded? ps = some (ps.flatMap Literal.raw) := by
  induction ps with
  | nil => rfl
  | cons p ps ih =>
    obtain ⟨hp, hps⟩ := List.forall_mem_cons.mp h
    rw [List.flatMap_cons]
    cases p with
    | plain c hc => rw [decoded?, ih hps]; rfl
    | short letter c hletter =>
      have hraw : Literal.unescape letter = [c] := by
        simp only [Piece.Alike, List.mem_cons, List.not_mem_nil, or_false] at hp
        obtain rfl | rfl | rfl | rfl | rfl := hp <;> cases hletter <;> rfl
      rw [decoded?, ih hps, Literal.raw, hraw]
      rfl
    | coded => cases hp

/-- Of an integer, the sign and the digits count. -/
theorem integer?_number {n : Number} (hp : n.places = none) (he : n.exponent = none) : integer? n.chars =
    int64? (if n.sign.negative then -(Digits.toNat n.whole.chars) else Digits.toNat n.whole.chars) := by
  have hempty : n.whole.chars.isEmpty = false := List.isEmpty_eq_false_iff.mpr n.whole_ne
  have hall : n.whole.chars.all Char.isDigit = true := List.all_eq_true.mpr n.whole.isDigit
  rw [integer?, n.signed_chars, Numeral.body, hp, he]
  simp [hempty, hall]

/-- An integer of 64 bits is read as it is scanned, minus zero apart. -/
theorem number?_of_integer {n : Number} {i : Int64} (hp : n.places = none) (he : n.exponent = none)
    (hzero : n.sign = .minus → Digits.toNat n.whole.chars ≠ 0) (hi : integer? n.chars = some i) :
    document.number? n = some (.integer i.toInt) := by
  rw [integer?_number hp he] at hi
  have hvalue := toInt_of_int64? hi
  have hlow : -9223372036854775808 ≤ i.toInt := i.minValue_le_toInt
  have hhigh : i.toInt ≤ 9223372036854775807 := i.toInt_le
  have hpower : twoTo 64 = 18446744073709551616 ∧ twoTo 63 = 9223372036854775808 := ⟨rfl, rfl⟩
  have hwhole : integerOf n.sign.negative (Digits.toNat n.whole.chars) = .integer i.toInt := by
    cases hs : n.sign.negative with
    | false =>
      rw [hvalue, hs]
      rfl
    | true =>
      have hne : Digits.toNat n.whole.chars ≠ 0 := hzero (of_decide_eq_true hs)
      rw [hs, if_pos rfl] at hvalue
      rw [integerOf, if_pos rfl, if_neg (by omega), hvalue]
  have hsize : Digits.toNat n.whole.chars < twoTo 64 := by
    split at hvalue <;> omega
  have hread := takeNumber?_integer n hp he hsize
  rw [hwhole] at hread
  exact congrArg (Option.map Prod.fst) hread

theorem number?_of_alike {n : Number} {v : Value} (h : n.Alike) (hv : Literal.number? n = some v) :
    ∃ j, document.number? n = some j ∧ j.toValue = v ∧ v.isScalar = true := by
  rw [Number.Alike] at h
  rw [Literal.number?] at hv
  by_cases hinteger : (n.places.isNone && n.exponent.isNone) = true
  · rw [if_pos hinteger] at h hv
    simp only [Bool.and_eq_true, Option.isNone_iff_eq_none] at hinteger
    obtain ⟨i, hi, rfl⟩ := Option.map_eq_some_iff.mp hv
    refine ⟨.integer i.toInt, number?_of_integer hinteger.1 hinteger.2 h hi, ?_, rfl⟩
    rw [toValue, int64?_toInt]
  · rw [if_neg hinteger] at h hv
    cases hv
    exact ⟨_, h, rfl, rfl⟩

/-- What is scanned of a tree is what is read of it. -/
def Tree.Agrees (t : Tree) : Prop :=
  ∀ v, t.read? Literal.reading = some v → ∃ j, t.read? document = some j ∧ v.same j.toValue = true

theorem items_agree {ts : List Tree} {vs : List Value} (h : ∀ t ∈ ts, t.Agrees)
    (hvs : readItems? Literal.reading ts = some vs) :
    ∃ js, readItems? document ts = some js ∧ Value.sameItems vs (js.map toValue) = true := by
  induction ts generalizing vs with
  | nil =>
    cases hvs
    exact ⟨[], rfl, by rw [List.map_nil, Value.sameItems]⟩
  | cons t ts ih =>
    obtain ⟨ht, hts⟩ := List.forall_mem_cons.mp h
    rw [readItems?, Option.bind_eq_some_iff] at hvs
    obtain ⟨v, hv, hvs⟩ := hvs
    obtain ⟨vs, hread, rfl⟩ := Option.map_eq_some_iff.mp hvs
    obtain ⟨j, hj, hsame⟩ := ht v hv
    obtain ⟨js, hjs, hitems⟩ := ih hts hread
    refine ⟨j :: js, by rw [readItems?, hj, hjs]; rfl, ?_⟩
    rw [List.map_cons, Value.sameItems, hsame, hitems, Bool.and_self]

/-- The members that are scanned have the keys of those that are read, and equal values. -/
theorem members_agree {ms : List (List Piece × Tree)} {vs : List (String × Value)}
    (hkeys : ∀ m ∈ ms, ∀ p ∈ m.1, p.Alike) (h : ∀ m ∈ ms, m.2.Agrees) (hvs : readMembers? Literal.reading ms = some vs) :
    ∃ js, readMembers? document ms = some js ∧ (js.map fun m => some m.1) = (ms.map fun m => document.text? m.1) ∧
      js.map Prod.fst = vs.map Prod.fst ∧ ∀ m ∈ vs, ∃ n ∈ js, m.1 = n.1 ∧ m.2.same n.2.toValue = true := by
  induction ms generalizing vs with
  | nil =>
    cases hvs
    exact ⟨[], rfl, rfl, rfl, nofun⟩
  | cons m ms ih =>
    obtain ⟨key, t⟩ := m
    obtain ⟨hkey, hkeys⟩ : (∀ p ∈ key, p.Alike) ∧ ∀ m ∈ ms, ∀ p ∈ m.1, p.Alike := List.forall_mem_cons.mp hkeys
    obtain ⟨hm, hms⟩ : t.Agrees ∧ ∀ m ∈ ms, m.2.Agrees := List.forall_mem_cons.mp h
    rw [readMembers?, Option.bind_eq_some_iff] at hvs
    obtain ⟨s, hs, hvs⟩ := hvs
    obtain ⟨v, hv, hvs⟩ := Option.bind_eq_some_iff.mp hvs
    obtain ⟨vs, hread, rfl⟩ := Option.map_eq_some_iff.mp hvs
    obtain ⟨j, hj, hsame⟩ := hm v hv
    obtain ⟨js, hjs, htexts, hnames, hmembers⟩ := ih hkeys hms hread
    have htext : document.text? key = some s := by
      cases hs
      exact congrArg (Option.map String.ofList) (decoded?_of_alike hkey)
    refine ⟨(s, j) :: js, by rw [readMembers?, htext, hj, hjs]; rfl, ?_, ?_, ?_⟩
    · rw [List.map_cons, List.map_cons, htexts, htext]
    · rw [List.map_cons, List.map_cons, hnames]
    · refine List.forall_mem_cons.mpr ⟨⟨(s, j), List.mem_cons_self, rfl, hsame⟩, fun n hn => ?_⟩
      obtain ⟨o, ho, heq⟩ := hmembers n hn
      exact ⟨o, List.mem_cons_of_mem _ ho, heq⟩

theorem apart_textEntries {vs : List (String × Value)} (h : (vs.map Prod.fst).Nodup) :
    Value.Apart ((Value.textEntries vs).map Prod.fst) := by
  have hkeys : (Value.textEntries vs).map Prod.fst = (vs.map Prod.fst).map Value.str := by
    rw [Value.textEntries, List.map_map, List.map_map]
    rfl
  rw [hkeys, Value.Apart, List.pairwise_map]
  exact h.imp fun hne => by simp [Value.same, Ne.symm hne]

theorem object_agrees {ms : List (List Piece × Tree)} (hkeys : ∀ m ∈ ms, ∀ p ∈ m.1, p.Alike)
    (hapart : (ms.map fun m => document.text? m.1).Nodup) (h : ∀ m ∈ ms, m.2.Agrees) : (Tree.object ms).Agrees := by
  intro v hv
  rw [Tree.read?] at hv
  obtain ⟨vs, hread, rfl⟩ := Option.map_eq_some_iff.mp hv
  obtain ⟨js, hjs, htexts, hnames, hmembers⟩ := members_agree hkeys h hread
  have hnodup : (js.map Prod.fst).Nodup := by
    have hsome : ((js.map Prod.fst).map some).Nodup := by
      rw [List.map_map]
      exact htexts ▸ hapart
    exact hsome.of_map some
  have hperm := perm_sortMembers hnodup
  have hentries : Value.entriesOf (Value.textEntries vs) = Value.textEntries vs :=
    Value.entriesOf_of_apart (apart_textEntries (hnames ▸ hnodup))
  have hmap : (object (sortMembers js)).toValue =
      .map (Value.textEntries ((sortMembers js).map fun m => (m.1, m.2.toValue))) := by
    rw [toValue_object, Value.textEntries, List.map_map]
    rfl
  have hlength : vs.length = js.length := by rw [← List.length_map Prod.fst, ← hnames, List.length_map]
  refine ⟨.object (sortMembers js), by rw [Tree.read?, hjs]; rfl, ?_⟩
  change Value.same (.map (Value.entriesOf (Value.textEntries vs))) _ = true
  rw [hentries, hmap, Value.same, Value.allEntriesWithin_textEntries, Bool.and_true]
  · simp [Value.textEntries, hlength, hperm.length_eq]
  · rw [List.map_map]
    exact (hperm.map Prod.fst).nodup_iff.mpr hnodup
  · intro m hm
    obtain ⟨n, hn, hkey, hsame⟩ := hmembers m hm
    exact ⟨(n.1, n.2.toValue), List.mem_map.mpr ⟨n, hperm.mem_iff.mpr hn, rfl⟩, hkey, hsame⟩

/-- A value of no parts is equal to itself. -/
theorem agrees_of_scalar {t : Tree}
    (h : ∀ v, t.read? Literal.reading = some v → ∃ j, t.read? document = some j ∧ j.toValue = v ∧ v.isScalar = true) :
    t.Agrees := by
  intro v hv
  obtain ⟨j, hj, rfl, hscalar⟩ := h v hv
  exact ⟨j, hj, (Value.regular_scalar hscalar).refl⟩

theorem agrees_of_alike {t : Tree} (h : t.Alike) : t.Agrees := by
  induction h with
  | null => exact agrees_of_scalar fun v hv => ⟨.null, rfl, Option.some.inj hv, by cases hv; rfl⟩
  | bool b => exact agrees_of_scalar fun v hv => ⟨.bool b, rfl, Option.some.inj hv, by cases hv; rfl⟩
  | number hn => exact agrees_of_scalar fun v hv => number?_of_alike hn hv
  | @string ps hps =>
    refine agrees_of_scalar fun v hv => ⟨.string (String.ofList (ps.flatMap Literal.raw)), ?_, Option.some.inj hv, by cases hv; rfl⟩
    have htext : document.text? ps = some (String.ofList (ps.flatMap Literal.raw)) :=
      congrArg (Option.map String.ofList) (decoded?_of_alike hps)
    rw [Tree.read?, htext]
    rfl
  | array _ ih =>
    intro v hv
    rw [Tree.read?] at hv
    obtain ⟨vs, hread, rfl⟩ := Option.map_eq_some_iff.mp hv
    obtain ⟨js, hjs, hitems⟩ := items_agree ih hread
    refine ⟨.array js, by rw [Tree.read?, hjs]; rfl, ?_⟩
    rw [toValue_array]
    change Value.same (.list vs) _ = true
    rwa [Value.same]
  | object hkeys hapart _ ih => exact object_agrees hkeys hapart ih

end Json

namespace Converter

variable {t : Tree} {cs : List Char} {v : Value}

/-! ### Lists in lists -/

/-- A document in so many lists. -/
def enclosed (n : Nat) (t : Tree) : Tree := (fun t => .array [t])^[n] t

def enclosedChars (n : Nat) (cs : List Char) : List Char := List.replicate n '[' ++ (cs ++ List.replicate n ']')

theorem spells_enclosed (h : Spells (.value t) cs) (n : Nat) : Spells (.value (enclosed n t)) (enclosedChars n cs) := by
  induction n with
  | zero => simpa [enclosed, enclosedChars] using h
  | succ n ih =>
    have hchars : enclosedChars (n + 1) cs = '[' :: (enclosedChars n cs ++ [']']) := by
      rw [enclosedChars, List.replicate_succ, List.replicate_succ', enclosedChars]
      simp
    rw [enclosed, Function.iterate_succ_apply', hchars]
    exact .array (.item ih.alone)

theorem nesting_enclosed (n : Nat) (t : Tree) : (enclosed n t).nesting = t.nesting + n := by
  induction n with
  | zero => rfl
  | succ n ih =>
    rw [enclosed, Function.iterate_succ_apply', Tree.nesting, Json.itemsNesting, Json.itemsNesting, Nat.max_zero]
    exact congrArg (· + 1) ih

theorem read?_enclosed {α : Type} {r : Reading α} {a : α} (h : t.read? r = some a) (n : Nat) :
    (enclosed n t).read? r = some ((fun a => r.array [a])^[n] a) := by
  induction n with
  | zero => exact h
  | succ n ih =>
    have hread : ((fun t => Tree.array [t])^[n] t).read? r = some ((fun a => r.array [a])^[n] a) := ih
    rw [enclosed, Function.iterate_succ_apply', Function.iterate_succ_apply', Tree.read?, Json.readItems?, Json.readItems?, hread]
    rfl

theorem alike_enclosed (h : t.Alike) (n : Nat) : (enclosed n t).Alike := by
  induction n with
  | zero => exact h
  | succ n ih =>
    rw [enclosed, Function.iterate_succ_apply']
    exact .array (List.forall_mem_singleton.mpr ih)

theorem toValue_enclosed (n : Nat) (j : Json) :
    ((fun j => Json.array [j])^[n] j).toValue = (fun v => Value.list [v])^[n] j.toValue := by
  induction n with
  | zero => rfl
  | succ n ih => rw [Function.iterate_succ_apply', Function.iterate_succ_apply', Json.toValue_array, List.map_singleton, ih]

theorem same_enclosed (n : Nat) (u v : Value) :
    ((fun v => Value.list [v])^[n] u).same ((fun v => Value.list [v])^[n] v) = u.same v := by
  induction n with
  | zero => rfl
  | succ n ih =>
    rw [Function.iterate_succ_apply', Function.iterate_succ_apply', Value.same, Value.sameItems, Value.sameItems, ih, Bool.and_true]

/-! ### Texts of documents -/

theorem structured?_eq (h : Spells (.spaced t) cs) :
    structured? cs = ((t.within? 127).map Json.toValue).or (t.read? Literal.reading) := by
  rw [structured?, Json.ofChars?_of_spells h, ← Literal.read_of_spells h]
  cases t.within? 127 <;> rfl

/-- A text in more lists than the reader of documents goes into is scanned. -/
theorem structured?_enclosed (h : Spells (.value t) cs) (hv : t.read? Literal.reading = some v) {n : Nat}
    (hn : 127 < t.nesting + n) : structured? (enclosedChars n cs) = some ((fun v => Value.list [v])^[n] v) := by
  have hdeep : (enclosed n t).within? 127 = none := by rw [Tree.within?, nesting_enclosed, if_neg (by omega)]
  rw [structured?_eq (spells_enclosed h n).alone, hdeep, read?_enclosed hv]
  rfl

/-- A document is read if the reader has room for it and can make something of all its parts, and is scanned if not. Where
    both grammars read its parts alike, it has the value that it denotes, or none. -/
theorem structured?_of_spells (h : Spells (.spaced t) cs) :
    structured? cs = ((t.within? 127).map Json.toValue).or (t.read? Literal.reading) ∧
      (t.Alike → ∀ v, structured? cs = some v → ∃ j, t.read? document = some j ∧ v.same j.toValue = true) := by
  refine ⟨structured?_eq h, fun halike v hv => ?_⟩
  have hproper := proper_structured? hv
  rw [structured?_eq h] at hv
  obtain hv | ⟨-, hv⟩ := Option.or_eq_some_iff.mp hv
  · obtain ⟨j, hj, rfl⟩ := Option.map_eq_some_iff.mp hv
    rw [Tree.within?, Option.ite_none_right_eq_some] at hj
    exact ⟨j, hj.2, hproper.regular.refl⟩
  · exact Json.agrees_of_alike halike v hv

/-- A string at the bottom of a text that the reader does not go into is still read as it is. -/
theorem structured?_buried :
    let t := Tree.string [.plain 'a' (by decide), .short 'n' '\n' rfl]
    Spells (.spaced (enclosed 128 t)) (enclosedChars 128 ['"', 'a', '\\', 'n', '"']) ∧ (enclosed 128 t).within? 127 = none ∧
      structured? (enclosedChars 128 ['"', 'a', '\\', 'n', '"']) = some ((fun v => Value.list [v])^[128] (.str "a\n")) ∧
      ∃ j, (enclosed 128 t).read? document = some j ∧ ((fun v => Value.list [v])^[128] (.str "a\n")).same j.toValue = true := by
  intro t
  have hspells : Spells (.spaced (enclosed 128 t)) (enclosedChars 128 ['"', 'a', '\\', 'n', '"']) :=
    (spells_enclosed (Spells.string [.plain 'a' (by decide), .short 'n' '\n' rfl]) 128).alone
  have hdeep : (enclosed 128 t).within? 127 = none := by rw [Tree.within?, nesting_enclosed, if_neg (by decide)]
  have halike : (enclosed 128 t).Alike := alike_enclosed (.string (by simp [Piece.Alike])) 128
  obtain ⟨hread, hagrees⟩ := structured?_of_spells hspells
  have hliteral : t.read? Literal.reading = some (.str "a\n") := rfl
  rw [hdeep, read?_enclosed hliteral 128] at hread
  exact ⟨hspells, hdeep, hread, hagrees halike _ hread⟩

/-- The number `1e400`. -/
def beyond : Number where
  sign := .none
  whole := ⟨['1'], List.all_eq_true.mp rfl⟩
  places := none
  exponent := some ⟨'e', .inl rfl, .none, ⟨['4', '0', '0'], List.all_eq_true.mp rfl⟩⟩
  sign_ne := by decide
  whole_ne := by decide
  leading := by decide
  places_ne := by simp
  exponent_ne := by simp

/-- In more lists than the reader goes into, a code is kept as it is spelled; and a number beyond the range is infinite. -/
theorem structured?_reread :
    let code := Tree.string [.coded '0' '0' '4' '1' 0x41 rfl]
    let denoted := (fun j => Json.array [j])^[128] (.string "A")
    let scanned := (fun v => Value.list [v])^[128] (.str "\\u0041")
    (Spells (.spaced (enclosed 128 code)) (enclosedChars 128 "\"\\u0041\"".toList) ∧
        (enclosed 128 code).read? document = some denoted ∧
        structured? (enclosedChars 128 "\"\\u0041\"".toList) = some scanned ∧ scanned.same denoted.toValue = false) ∧
      Spells (.spaced (.array [.number beyond])) "[1e400]".toList ∧ (Tree.array [.number beyond]).read? document = none ∧
        structured? "[1e400]".toList = some (.list [.float (Binary64.infinity false)]) := by
  intro code denoted scanned
  have hspells : Spells (.value code) "\"\\u0041\"".toList := Spells.string [.coded '0' '0' '4' '1' 0x41 rfl]
  have hdocument : code.read? document = some (.string "A") := rfl
  have hliteral : code.read? Literal.reading = some (.str "\\u0041") := rfl
  refine ⟨⟨(spells_enclosed hspells 128).alone, read?_enclosed hdocument 128, structured?_enclosed hspells hliteral (by decide), ?_⟩,
    (Spells.array (.item (Spells.number beyond).alone)).alone, rfl, rfl⟩
  rw [toValue_enclosed, same_enclosed]
  simp [Json.toValue, Value.same]

end Converter

end Conform

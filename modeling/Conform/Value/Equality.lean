import Conform.Value

/-!
Equality of values as data. Numbers of different kinds differ; floats are equal if they are the same
number or both none, decimals by value, instants by the moment they name. Sets and maps are equal if
they hold the same, in whatever order. Sets and maps are built with this equality.
-/

namespace Conform.Value

mutual

/-- Equality as data. -/
def same : Value → Value → Bool
  | .null, .null => true
  | .bool a, .bool b => a == b
  | .int a, .int b => a == b
  | .float a, .float b => a.same b
  | .decimal a, .decimal b => a.same b
  | .str a, .str b => a == b
  | .bytes a, .bytes b => a == b
  | .date a, .date b => a == b
  | .time a, .time b => a == b
  | .datetime a, .datetime b => a == b
  | .instant a, .instant b => a.same b
  | .duration a, .duration b => a == b
  | .uuid a, .uuid b => a == b
  | .list a, .list b => sameItems a b
  | .tuple a, .tuple b => sameItems a b
  | .set a, .set b => a.length == b.length && allWithin a b
  | .map a, .map b => a.length == b.length && allEntriesWithin a b
  | .member e m a, .member f n b => e == f && m == n && same a b
  | _, _ => false

/-- Equality item by item. -/
def sameItems : List Value → List Value → Bool
  | [], [] => true
  | a :: as, b :: bs => same a b && sameItems as bs
  | _, _ => false

/-- Whether each of the first values is among the second. -/
def allWithin : List Value → List Value → Bool
  | [], _ => true
  | a :: as, bs => bs.any (same a) && allWithin as bs

/-- Whether each of the first entries has its key among the second, with the same value there. -/
def allEntriesWithin : List (Value × Value) → List (Value × Value) → Bool
  | [], _ => true
  | (k, v) :: rest, bs =>
    (match bs.find? (fun e => same k e.1) with
      | some (_, w) => same v w
      | none => false) && allEntriesWithin rest bs

end

/-- Values of different kinds differ. -/
theorem kind_of_same {u v : Value} (h : same u v = true) : u.kind = v.kind := by
  unfold same at h
  split at h
  case h_19 => cases h
  all_goals rfl

/-- Members of an enumeration are equal if they stand for equal values under one name. -/
theorem member_same_iff {enumeration name : String} {u v : Value} :
    (member enumeration name u).same v = true ↔ ∃ v', v = .member enumeration name v' ∧ u.same v' = true := by
  cases v with
  | member enumeration' name' v =>
    rw [same, Bool.and_eq_true, Bool.and_eq_true, beq_iff_eq, beq_iff_eq]
    constructor
    · rintro ⟨⟨rfl, rfl⟩, h⟩
      exact ⟨v, rfl, h⟩
    · rintro ⟨_, ⟨rfl, rfl, rfl⟩, h⟩
      exact ⟨⟨rfl, rfl⟩, h⟩
  | _ => simp [same]

/-! ### Sets -/

/-- Whether a value is among others. -/
def isAmong (v : Value) (items : List Value) : Bool := items.any (same v)

/-- A set with one more member, unless it has it already. -/
def insertItem (items : List Value) (v : Value) : List Value := if v.isAmong items then items else items ++ [v]

/-- The members of a list, each where it first occurs. -/
def distinct (items : List Value) : List Value := items.foldl insertItem []

/-- Whether no value occurs twice. -/
def allDistinct : List Value → Bool
  | [] => true
  | v :: rest => !v.isAmong rest && allDistinct rest

/-! ### Maps -/

/-- A map with a value for a key: an old key keeps its place and its form. -/
def insertEntry (key value : Value) : List (Value × Value) → List (Value × Value)
  | [] => [(key, value)]
  | (k, v) :: rest => if same key k then (k, value) :: rest else (k, v) :: insertEntry key value rest

/-- The map of some entries, the last of equal keys counting. -/
def entriesOf (entries : List (Value × Value)) : List (Value × Value) :=
  entries.foldl (fun map (k, v) => insertEntry k v map) []

end Conform.Value

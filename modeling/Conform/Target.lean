import Conform.Enumeration
import Conform.Value.Text

/-!
Targets of conversion: the kinds of values, single enumerations, and entities, which are maps that a
schema reads. An entity is named by its place among the schemas built so far, or by a reference that
is filled in later.
-/

namespace Conform

/-- A reference to an entity: the slot that will hold its schema, and its name. -/
structure Reference where
  slot : Nat
  name : String
deriving DecidableEq

/-- What a value may be converted to. -/
inductive Target
  | any
  | null
  | bool
  | int
  | float
  | decimal
  | str
  | bytes
  | date
  | time
  | datetime
  | duration
  | uuid
  | list
  | tuple
  | set
  | map
  | enum (enumeration : Enumeration)
  | entity (index : Nat) (name : String)
  | reference (reference : Reference)

namespace Target

/-- The kind of the values of a target; an entity's are maps. -/
def kind? : Target → Option Kind
  | .any => none
  | .null => some .null
  | .bool => some .bool
  | .int => some .int
  | .float => some .float
  | .decimal => some .decimal
  | .str => some .str
  | .bytes => some .bytes
  | .date => some .date
  | .time => some .time
  | .datetime => some .datetime
  | .duration => some .duration
  | .uuid => some .uuid
  | .list => some .list
  | .tuple => some .tuple
  | .set => some .set
  | .map => some .map
  | .enum _ => some .enum
  | .entity .. => some .map
  | .reference _ => some .map

/-- The name of the target, as messages show it. -/
def name : Target → String
  | .enum e => e.name
  | .entity _ name => name
  | .reference r => r.name
  | t => match t.kind? with
    | some k => k.name
    | none => "any"

/-- The name, with a mark on entities. -/
def text : Target → String
  | .entity _ name => "Object(" ++ name ++ ")"
  | .reference r => "Ref(" ++ r.name ++ ")"
  | t => t.name

/-! ### Fit -/

/-- Whether a value already belongs to the target. -/
def isExact (t : Target) (v : Value) : Bool :=
  match t, v with
  | .any, _ => true
  | .enum e, .member enumeration _ _ => enumeration == e.name
  | .enum _, _ => false
  | t, v => t.kind? == some v.kind

/-- Whether a value may be converted where casts must be implicit: to its own kind, from truth values
    and integers to wider numbers, from a time with date to its date, and from a member to what it
    stores. -/
def isSubtype (t : Target) (v : Value) : Bool :=
  match t.kind? with
  | none => true
  | some target =>
    v.kind == target ||
      match v, target with
      | .bool _, .int | .bool _, .float | .bool _, .decimal => true
      | .int _, .float | .int _, .decimal => true
      | .datetime _, .date | .instant _, .date => true
      | .member _ _ w, _ => w.kind == target
      | _, _ => false

/-! ### Equality -/

/-- Equality of targets: enumerations by their members, entities by their place, references by name. -/
def same : Target → Target → Bool
  | .enum e, .enum f => e.same f
  | .entity i _, .entity j _ => i == j
  | .reference r, .reference s => r.name == s.name
  | .enum _, _ | .entity .., _ | .reference _, _ => false
  | _, .enum _ | _, .entity .. | _, .reference _ => false
  | t, u => t.kind? == u.kind?

/-! ### Names -/

/-- The target of the values that an enumeration stores, as its first member tells: a text where it is
    neither a number nor bytes. -/
def ofStored? (e : Enumeration) : Option Target :=
  e.members.head?.map fun (_, v) =>
    match v.kind with
    | .bool => .bool
    | .int => .int
    | .float => .float
    | .decimal => .decimal
    | .bytes => .bytes
    | _ => .str

/-- The names of the targets that need no declaration. -/
def named : List (String × Target) :=
  [("any", .any), ("null", .null), ("none", .null), ("bool", .bool), ("boolean", .bool), ("int", .int),
    ("integer", .int), ("float", .float), ("number", .float), ("decimal", .decimal), ("str", .str),
    ("string", .str), ("bytes", .bytes), ("date", .date), ("time", .time), ("datetime", .datetime),
    ("duration", .duration), ("timedelta", .duration), ("uuid", .uuid), ("list", .list), ("array", .list),
    ("tuple", .tuple), ("set", .set), ("map", .map), ("dict", .map), ("object", .map)]

def lowerAscii (s : String) : String := String.ofList (s.toList.map Char.toLower)

/-- The target with the given name, in either case. -/
def ofName? (s : String) : Option Target := (named.find? (·.1 == lowerAscii s)).map Prod.snd

/-- Why a name is none of a target. -/
def unknownMessage (s : String) : String := "unknown type " ++ Text.quoted (lowerAscii s)

end Target

end Conform

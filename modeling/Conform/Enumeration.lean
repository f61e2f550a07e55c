import Conform.Value.Order

/-!
Enumerations: closed sets of named members, each storing a value. A value is looked up by what the
members store, numbers of different kinds counting as equal.
-/

namespace Conform

/-- The name of an enumeration and its members with their stored values, in order. -/
structure Enumeration where
  name : String
  members : List (String × Value)

namespace Enumeration

/-- A member as a value. -/
def toValue (e : Enumeration) (member : String × Value) : Value := .member e.name member.1 member.2

/-- The first member with the given name. -/
def member? (e : Enumeration) (name : String) : Option Value :=
  (e.members.find? (·.1 == name)).map e.toValue

/-- The first member that stores the given value. -/
def lookup? (e : Enumeration) (v : Value) : Option Value :=
  (e.members.find? (·.2.equivalent v)).map e.toValue

/-- The same name and the same members in the same order. -/
def same (e f : Enumeration) : Bool :=
  e.name == f.name && e.members.map Prod.fst == f.members.map Prod.fst &&
    Value.sameItems (e.members.map Prod.snd) (f.members.map Prod.snd)

end Enumeration

end Conform

import Conform.Numeric.Binary64

/-!
JSON documents. The members of an object are kept in the order of their keys, each key once. An
integer is one that 64 bits hold, signed or unsigned; every other number is a float.
-/

namespace Conform

/-- A JSON document. -/
inductive Json
  | null
  | bool (b : Bool)
  | integer (i : Int)
  | float (x : Binary64)
  | string (s : String)
  | array (items : List Json)
  | object (members : List (String × Json))

namespace Json

instance : Inhabited Json := ⟨.null⟩

/-- The members with one more, in its place; a member of the same key is replaced. -/
def insertMember {α : Type} (key : String) (value : α) : List (String × α) → List (String × α)
  | [] => [(key, value)]
  | (k, v) :: rest =>
    if key < k then (key, value) :: (k, v) :: rest
    else if key = k then (key, value) :: rest
    else (k, v) :: insertMember key value rest

/-- Members in the order of their keys, the last of equal keys. -/
def sortMembers {α : Type} (members : List (String × α)) : List (String × α) :=
  members.foldl (fun sorted (k, v) => insertMember k v sorted) []

def member? (key : String) : Json → Option Json
  | .object members => members.lookup key
  | _ => none

end Json

end Conform

import Conform.Value.Text

/-!
Records: values under names, each name once, in the order in which the names came in.
-/

namespace Conform

/-- Values under names. -/
abbrev Record := List (String × Value)

namespace Record

/-- The value of a name. -/
def get? (r : Record) (name : String) : Option Value := r.lookup name

def has (r : Record) (name : String) : Bool := r.any (·.1 == name)

/-- The record with a value under a name; an old name keeps its place. -/
def insert (r : Record) (name : String) (v : Value) : Record :=
  match r with
  | [] => [(name, v)]
  | (n, w) :: rest => if n = name then (n, v) :: rest else (n, w) :: insert rest name v

/-- The record with the entries of another; the other counts where both have a name. -/
def insertAll (r more : Record) : Record := more.foldl (fun r (name, v) => insert r name v) r

/-- The record without a name. -/
def erase (r : Record) (name : String) : Record := r.filter (·.1 != name)

def names (r : Record) : List String := r.map Prod.fst

/-- The record of a map, each key by its text. -/
def ofEntries (entries : List (Value × Value)) : Record :=
  entries.foldl (fun r (k, v) => insert r k.key v) []

/-- The record with its names in the order of a list, and those that are not in it last, as they were. -/
def arranged (order : List String) (r : Record) : Record :=
  r.mergeSort fun a b => order.idxOf a.1 ≤ order.idxOf b.1

end Record

end Conform

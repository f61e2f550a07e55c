import Conform.Value

/-!
Fingerprints: what of a value a table of values may go by to find it again. Values that are equal as data
have one fingerprint, however they are written: zeros lose their sign, decimals their trailing zeros,
instants their offset. Sets and maps are equal in any order, so only their sizes count.
-/

namespace Conform

/-- A part of a fingerprint. -/
inductive Mark
  | null
  | bool (b : Bool)
  | int (i : Int64)
  | float (x : Binary64)
  | decimal (d : Decimal)
  | str (s : String)
  | bytes (bytes : List UInt8)
  | date (d : Date)
  | time (t : Time)
  | datetime (t : DateTime)
  | instant (utc : DateTime)
  | duration (d : Duration)
  | uuid (u : Uuid)
  | list (size : Nat)
  | tuple (size : Nat)
  | set (size : Nat)
  | map (size : Nat)
  | member (enumeration name : String)
deriving DecidableEq

/-- One of the floats that are equal as data. -/
def Binary64.representative (x : Binary64) : Binary64 :=
  if x.isZero then zero false else if x.isNaN then nan else x

namespace Value

mutual

/-- The fingerprint of a value. -/
def fingerprint : Value → List Mark
  | .null => [.null]
  | .bool b => [.bool b]
  | .int i => [.int i]
  | .float x => [.float x.representative]
  | .decimal d => [.decimal d.normalized]
  | .str s => [.str s]
  | .bytes bs => [.bytes bs]
  | .date d => [.date d]
  | .time t => [.time t]
  | .datetime t => [.datetime t]
  | .instant t => [.instant t.utc]
  | .duration d => [.duration d]
  | .uuid u => [.uuid u]
  | .list items => .list items.length :: fingerprints items
  | .tuple items => .tuple items.length :: fingerprints items
  | .set items => [.set items.length]
  | .map entries => [.map entries.length]
  | .member enumeration name v => .member enumeration name :: v.fingerprint

/-- The fingerprints of values in turn. -/
def fingerprints : List Value → List Mark
  | [] => []
  | v :: rest => v.fingerprint ++ fingerprints rest

end

end Value

end Conform

import Conform.Calendar.Time
import Conform.Numeric.Binary64
import Conform.Numeric.Decimal
import Conform.Uuid

/-!
Values. Loosely typed input and strictly typed output are values of the same type: scalars, lists,
tuples, sets and maps in the order of insertion, and members of enumerations.
-/

namespace Conform

/-! ### Kinds -/

/-- The kind of a value. -/
inductive Kind
  | null
  | bool
  | int
  | float
  | decimal
  | str
  | bytes
  | date
  | time
  | datetime
  | duration
  | uuid
  | list
  | tuple
  | set
  | map
  | enum
deriving DecidableEq

namespace Kind

/-- The name of the kind. -/
def name : Kind → String
  | .null => "null"
  | .bool => "bool"
  | .int => "int"
  | .float => "float"
  | .decimal => "decimal"
  | .str => "str"
  | .bytes => "bytes"
  | .date => "date"
  | .time => "time"
  | .datetime => "datetime"
  | .duration => "duration"
  | .uuid => "uuid"
  | .list => "list"
  | .tuple => "tuple"
  | .set => "set"
  | .map => "map"
  | .enum => "enum"

def all : List Kind :=
  [.null, .bool, .int, .float, .decimal, .str, .bytes, .date, .time, .datetime, .duration, .uuid, .list,
    .tuple, .set, .map, .enum]

def ofName? (name : String) : Option Kind := all.find? (·.name == name)

def isNumeric (k : Kind) : Bool := k == .int || k == .float || k == .decimal

def isText (k : Kind) : Bool := k == .str || k == .bytes

def isTemporal (k : Kind) : Bool := k == .date || k == .time || k == .datetime || k == .duration

def isSequence (k : Kind) : Bool := k == .list || k == .tuple || k == .set

/-- Kinds whose values have a length. -/
def isSized (k : Kind) : Bool := k.isText || k.isSequence || k == .map

/-- Kinds whose values have a bound above or below. -/
def isOrdered (k : Kind) : Bool := k.isNumeric || k.isText || k.isTemporal || k == .uuid

end Kind

/-! ### Values -/

/-- An integer of 64 bits, if it is in range. -/
def int64? (i : Int) : Option Int64 := if Int64.minValue.toInt ≤ i ∧ i ≤ Int64.maxValue.toInt then some (.ofInt i) else none

/-- A value. A member of an enumeration carries the names of both and the stored value. -/
inductive Value
  | null
  | bool (b : Bool)
  | int (i : Int64)
  | float (x : Binary64)
  | decimal (d : Decimal)
  | str (s : String)
  | bytes (bytes : List UInt8)
  | date (d : Date)
  | time (t : Time)
  | datetime (t : DateTime)
  | instant (t : OffsetDateTime)
  | duration (d : Duration)
  | uuid (u : Uuid)
  | list (items : List Value)
  | tuple (items : List Value)
  | set (items : List Value)
  | map (entries : List (Value × Value))
  | member (enumeration name : String) (value : Value)

namespace Value

instance : Inhabited Value := ⟨.null⟩

/-- The kind of a value; an instant is a date with a time. -/
def kind : Value → Kind
  | .null => .null
  | .bool _ => .bool
  | .int _ => .int
  | .float _ => .float
  | .decimal _ => .decimal
  | .str _ => .str
  | .bytes _ => .bytes
  | .date _ => .date
  | .time _ => .time
  | .datetime _ => .datetime
  | .instant _ => .datetime
  | .duration _ => .duration
  | .uuid _ => .uuid
  | .list _ => .list
  | .tuple _ => .tuple
  | .set _ => .set
  | .map _ => .map
  | .member .. => .enum

def isNull : Value → Bool
  | .null => true
  | _ => false

/-- The number of characters, bytes, items or entries. -/
def size? : Value → Option Nat
  | .str s => some s.length
  | .bytes bs => some bs.length
  | .list items | .tuple items | .set items => some items.length
  | .map entries => some entries.length
  | _ => none

/-- The items of a list, a tuple or a set. -/
def items? : Value → Option (List Value)
  | .list items | .tuple items | .set items => some items
  | _ => none

/-- Nothing, zero and what is empty is not truthy; a member is as its stored value. -/
def truthy : Value → Bool
  | .null => false
  | .bool b => b
  | .int i => i != 0
  | .float x => !x.isZero
  | .decimal d => !d.isZero
  | .str s => !s.isEmpty
  | .bytes bs => !bs.isEmpty
  | .duration d => !d.isZero
  | .list items | .tuple items | .set items => !items.isEmpty
  | .map entries => !entries.isEmpty
  | .member _ _ v => v.truthy
  | _ => true

/-- The stored value of a member, however often members are nested; any other value itself. -/
def stored : Value → Value
  | .member _ _ v => v.stored
  | v => v

/-- A natural number, as a decimal where 64 bits do not hold it. -/
def ofNat (n : Nat) : Value :=
  match int64? n with
  | some i => .int i
  | none => .decimal (Decimal.ofInt n)

end Value

end Conform

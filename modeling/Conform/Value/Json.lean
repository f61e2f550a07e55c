import Conform.Value.Equality
import Conform.Value.Text
import Conform.Json.Basic

/-!
Values and JSON documents. Reading keeps the shape of a document; writing turns what JSON lacks into
strings, the seconds of a duration into a number, and what is no finite number into null.
-/

namespace Conform

open Text (Utf8.decodeLossy)

/-! ### From a document -/

mutual

/-- A document as a value. An unsigned integer beyond 64 bits with sign is a decimal. -/
def Json.toValue : Json → Value
  | .null => .null
  | .bool b => .bool b
  | .integer i => match int64? i with
    | some n => .int n
    | none => .decimal (Decimal.ofInt i)
  | .float x => .float x
  | .string s => .str s
  | .array items => .list (Json.toValues items)
  | .object members => .map (Json.toEntries members)

def Json.toValues : List Json → List Value
  | [] => []
  | j :: rest => j.toValue :: Json.toValues rest

def Json.toEntries : List (String × Json) → List (Value × Value)
  | [] => []
  | (k, j) :: rest => (.str k, j.toValue) :: Json.toEntries rest

end

namespace Json

theorem toValues_eq (items : List Json) : toValues items = items.map toValue := by
  induction items with
  | nil => rfl
  | cons j rest ih => rw [toValues, ih, List.map_cons]

theorem toEntries_eq (members : List (String × Json)) :
    toEntries members = members.map fun m => (.str m.1, m.2.toValue) := by
  induction members with
  | nil => rfl
  | cons m rest ih => rw [toEntries, ih, List.map_cons]

theorem toValue_array (items : List Json) : (array items).toValue = .list (items.map toValue) := by
  rw [toValue, toValues_eq]

theorem toValue_object (members : List (String × Json)) :
    (object members).toValue = .map (members.map fun m => (.str m.1, m.2.toValue)) := by
  rw [toValue, toEntries_eq]

end Json

/-! ### To a document -/

/-- A finite number; anything else is null. -/
def Json.ofBinary64 (x : Binary64) : Json := if x.isFinite then .float x else .null

/-- A duration in seconds, from its microseconds where 64 bits hold them. -/
def Duration.seconds64 (d : Duration) : Binary64 :=
  match d.micros? with
  | some us => (Binary64.ofInt us).div (Binary64.ofNat 1000000)
  | none => Binary64.ofInt d.seconds

mutual

/-- The document of a value; what JSON has no form for becomes a string. -/
def Value.toJson : Value → Json
  | .null => .null
  | .bool b => .bool b
  | .int i => .integer i.toInt
  | .float x => Json.ofBinary64 x
  | .duration d => Json.ofBinary64 d.seconds64
  | .str s => .string s
  | .bytes bs => .string (String.ofList (Utf8.decodeLossy bs))
  | .list items | .tuple items | .set items => .array (Value.toJsons items)
  | .map entries => .object (Json.sortMembers (Value.toMembers entries))
  | .member _ _ v => v.toJson
  | .decimal d => .string (String.ofList d.text)
  | .date d => .string (String.ofList d.text)
  | .time t => .string (String.ofList t.text)
  | .datetime t => .string (String.ofList t.text)
  | .instant t => .string (String.ofList t.text)
  | .uuid u => .string (String.ofList u.text)

def Value.toJsons : List Value → List Json
  | [] => []
  | v :: rest => v.toJson :: Value.toJsons rest

def Value.toMembers : List (Value × Value) → List (String × Json)
  | [] => []
  | (k, v) :: rest => (k.key, v.toJson) :: Value.toMembers rest

end

namespace Value

theorem toJsons_eq (items : List Value) : toJsons items = items.map toJson := by
  induction items with
  | nil => rfl
  | cons v rest ih => rw [toJsons, ih, List.map_cons]

theorem toMembers_eq (entries : List (Value × Value)) :
    toMembers entries = entries.map fun e => (e.1.key, e.2.toJson) := by
  induction entries with
  | nil => rfl
  | cons e rest ih => rw [toMembers, ih, List.map_cons]

theorem toJson_list (items : List Value) : (list items).toJson = .array (items.map toJson) := by
  rw [toJson, toJsons_eq]

theorem toJson_map (entries : List (Value × Value)) :
    (map entries).toJson = .object (Json.sortMembers (entries.map fun e => (e.1.key, e.2.toJson))) := by
  rw [toJson, toMembers_eq]

end Value

end Conform

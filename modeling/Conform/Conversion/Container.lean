import Conform.Conversion.Scope
import Conform.Json.Reader
import Conform.Literal
import Conform.Text.FormData
import Conform.Value.Json

/-!
Conversion to lists, tuples, sets and maps. A text that opens with a bracket is read as JSON or else
as a literal; another text is a list with commas or semicolons, or a query or a cookie.
-/

namespace Conform

/-- The value of a text in brackets: a JSON document, or else a literal. -/
def structured? (cs : List Char) : Option Value :=
  match Json.ofChars? cs with
  | some j => some j.toValue
  | none => (Literal.read cs).toOption

namespace Converter

open Scope (refuse)

/-! ### Sequences -/

/-- The parts of a text between separators. -/
def parts (separator : Char) (cs : List Char) : List Value :=
  (Text.split separator cs).map fun part => .str (String.ofList (Text.trim part))

/-- The items that a text lists: by separators, if it is not in brackets. -/
def listed (cs : List Char) : Except Mismatch (List Value) :=
  match cs with
  | [] => .ok []
  | '[' :: _ | '(' :: _ | '\x7b' :: _ =>
    match (structured? cs).bind Value.items? with
    | some items => .ok items
    | none => .error .malformedSequence
  | _ =>
    if cs.contains ',' then .ok (parts ',' cs)
    else if cs.contains ';' then .ok (parts ';' cs)
    else .ok [.str (String.ofList cs)]

/-- The items of a value; a scalar is the only item of its own sequence. -/
def items (v : Value) : Except Mismatch (List Value) :=
  match v with
  | .list items | .tuple items | .set items => .ok items
  | .null | .map _ => .error .notSequence
  | .str _ | .bytes _ =>
    match v.trimmed? with
    | some cs => listed cs
    | none => .error .invalidUtf8
  | v => .ok [v]

/-- A sequence of the target's kind; a set that drops items loses data. -/
def toSequence : Converter := fun s v t =>
  match items v with
  | .error m => refuse v t m
  | .ok items =>
    match t.kind? with
    | some .list => .ok (.list items)
    | some .tuple => .ok (.tuple items)
    | some .set => do
      unless Value.allDistinct items do s.allowLoss v t
      pure (.set (Value.distinct items))
    | _ => .error (.unsupported t.name)

/-! ### Maps -/

/-- Gathered pairs as a map: a key with one value has it bare, with several it has their list. -/
def ofGroups (groups : List (String × List String)) : Value :=
  .map <| groups.map fun (key, values) =>
    (.str key, match values with
      | [value] => .str value
      | values => .list (values.map .str))

/-- The map that a text spells: in braces, as a cookie or as a query. -/
def mapped (cs : List Char) : Except Mismatch Value :=
  match cs with
  | [] => .ok (.map [])
  | '\x7b' :: _ =>
    match structured? cs with
    | some (.map entries) => .ok (.map entries)
    | _ => .error .malformedMapping
  | _ =>
    if !cs.contains '=' then .error .notMapping
    else if cs.contains ';' && !cs.contains '&' then .ok (ofGroups (Text.FormData.gather (Text.FormData.ofCookie cs)))
    else .ok (ofGroups (Text.FormData.gather (Text.FormData.ofQuery cs)))

/-- A key and a value, given as two items. -/
def pair? : Value → Option (Value × Value)
  | .list [key, value] | .tuple [key, value] => some (key, value)
  | _ => none

/-- The map of a list of pairs, the last of equal keys counting. -/
def ofPairs (items : List Value) : Except Mismatch Value :=
  match items.mapM pair? with
  | some entries => .ok (.map (Value.entriesOf entries))
  | none => .error .notPairs

/-- The map that a text, or a sequence of pairs, spells. -/
def entries (v : Value) : Except Mismatch Value :=
  match v with
  | .str _ | .bytes _ => mapped (v.trimmed?.getD [])
  | .list items | .tuple items | .set items => ofPairs items
  | _ => .error .notMapping

/-- A map out of its text or its pairs. -/
def toMap : Converter := fun _ v t =>
  match entries v with
  | .ok map => .ok map
  | .error m => refuse v t m

end Converter

end Conform

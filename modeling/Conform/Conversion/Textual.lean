import Conform.Conversion.Scope
import Conform.Json.Writer
import Conform.Value.Json

/-!
Conversion to texts and bytes. A value becomes the text of its JSON document, without quotes where
that is a string; a float keeps a point, and a duration has its own notation. Bytes are the UTF-8 of
that text.
-/

namespace Conform.Converter

open Scope (refuse)

/-- A float as JSON writes numbers; what JSON lacks keeps its own text. -/
def floatText (x : Binary64) : String :=
  String.ofList (if x.isFinite then Binary64.json.text x else Binary64.plain.text x)

/-- The text of a document; a string is its own text. -/
def documentText : Json → String
  | .string s => s
  | j => j.text

/-- A container by its only item where data may be lost, else by its JSON text. -/
def containerText : Converter := fun s v t =>
  match v with
  | .list [_] | .tuple [_] | .set [_] => if s.forbidsLoss then .ok (.str v.toJson.text) else s.collapse v t
  | v => .ok (.str v.toJson.text)

/-- A text of anything but null; bytes that encode no text lose the malformed ones. -/
def toStr : Converter := fun s v t =>
  match v with
  | .bytes bs =>
    match Text.Utf8.decode? bs with
    | some cs => .ok (.str (String.ofList cs))
    | none => do
      s.allowLoss v t
      pure (.str (String.ofList (Text.Utf8.decodeLossy bs)))
  | .null => refuse v t .nullHasNoText
  | .float x => .ok (.str (floatText x))
  | .duration d => .ok (.str (String.ofList d.text))
  | .list _ | .tuple _ | .set _ | .map _ => containerText s v t
  | v => .ok (.str (documentText v.toJson))

/-- The bytes of what the value is as a text; a mismatch there is one of bytes. -/
def toBytes : Converter := fun s v t =>
  match toStr s v .str with
  | .ok (.str text) => .ok (.bytes (Text.Utf8.encode text.toList))
  | .ok other => refuse other t .noByteForm
  | .error (.mismatch v _ m) => .error (.mismatch v t.name m)
  | .error e => .error e

end Conform.Converter

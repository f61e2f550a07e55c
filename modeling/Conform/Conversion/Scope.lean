import Conform.Conversion.Error
import Conform.Text.Blank
import Conform.Text.Utf8

/-!
What a converter has at hand besides the value and the target: whether data may be lost, how the only
item of the value converts, and how another value would be read. Scalars of any kind are read out of
containers with one item, which loses the container.
-/

namespace Conform

/-- What a converter may call on. -/
structure Scope where
  forbidsLoss : Bool
  /-- The conversion of the value's only item, if it has just one. -/
  lone : Option (Target → Conversion)
  /-- The conversion of any value to a target that is no enumeration. -/
  reread : Value → Target → Conversion

/-- Makes a value into one of a target that it does not belong to yet. -/
abbrev Converter := Scope → Value → Target → Conversion

namespace Scope

/-- Refuses when data must not be lost. -/
def allowLoss (s : Scope) (v : Value) (t : Target) : Except ConversionError Unit :=
  if s.forbidsLoss then .error (.dataLoss v t.name) else .ok ()

/-- Refuses the value for a reason. -/
def refuse (v : Value) (t : Target) (m : Mismatch) : Conversion := .error (.mismatch v t.name m)

/-- A container with one item becomes what the item does. -/
def collapse (s : Scope) (v : Value) (t : Target) : Conversion :=
  match v, s.lone with
  | .list [_], some convert | .tuple [_], some convert | .set [_], some convert => do
    s.allowLoss v t
    convert t
  | _, _ => refuse v t .unsupportedInput

end Scope

/-- The characters of a text, or of bytes that encode one, without the blanks around them. -/
def Value.trimmed? : Value → Option (List Char)
  | .str s => some (Text.trim s.toList)
  | .bytes bs => (Text.Utf8.decode? bs).map Text.trim
  | _ => none

end Conform

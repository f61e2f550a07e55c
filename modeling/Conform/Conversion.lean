import Conform.Registry

/-!
Conversion of a value to a target by a registry. A value that belongs to the target stays; a member is
taken for what it stores, unless a member is asked for; all else is up to the converter of the target's
kind. A converter reads no part of a value but its only item, so conversion descends through lone
items alone.
-/

namespace Conform

/-- What conversions must not do. -/
structure Strictness where
  noExplicitCast : Bool
  noDataLoss : Bool
deriving DecidableEq

namespace Registry

/-- A value stored in a member counts itself, where the target is no enumeration. -/
def unwrapped (t : Target) (v : Value) : Value :=
  match t, v with
  | .enum _, v => v
  | _, .member _ _ w => w
  | _, v => v

/-- Conversion of a value whose only item converts as `lone` tells. -/
def convertAt (r : Registry) (s : Strictness) (reread : Value → Target → Conversion)
    (lone : Option (Target → Conversion)) (v : Value) (t : Target) : Conversion :=
  if t.isExact v then .ok v
  else if s.noExplicitCast && !t.isSubtype v then .error (.explicitCast v.kind t.name)
  else
    let v := unwrapped t v
    if t.isExact v then .ok v
    else match t.kind?.bind r.resolve? with
      | none => .error (.unsupported t.name)
      | some converter => converter ⟨s.noDataLoss, lone, reread⟩ v t

mutual

/-- The conversion of the only item of a value, or of what a member stores. -/
def lone? (r : Registry) (s : Strictness) (reread : Value → Target → Conversion) :
    Value → Option (Target → Conversion)
  | .list items | .tuple items | .set items => loneItem? r s reread items
  | .member _ _ v => lone? r s reread v
  | _ => none

/-- The conversion of an item that has no other beside it. -/
def loneItem? (r : Registry) (s : Strictness) (reread : Value → Target → Conversion) :
    List Value → Option (Target → Conversion)
  | [v] => some (convertAt r s reread (lone? r s reread v) v)
  | _ => none

end

/-- Conversion where other values are read as `reread` tells. -/
def convertWith (r : Registry) (s : Strictness) (reread : Value → Target → Conversion) (v : Value) (t : Target) :
    Conversion :=
  convertAt r s reread (lone? r s reread v) v t

/-- Conversion to a target that is no enumeration, which reads no other value. -/
def convertPlain (r : Registry) (s : Strictness) (v : Value) (t : Target) : Conversion :=
  convertWith r s (fun _ t => .error (.unsupported t.name)) v t

/-- The value as one of the target. -/
def convert (r : Registry) (s : Strictness) (v : Value) (t : Target) : Conversion :=
  convertWith r s (convertPlain r s) v t

end Registry

end Conform

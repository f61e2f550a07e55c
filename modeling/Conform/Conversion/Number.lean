import Conform.Conversion.Scope
import Conform.Literal
import Conform.Numeric.Decimal.Binary

/-!
Conversion to integers, floats and decimals. Numerals may have underscores between their digits and an
exponent; a duration counts its seconds, a date or a time with date the seconds since 1970. Only an
integer loses something: what stands behind the point.
-/

namespace Conform

/-! ### Readings as a number -/

/-- The number a numeral spells: an integer where 64 bits hold it, else a decimal. -/
def numeral? (cs : List Char) : Option Value :=
  let digits := cs.filter (· != '_')
  if digits.isEmpty then none
  else match integer? digits with
    | some i => some (.int i)
    | none => (Decimal.ofChars? digits).map .decimal

/-- Microseconds as a decimal number of seconds. -/
def Decimal.ofMicros (us : Int) : Decimal := ((make? (us < 0) us.natAbs 6).getD zero).normalized

/-- The seconds of a duration, or since the start of 1970; a clock without offset is taken for UTC. -/
def Value.seconds? : Value → Option Decimal
  | .duration d => d.micros?.map Decimal.ofMicros
  | .date d => some (Decimal.ofMicros (DateTime.epochMicros ⟨d, .midnight⟩))
  | .datetime t => some (Decimal.ofMicros t.epochMicros)
  | .instant t => some (Decimal.ofMicros t.utc.epochMicros)
  | _ => none

namespace Converter

open Scope (refuse)

/-! ### Integers -/

/-- The integer part of a decimal. -/
def integerOf (s : Scope) (v : Value) (t : Target) (d : Decimal) : Conversion := do
  unless d.isIntegral do s.allowLoss v t
  match int64? d.truncated with
  | some i => pure (.int i)
  | none => refuse v t .outOfRange

/-- An integer loses a fraction of what it is made of, and nothing else; it must fit in 64 bits. -/
def toInt : Converter := fun s v t =>
  match v with
  | .bool b => .ok (.int (.ofInt b.toInt))
  | .float x =>
    match x.truncated? with
    | none => refuse v t .notFinite
    | some n => do
      unless x.isIntegral do s.allowLoss v t
      match int64? n with
      | some i => pure (.int i)
      | none => refuse v t .outOfRange
  | .decimal d => integerOf s v t d
  | .str _ | .bytes _ =>
    match v.trimmed?.bind numeral? with
    | some (.int i) => .ok (.int i)
    | some (.decimal d) => integerOf s v t d
    | _ => refuse v t .notInteger
  | .duration _ | .date _ | .datetime _ | .instant _ =>
    match v.seconds? with
    | some d => integerOf s v t d
    | none => refuse v t .outOfRange
  | v => s.collapse v t

/-! ### Floats -/

/-- A float is the nearest one; rounding is no loss of data. -/
def toFloat : Converter := fun s v t =>
  match v with
  | .bool b => .ok (.float (Binary64.ofNat b.toNat))
  | .int i => .ok (.float (Binary64.ofInt i.toInt))
  | .decimal d => .ok (.float d.toBinary64)
  | .str _ | .bytes _ =>
    match v.trimmed?.bind fun cs => Binary64.ofChars? (cs.filter (· != '_')) with
    | some x => .ok (.float x)
    | none => refuse v t .notNumber
  | .duration _ | .date _ | .datetime _ | .instant _ =>
    match v.seconds? with
    | some d => .ok (.float d.toBinary64)
    | none => refuse v t .outOfRange
  | v => s.collapse v t

/-! ### Decimals -/

/-- A number read from a numeral, as a decimal. -/
def decimalOf (v : Value) (t : Target) : Option Value → Conversion
  | some (.int i) => .ok (.decimal (Decimal.ofInt i.toInt))
  | some (.decimal d) => .ok (.decimal d)
  | _ => refuse v t .notDecimal

/-- A decimal of a number, a numeral or a time in seconds. -/
def toDecimal : Converter := fun s v t =>
  match v with
  | .bool b => .ok (.decimal (Decimal.ofInt b.toNat))
  | .int i => .ok (.decimal (Decimal.ofInt i.toInt))
  | .float x =>
    match Decimal.ofBinary64? x with
    | some d => .ok (.decimal d)
    | none => refuse v t .notFinite
  | .str _ | .bytes _ => decimalOf v t (v.trimmed?.bind numeral?)
  | .duration _ | .date _ | .datetime _ | .instant _ =>
    match v.seconds? with
    | some d => .ok (.decimal d)
    | none => refuse v t .outOfRange
  | v => s.collapse v t

end Converter

end Conform

import Conform.Target

/-!
Why a conversion fails: the value has no reading as the target, a cast was not asked for, data would
be lost, or nothing converts to the target.
-/

namespace Conform

/-- Why a value has no reading as the target. -/
inductive Mismatch
  | unsupportedInput
  | notNull
  | notBoolean
  | outOfRange
  | notFinite
  | notInteger
  | notNumber
  | notDecimal
  | nullHasNoText
  | noByteForm
  | notUuid
  | notMember
  | timestampOutOfRange
  | unrecognizedDate
  | unrecognizedTime
  | unrecognizedDateTime
  | unrecognizedDuration
  | durationOutOfRange
  | notWithinDay
  | notSequence
  | invalidUtf8
  | malformedSequence
  | notMapping
  | malformedMapping
  | notPairs
  | tooFewItems (arity : Nat)
  | other (reason : String)
deriving DecidableEq

/-- The mismatch in words. -/
def Mismatch.reason : Mismatch → String
  | .unsupportedInput => "unsupported input"
  | .notNull => "not a null value"
  | .notBoolean => "not a boolean word"
  | .outOfRange => "out of range"
  | .notFinite => "not a finite number"
  | .notInteger => "not an integer"
  | .notNumber => "not a number"
  | .notDecimal => "not a decimal"
  | .nullHasNoText => "null has no text form"
  | .noByteForm => "no byte form"
  | .notUuid => "not a uuid"
  | .notMember => "not a member"
  | .timestampOutOfRange => "timestamp out of range"
  | .unrecognizedDate => "unrecognized date"
  | .unrecognizedTime => "unrecognized time"
  | .unrecognizedDateTime => "unrecognized datetime"
  | .unrecognizedDuration => "unrecognized duration"
  | .durationOutOfRange => "duration out of range"
  | .notWithinDay => "not within one day"
  | .notSequence => "not a sequence"
  | .invalidUtf8 => "invalid utf-8"
  | .malformedSequence => "malformed sequence text"
  | .notMapping => "not a mapping"
  | .malformedMapping => "malformed mapping text"
  | .notPairs => "items are not key-value pairs"
  | .tooFewItems arity => s!"expected {arity} items"
  | .other reason => reason

/-- Why a conversion to the named target fails. -/
inductive ConversionError
  | mismatch (value : Value) (target : String) (mismatch : Mismatch)
  | explicitCast (kind : Kind) (target : String)
  | dataLoss (value : Value) (target : String)
  | unsupported (target : String)

namespace ConversionError

/-- The error in words. -/
def message : ConversionError → String
  | .mismatch v target m => "cannot convert " ++ v.text ++ " to " ++ target ++ ": " ++ m.reason
  | .explicitCast kind target => "explicit cast from " ++ kind.name ++ " to " ++ target ++ " is not allowed"
  | .dataLoss v target => "converting " ++ v.text ++ " to " ++ target ++ " would lose data"
  | .unsupported target => "no transformer registered for " ++ target

end ConversionError

/-- What becomes of a value under conversion. -/
abbrev Conversion := Except ConversionError Value

end Conform

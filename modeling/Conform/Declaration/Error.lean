import Conform.Rule
import Conform.Conversion.Error

/-!
Why a declaration of a rule, a field or a schema is refused.
-/

namespace Conform

/-- Why the value of a constraint is refused. -/
inductive OperandFault
  | declaredTwice
  | conversion (e : ConversionError)
  | notValues
  | notPositive
  | notBoolean
  | notPatternOrRule
  | notCount
  | boundsCross
  | belowMinLength
  | outsideLengths
  | exceedsMaxDigits
  | requiresContains
  | belowMinContains

/-- The fault in words. -/
def OperandFault.reason : OperandFault → String
  | .declaredTwice => "declared more than once"
  | .conversion e => e.message
  | .notValues => "expected a non-empty list of values"
  | .notPositive => "expected a positive number"
  | .notBoolean => "expected a boolean"
  | .notPatternOrRule => "expected a pattern or rule"
  | .notCount => "expected a non-negative integer"
  | .boundsCross => "upper bound is below the lower bound"
  | .belowMinLength => "below min_length"
  | .outsideLengths => "outside min_length..max_length"
  | .exceedsMaxDigits => "exceeds max_digits"
  | .requiresContains => "requires contains"
  | .belowMinContains => "below min_contains"

/-- Why a declaration is refused. -/
inductive DeclarationError
  | exclusiveConstraints (first second : Keyword)
  | unsupportedConstraint (keyword : Keyword) (target : String)
  | invalidOperand (keyword : Keyword) (value : Value) (fault : OperandFault)
  | noLaxForm (keyword : Keyword)
  | invalidPattern (pattern : String)
  | emptyLogic (op : Combinator)
  | duplicateField (name : String)
  | aliasCollision (key field other : String)
  | undeclaredDependency (field : String) (missing : List String)
  | unresolvedReference (name : String)

namespace DeclarationError

open Text (quoted quotedList)

/-- The error in words. -/
def message : DeclarationError → String
  | .exclusiveConstraints a b => "constraints " ++ a.name ++ " and " ++ b.name ++ " are mutually exclusive"
  | .unsupportedConstraint k target => "constraint " ++ k.name ++ " is not supported by type " ++ target
  | .invalidOperand k v fault =>
    "invalid value " ++ v.text ++ " for constraint " ++ k.name ++ ": " ++ fault.reason
  | .noLaxForm k => "constraint " ++ k.name ++ " has no lax form"
  | .invalidPattern p => "invalid pattern " ++ quoted p
  | .emptyLogic op => "logical rule " ++ op.name ++ " needs at least one branch"
  | .duplicateField name => "duplicate field " ++ quoted name
  | .aliasCollision key field other =>
    "alias " ++ quoted key ++ " of field " ++ quoted field ++ " collides with field " ++ quoted other
  | .undeclaredDependency field missing =>
    "field " ++ quoted field ++ " depends on undeclared fields " ++ quotedList missing
  | .unresolvedReference name => "reference " ++ quoted name ++ " was never resolved"

end DeclarationError

end Conform

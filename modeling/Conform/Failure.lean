import Conform.Constraint.Keyword
import Conform.Conversion.Error
import Conform.Route

/-!
Why a value does not conform: each failure with the route at which it arose. Failures that were
collected stand together in an aggregate, which is always flat.
-/

namespace Conform

/-- Why a value does not conform. -/
inductive Failure
  | coercion (route : Route) (value : Value) (target : String) (cause : ConversionError)
  | constraint (route : Route) (keyword : Keyword) (expected value : Value)
  | negated (route : Route) (value : Value)
  | severalMatched (route : Route) (value : Value) (matched : List Nat)
  | noneMatched (route : Route) (value : Value) (failures : List Failure)
  | absence (route : Route) (field : String)
  | aliasConflict (route : Route) (field : String) (aliases : List String)
  | missingDependencies (route : Route) (field : String) (missing : List String)
  | excess (route : Route) (keys : List String)
  | containment (route : Route) (count least : Nat) (most : Option Nat)
  | tooDeep (route : Route) (depth maxDepth : Nat)
  | immutable (route : Route) (field : String)
  | aggregate (failures : List Failure)

namespace Failure

open Text (quoted quotedList)

/-- The route of a failure; an aggregate has none of its own. -/
def route? : Failure → Option Route
  | .coercion r .. | .constraint r .. | .negated r _ | .severalMatched r .. | .noneMatched r .. | .absence r _
  | .aliasConflict r .. | .missingDependencies r .. | .excess r _ | .containment r .. | .tooDeep r ..
  | .immutable r _ => some r
  | .aggregate _ => none

/-! ### Text -/

def indexList (is : List Nat) : String := "[" ++ ", ".intercalate (is.map toString) ++ "]"

/-- The counts allowed, in words. -/
def countRange (least : Nat) : Option Nat → String
  | some most => toString least ++ "..=" ++ toString most
  | none => "at least " ++ toString least

mutual

/-- The failure in words, its route first; an aggregate has no route of its own. -/
def message : Failure → String
  | .coercion r v target cause =>
    r.text ++ ": failed to parse " ++ v.text ++ " as " ++ target ++ ": " ++ cause.message
  | .constraint r k expected v =>
    r.text ++ ": constraint " ++ k.name ++ "=" ++ expected.text ++ " violated by " ++ v.text
  | .negated r v => r.text ++ ": " ++ v.text ++ " satisfies a negated rule"
  | .severalMatched r v matched =>
    r.text ++ ": " ++ v.text ++ " matched more than one branch (" ++ indexList matched ++ ")"
  | .noneMatched r v failures =>
    r.text ++ ": " ++ v.text ++ " matched none of the branches: " ++ "; ".intercalate (messages failures)
  | .absence r field => r.text ++ ": required field " ++ quoted field ++ " is absent"
  | .aliasConflict r field aliases =>
    r.text ++ ": aliases " ++ quotedList aliases ++ " of field " ++ quoted field ++ " were all supplied"
  | .missingDependencies r field missing =>
    r.text ++ ": field " ++ quoted field ++ " depends on absent fields " ++ quotedList missing
  | .excess r keys => r.text ++ ": excess keys " ++ quotedList keys ++ " are not allowed"
  | .containment r count least most =>
    r.text ++ ": " ++ toString count ++ " items satisfy the contained rule, expected " ++ countRange least most
  | .tooDeep r depth maxDepth =>
    r.text ++ ": depth " ++ toString depth ++ " exceeds max_depth " ++ toString maxDepth
  | .immutable r field => r.text ++ ": field " ++ quoted field ++ " is immutable"
  | .aggregate failures => toString failures.length ++ " errors: " ++ "; ".intercalate (messages failures)

def messages : List Failure → List String
  | [] => []
  | f :: rest => message f :: messages rest

end

/-! ### Aggregates -/

mutual

/-- The single failures in a failure. -/
def flatten : Failure → List Failure
  | .aggregate failures => flattenAll failures
  | f => [f]

/-- The single failures in several, in order. -/
def flattenAll : List Failure → List Failure
  | [] => []
  | f :: rest => flatten f ++ flattenAll rest

end

/-- The failures together. -/
def together (failures : List Failure) : Failure := .aggregate (flattenAll failures)

/-- A failure of its own, or any other number together. -/
def ofList : List Failure → Failure
  | [f] => f
  | failures => together failures

end Failure

end Conform

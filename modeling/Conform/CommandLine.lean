import Conform.Conformance
import Conform.Json.Reader
import Conform.Json.Writer
import Conform.Rule.Declaration
import Conform.Value.Json

/-!
The command line. It names a target and a value, and perhaps bounds and other constraints; the value is
made to conform and written as JSON. Values and bounds are read as JSON where they are, and as texts
otherwise.
-/

namespace Conform

/-- What the command line asks for. -/
structure Request where
  target : Target
  value : String
  item : Option Target
  bounds : List (Keyword × String)
  minLength : Option Nat
  maxLength : Option Nat
  pattern : Option String
  lax : Bool
  noExplicitCast : Bool
  noDataLoss : Bool

/-- What a run answers: the exit code, and the texts for the standard output and for errors. -/
structure Report where
  code : Nat
  output : String
  errors : String

namespace CommandLine

/-! ### Arguments -/

/-- The options that take a value. -/
def valued : List String := ["item", "gt", "ge", "lt", "le", "min-length", "max-length", "pattern"]

/-- The options that take none. -/
def switches : List String := ["lax", "no-explicit-cast", "no-data-loss", "verbose"]

/-- What one argument is. -/
inductive Argument
  | plain (text : String)
  | option (name : String)
  | attached (name text : String)
  | unknown

/-- What an argument is by its dashes; a single dash is a plain argument. -/
def Argument.ofString (s : String) : Argument :=
  match s.toList with
  | ['-'] => .plain s
  | ['-', 'v'] => .option "verbose"
  | '-' :: '-' :: cs =>
    let name := String.ofList (cs.takeWhile (· ≠ '='))
    match cs.dropWhile (· ≠ '=') with
    | [] => .option name
    | _ :: text => .attached name (String.ofList text)
  | '-' :: _ => .unknown
  | _ => .plain s

/-- The arguments by their part. -/
structure Arguments where
  plain : List String := []
  options : List (String × String) := []
  switches : List String := []

namespace Arguments

def addPlain (a : Arguments) (s : String) : Arguments := { a with plain := a.plain ++ [s] }

/-- One more option with a value; none may come twice. -/
def addOption? (a : Arguments) (name text : String) : Option Arguments :=
  if valued.contains name && (a.options.lookup name).isNone then
    some { a with options := (name, text) :: a.options }
  else none

/-- One more option without a value; none may come twice. -/
def addSwitch? (a : Arguments) (name : String) : Option Arguments :=
  if CommandLine.switches.contains name && !a.switches.contains name then
    some { a with switches := name :: a.switches }
  else none

/-- Reads the arguments; what follows `--` is plain. -/
def read? (a : Arguments) : List String → Option Arguments
  | [] => some a
  | "--" :: rest => some { a with plain := a.plain ++ rest }
  | s :: rest =>
    match Argument.ofString s with
    | .plain text => (a.addPlain text).read? rest
    | .attached name text => do (← a.addOption? name text).read? rest
    | .unknown => none
    | .option name =>
      if valued.contains name then
        match rest with
        | t :: rest => match Argument.ofString t with
          | .plain text => do (← a.addOption? name text).read? rest
          | _ => none
        | [] => none
      else do (← a.addSwitch? name).read? rest

/-! ### Requests -/

/-- The value of an option, where it is given. -/
def option? {α : Type} (a : Arguments) (name : String) (read? : String → Option α) : Option (Option α) :=
  match a.options.lookup name with
  | none => some none
  | some text => (read? text).map some

def bound? (a : Arguments) (keyword : Keyword) : Option (Keyword × String) :=
  (a.options.lookup keyword.name).map (keyword, ·)

/-- A natural number of 64 bits, perhaps with a plus sign. -/
def count? (s : String) : Option Nat :=
  let digits := match s.toList with
    | '+' :: cs => cs
    | cs => cs
  if digits.isEmpty || !digits.all Char.isDigit then none
  else
    let n := Digits.toNat digits
    if n < twoTo 64 then some n else none

/-- What is asked for, if the two plain arguments are there and every option has a fitting value. -/
def request? (a : Arguments) : Option Request :=
  match a.plain with
  | [target, value] => do
    pure
      { target := ← Target.ofName? target
        value := value
        item := ← a.option? "item" Target.ofName?
        bounds := [Keyword.gt, .ge, .lt, .le].filterMap a.bound?
        minLength := ← a.option? "min-length" count?
        maxLength := ← a.option? "max-length" count?
        pattern := a.options.lookup "pattern"
        lax := a.switches.contains "lax"
        noExplicitCast := a.switches.contains "no-explicit-cast"
        noDataLoss := a.switches.contains "no-data-loss" }
  | _ => none

end Arguments

/-! ### Answers -/

/-- JSON as it is, and all else as a text. -/
def valueOf (raw : String) : Value :=
  match Json.ofString? raw with
  | some j => j.toValue
  | none => .str raw

end CommandLine

namespace Request

open CommandLine

/-- The constraints asked for. A least length is never lax. -/
def constraints (r : Request) : List Declared :=
  r.bounds.map (fun (k, raw) => .value k (valueOf raw) r.lax) ++
    r.minLength.toList.map (fun n => .value .minLength (.ofNat n) false) ++
    r.maxLength.toList.map (fun n => .value .maxLength (.ofNat n) r.lax) ++
    r.pattern.toList.map .pattern

/-- The rule asked for. -/
def rule (r : Request) : Declaring Rule :=
  Rule.declare r.target (r.item.toList.map Rule.of) r.constraints none none none

def options (r : Request) : Options :=
  { noExplicitCast := some r.noExplicitCast, noDataLoss := some r.noDataLoss }

/-- The outcome: the value on the output, or the fault on the error output with code 1. -/
def report (r : Request) : Report :=
  match r.rule with
  | .error e => ⟨1, "", "Invalid rule: " ++ e.message ++ "\n"⟩
  | .ok rule =>
    match (Catalog.apply {} rule (valueOf r.value) r.options .none).1 with
    | .ok v => ⟨0, v.toJson.pretty ++ "\n", ""⟩
    | .error f => ⟨1, "", f.message ++ "\n"⟩

end Request

/-- The answer to the arguments of a command line, if they make sense. -/
def CommandLine.report? (args : List String) : Option Report := do
  let arguments ← Arguments.read? {} args
  pure (← arguments.request?).report

end Conform

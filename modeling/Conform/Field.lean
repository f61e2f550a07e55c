import Conform.Record
import Conform.Rule.Reading

/-!
Fields. A field is a name under which a schema expects a value, the keys under which it also accepts one,
the rule for the value, and what holds of it: its default, whether it is required, where it is seen, and
on which other fields it depends.
-/

namespace Conform

/-! ### Modes -/

/-- Whether a text is part of another. -/
def isPartOf (part : List Char) : List Char → Bool
  | [] => part.isEmpty
  | c :: rest => part.isPrefixOf (c :: rest) || isPartOf part rest

/-- Whether a mode is among some modes, which are written one after the other. -/
def isMode (modes mode : String) : Bool := isPartOf mode.toList modes.toList

/-! ### Parts of fields -/

/-- The default of a field: a value, or what a factory makes when it is called once more. -/
inductive Default
  | value (v : Value)
  | factory (mark : Nat) (make : Nat → Value)

namespace Default

/-- A value, and the count of the calls that it took. -/
def produce (d : Default) (calls : Calls) : Value × Calls :=
  match d with
  | .value v => (v, calls)
  | .factory mark make => (make (calls mark), calls.next mark)

def text : Default → String
  | .value v => v.text
  | .factory .. => "<factory>"

end Default

/-- When a field takes no input or gives no output. -/
inductive Gate
  | flag (on : Bool)
  | modes (names : String)
  | predicate (holds : Value → Bool)

/-- Whether the gate is shut. Without a current mode, one that names modes is not. -/
def Gate.applies (g : Gate) (mode : Option String) (v : Option Value) : Bool :=
  match g with
  | .flag on => on
  | .modes names => mode.any (isMode names)
  | .predicate holds => v.any holds

/-- When a field is required. -/
inductive Requirement
  | flag (on : Bool)
  | modes (names : String)

namespace Requirement

/-- Whether it is required. Without a current mode, one that names modes is. -/
def applies (r : Requirement) (mode : Option String) : Bool :=
  match r with
  | .flag on => on
  | .modes names => mode.all (isMode names)

def text : Requirement → String
  | .flag on => "Flag(" ++ (if on then "true" else "false") ++ ")"
  | .modes names => "Mode(" ++ Text.quoted names ++ ")"

end Requirement

/-- The choice of a rule by the value of another field. -/
structure Discriminator where
  field : String
  mapping : List (Value × Rule)

/-- The rule for a value of the other field, a member counting as what it stores. -/
def Discriminator.select? (d : Discriminator) (v : Value) : Option Rule :=
  let key := match v with
    | .member _ _ w => w
    | _ => v
  (d.mapping.find? (·.1.equivalent key)).map Prod.snd

/-! ### Fields -/

/-- A field of a schema. -/
structure Field where
  name : String
  rule : Rule
  aliases : List String := []
  outputRule : Option Rule := none
  default : Option Default := none
  /-- The default waits for the second pass, unless defaults are forced. -/
  deferred : Bool := false
  required : Option Requirement := none
  modes : Option String := none
  noInput : Option Gate := none
  noOutput : Option Gate := none
  immutable : Bool := false
  dependencies : List String := []
  onError : Option ErrorPolicy := none
  /-- Whether the field is deprecated, and perhaps what to use instead. -/
  deprecated : Option (Option String) := none
  caseInsensitive : Option Bool := none
  discriminator : Option Discriminator := none

namespace Field

/-- The name and the aliases, each once. -/
def keys (f : Field) : List String :=
  f.aliases.foldl (fun keys a => if keys.contains a then keys else keys ++ [a]) [f.name]

/-! ### Under options -/

/-- A new default value; a deferred one must be forced. -/
def produce (f : Field) (o : Options) (force : Bool) (calls : Calls) : Option Value × Calls :=
  match f.default with
  | none => (none, calls)
  | some d =>
    if f.deferred && !force && !o.forcesDefault then (none, calls)
    else
      let (v, calls) := d.produce calls
      (some v, calls)

/-- Without a word on it, a field is required if it has no default. -/
def isRequired (f : Field) (o : Options) : Bool :=
  !o.ignoresRequired &&
    match f.required with
    | some r => r.applies o.mode
    | none => f.default.isNone

/-- Whether the current mode is none of those in which the field is seen. -/
def isHidden (f : Field) (o : Options) : Bool :=
  match f.modes, o.mode with
  | some modes, some mode => !isMode modes mode
  | _, _ => false

/-- Whether the field ignores what the input has for it. -/
def takesNoInput (f : Field) (o : Options) (v : Option Value) : Bool :=
  f.isHidden o || f.noInput.any (·.applies o.mode v)

/-- Whether the field is left out of the output. -/
def givesNoOutput (f : Field) (o : Options) (v : Option Value) : Bool :=
  f.isHidden o || f.noOutput.any (·.applies o.mode v)

/-- What becomes of a failure in the field; its own word goes before that of the options. -/
def policy (f : Field) (o : Options) : ErrorPolicy := f.onError.getD o.fieldPolicy

/-- Whether the keys of the field match in any case; its own word goes before that of the options. -/
def ignoresCase (f : Field) (o : Options) : Bool := f.caseInsensitive.getD o.ignoresCase

/-! ### Values -/

/-- The rule for the field's value, beside the values read so far. -/
def ruleFor (f : Field) (siblings : Record) : Rule :=
  let chosen := do
    let d ← f.discriminator
    d.select? (← siblings.get? d.field)
  chosen.getD f.rule

/-- The warning about a deprecated field. -/
def deprecationMessage (f : Field) (replacement : Option String) : String :=
  "field " ++ Text.quoted f.name ++ " is deprecated" ++
    match replacement with
    | some name => ", use " ++ Text.quoted name ++ " instead"
    | none => ""

/-- Reads the field's value under its policy, beside the values read so far. -/
def parseValue (f : Field) (entities : Entities) (v : Value) (siblings : Record) : Parse Outcome := do
  match f.deprecated with
  | some replacement => Parse.warn (f.deprecationMessage replacement)
  | none => pure ()
  let policy := f.policy (← Parse.options)
  ((f.ruleFor siblings).reading entities).guarded v (.key f.name) policy

/-! ### Text -/

def optionText : Option String → String
  | some s => "Some(" ++ s ++ ")"
  | none => "None"

/-- The field with its main parts. -/
def text (f : Field) : String :=
  "Field \x7b name: " ++ Text.quoted f.name ++ ", aliases: " ++ Text.quotedList f.aliases ++ ", rule: " ++
    f.rule.text ++ ", default: " ++ optionText (f.default.map Default.text) ++ ", required: " ++
    optionText (f.required.map Requirement.text) ++ ", dependencies: " ++ Text.quotedList f.dependencies ++
    ", .. \x7d"

end Field

end Conform

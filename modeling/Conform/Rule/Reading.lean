import Conform.Parse

/-!
Reading values by rules. What a rule does to a value is a reading; that of a rule is made from the
readings of the rules inside. A rule whose origin is an entity hands its value on to the entity's
schema, so readings are relative to what is known of entities.
-/

namespace Conform

/-- What a rule does: the target it converts to first, its text, and the parse of a value. -/
structure Reading where
  origin : Option Target
  text : String
  read : Value → Parse Value

/-- What is known of an entity: its options, and how it reads its fields. -/
structure Entity where
  options : Options
  read : Value → Parse (List (String × Value))

/-- What a target leads to. -/
inductive Lookup
  | plain
  | unresolved (name : String)
  | entity (e : Entity)

/-- What is known of the entities. -/
abbrev Entities := Target → Lookup

/-! ### Values under a policy -/

/-- What a policy makes of a value. -/
inductive Outcome
  | parsed (v : Value)
  | preserved (v : Value)
  | excluded
  | collected

namespace Outcome

/-- The value to keep. -/
def value? : Outcome → Option Value
  | .parsed v | .preserved v => some v
  | .excluded | .collected => none

end Outcome

namespace Reading

def failuresText (failures : List Failure) : String := "; ".intercalate (Failure.messages failures)

/-- Takes over the warnings of a failed child, and one more. -/
def warnAbout (child : Context) (message : String) : Parse Unit := Parse.takeWarnings (child.warn message)

/-- Reads a value one step further; a failure is treated as the policy tells. -/
def guarded (r : Reading) (v : Value) (item : RouteItem) (policy : ErrorPolicy) : Parse Outcome := do
  match ← Parse.attempt (← Parse.enter item) (r.read v) with
  | (.ok w, child) =>
    Parse.absorb child
    pure (.parsed w)
  | (.error failures, child) =>
    match policy with
    | .exclude =>
      warnAbout child ("excluded invalid value: " ++ failuresText failures)
      pure .excluded
    | .preserve =>
      warnAbout child ("preserved invalid value: " ++ failuresText failures)
      pure (.preserved v)
    | .throw =>
      Parse.takeWarnings child
      Parse.collectAll failures
      pure .collected

/-- Reads an element of a value; gives what is to be kept of it. -/
def element (r : Reading) (v : Value) (item : RouteItem) (policy : ErrorPolicy) : Parse (Option Value) := do
  pure (← r.guarded v item policy).value?

/-! ### Elements -/

/-- The items of a sequence, all by one rule. -/
def items (r : Reading) (policy : ErrorPolicy) : (index : Nat) → List Value → Parse (List Value)
  | _, [] => pure []
  | index, v :: rest => do
    let kept ← r.element v (.index index) policy
    let others ← items r policy (index + 1) rest
    pure (kept.toList ++ others)

/-- The items of a tuple, each by its rule. -/
def positions (policy : ErrorPolicy) : (index : Nat) → List Reading → List Value → Parse (List Value)
  | index, r :: readings, v :: rest => do
    let kept ← r.element v (.index index) policy
    let others ← positions policy (index + 1) readings rest
    pure (kept.toList ++ others)
  | _, _, _ => pure []

/-- The entries of a map, keys by one rule and values by another. -/
def entries (key value : Reading) (keyPolicy valuePolicy : ErrorPolicy) :
    (kept rest : List (Value × Value)) → Parse (List (Value × Value))
  | kept, [] => pure kept
  | kept, (k, v) :: rest => do
    let item := RouteItem.key k.key
    match ← key.element k item keyPolicy with
    | none => entries key value keyPolicy valuePolicy kept rest
    | some k =>
      match ← value.element v item valuePolicy with
      | none => entries key value keyPolicy valuePolicy kept rest
      | some v => entries key value keyPolicy valuePolicy (Value.insertEntry k v kept) rest

/-- A tuple that does not have as many items as there are rules. -/
def tupleFailure (route : Route) (items : List Value) (cause : Value → ConversionError) : Failure :=
  .coercion route (.tuple items) "tuple" (cause (.tuple items))

/-- As many items as there are rules: too few fail, and too many are dropped where data may be lost. -/
def fitArity (arity : Nat) (items : List Value) : Parse (List Value) := do
  if items.length < arity then
    throw (tupleFailure (← Parse.route) items fun v => .mismatch v "tuple" (.tooFewItems arity))
  else if items.length = arity then pure items
  else if (← Parse.options).strictness.noDataLoss then
    throw (tupleFailure (← Parse.route) items fun v => .dataLoss v "tuple")
  else
    Parse.warn s!"dropped {items.length - arity} items beyond tuple arity {arity}"
    pure (items.take arity)

/-- A value whose elements are read by the arguments of its rule. -/
def arguments (args : List Reading) (onError : Option ErrorPolicy) (v : Value) : Parse Value := do
  let options ← Parse.options
  let itemPolicy := onError.getD options.itemPolicy
  match v, args with
  | .list vs, r :: _ => pure (.list (← r.items itemPolicy 0 vs))
  | .set vs, r :: _ => pure (.set (Value.distinct (← r.items itemPolicy 0 vs)))
  | .tuple vs, _ :: _ => pure (.tuple (← positions itemPolicy 0 args (← fitArity args.length vs)))
  | .map es, [key, value] =>
    pure (.map (← entries key value (onError.getD options.keyPolicy) (onError.getD options.valuePolicy) [] es))
  | _, _ => pure v

/-! ### Combinators -/

/-- Reads a value in an attempt at the same place. -/
def attempted (r : Reading) (v : Value) : Parse (Except (List Failure) Value × Context) := do
  Parse.attempt (← Parse.context).speculate (r.read v)

/-- Each branch reads what the one before has made of the value. -/
def allOf : List Reading → Value → Parse Value
  | [], v => pure v
  | r :: rest, v => do
    let (result, child) ← r.attempted v
    Parse.takeWarnings child
    match result with
    | .ok w => allOf rest w
    | .error failures => throw (.ofList failures)

/-- The first branch that accepts the value; else the failures of all. -/
def firstOf (v : Value) : (failures : List Failure) → List Reading → Parse Value
  | failures, [] => do throw (.noneMatched (← Parse.route) v failures)
  | failures, r :: rest => do
    match ← r.attempted v with
    | (.ok w, child) =>
      Parse.takeWarnings child
      pure w
    | (.error more, _) => firstOf v (failures ++ more) rest

/-- Whether the value belongs to the branch's origin already. -/
def isExact (v : Value) (r : Reading) : Bool := r.origin.any (·.isExact v)

/-- The first branch that accepts the value, those first whose origin it belongs to. -/
def anyOf (branches : List Reading) (v : Value) : Parse Value :=
  firstOf v [] (branches.filter (isExact v) ++ branches.filter (!isExact v ·))

/-- The only branch that accepts the value. `matched` is the branch that did so far. -/
def onlyOf (v : Value) : (index : Nat) → (matched : Option (Nat × Value × Context)) → (failures : List Failure) →
    List Reading → Parse Value
  | _, some (_, w, child), _, [] => do
    Parse.takeWarnings child
    pure w
  | _, none, failures, [] => do throw (.noneMatched (← Parse.route) v failures)
  | index, matched, failures, r :: rest => do
    match ← r.attempted v, matched with
    | (.ok _, _), some (first, _) => throw (.severalMatched (← Parse.route) v [first, index])
    | (.ok w, child), none => onlyOf v (index + 1) (some (index, w, child)) failures rest
    | (.error more, _), _ => onlyOf v (index + 1) matched (failures ++ more) rest

/-- The value itself, if no branch accepts it. -/
def noneOf : List Reading → Value → Parse Value
  | [], v => pure v
  | r :: rest, v => do
    match ← r.attempted v with
    | (.ok _, _) => throw (.negated (← Parse.route) v)
    | (.error _, _) => noneOf rest v

/-- The value by a combinator of branches. -/
def combined (l : Logic Reading) (v : Value) : Parse Value :=
  match l.op with
  | .allOf => allOf l.branches v
  | .anyOf => anyOf l.branches v
  | .oneOf => onlyOf v 0 none [] l.branches
  | .noneOf => noneOf l.branches v

/-! ### Constraints -/

/-- Fails with a constraint that the value violates. -/
def violation (c : Constraint Reading) (v : Value) : Parse (Option Value) := do
  throw (.constraint (← Parse.route) c.keyword (c.operand.map Reading.text).toValue v)

/-- Whether an item satisfies a rule without an explicit cast. -/
def satisfied (r : Reading) (v : Value) : Parse Bool := do
  let child := (← Parse.context).speculateWith { noExplicitCast := some true }
  pure (← Parse.attempt child (r.read v)).1.isOk

/-- How many items satisfy a rule. -/
def countSatisfied (r : Reading) : List Value → Parse Nat
  | [] => pure 0
  | v :: rest => do
    let holds ← r.satisfied v
    let others ← countSatisfied r rest
    pure (holds.toNat + others)

/-- The count that a constraint beside this one compares with. -/
def siblingCount? (siblings : List (Constraint Reading)) (keyword : Keyword) : Option Nat :=
  (siblings.find? (·.keyword == keyword)).map Constraint.count

/-- Fails unless as many items satisfy the rule as the constraints beside this one allow. -/
def checkContained (siblings : List (Constraint Reading)) (r : Reading) (items : List Value) :
    Parse (Option Value) := do
  let least := (siblingCount? siblings .minContains).getD 1
  let most := siblingCount? siblings .maxContains
  let count ← r.countSatisfied items
  if count < least || most.any (· < count) then
    throw (.containment (← Parse.route) count least most)
  pure none

/-- What a constraint replaces a value with, if it does not keep it. -/
def check (siblings : List (Constraint Reading)) (c : Constraint Reading) (v : Value) : Parse (Option Value) :=
  match c.keyword, c.operand with
  | .contains, .rule r => match v.items? with
    | some items => checkContained siblings r items
    | none => violation c v
  | _, _ => match c.verdict v with
    | .kept => pure none
    | .replaced w => pure (some w)
    | .violated => violation c v

/-- The value under some constraints in turn; violations are collected. -/
def constrained (siblings : List (Constraint Reading)) : List (Constraint Reading) → Value → Parse Value
  | [], v => pure v
  | c :: rest, v => do
    let replaced ← tryCatch (check siblings c v) fun f => do
      Parse.collect f
      pure none
    constrained siblings rest (replaced.getD v)

/-! ### Rules -/

/-- The value behind a hook, if there is one. -/
def hooked (hook : Option Hook) (v : Value) : Value :=
  match hook with
  | some hook => hook.run v
  | none => v

/-- The value as one of the origin; a failure is raised even where failures are collected. -/
def converted (t : Target) (v : Value) : Parse Value := do
  match (← Parse.options).convert v t with
  | .ok w => pure w
  | .error cause => throw (.coercion (← Parse.route) v t.name cause)

/-- The map of the fields that an entity reads from a value, under the entity's options. -/
def nested (e : Entity) (v : Value) : Parse Value := do
  let (result, child) ← Parse.within ((← Parse.context).speculateWith e.options) (e.read v)
  Parse.absorb child
  match result with
  | .ok fields => pure (.map (fields.map fun (k, w) => (.str k, w)))
  | .error f => throw f

/-- The value as one of the origin, read on by its schema if the origin is an entity. -/
def ofOrigin (entities : Entities) (t : Target) (v : Value) : Parse Value := do
  let v ← converted t v
  match entities t with
  | .plain => pure v
  | .unresolved name =>
    throw (.coercion (← Parse.route) v t.name (.unsupported ("unresolved reference " ++ name)))
  | .entity e => nested e v

/-- What a layer of readings does to a value. -/
def readLayer (entities : Entities) (l : Layer Reading) (v : Value) : Parse Value := do
  let v := hooked l.before v
  let v ← match l.origin with
    | some t => ofOrigin entities t v
    | none => pure v
  let v ← arguments l.args l.onError v
  let v ← match l.logic with
    | some logic => combined logic v
    | none => pure v
  let v ← if (← Parse.options).ignoresConstraints then pure v else constrained l.constraints l.constraints v
  pure (hooked l.after v)

/-- The reading of a rule, out of the readings of its parts. -/
def ofLayer (entities : Entities) (l : Layer Reading) : Reading where
  origin := l.origin
  text := Rule.layerText (l.map Reading.text)
  read := readLayer entities l

end Reading

/-- The reading of a rule. -/
def Rule.reading (entities : Entities) (r : Rule) : Reading := r.fold (Reading.ofLayer entities)

end Conform

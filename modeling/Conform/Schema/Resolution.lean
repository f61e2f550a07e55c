import Conform.Schema.Matching

/-!
Reading records by schemas. The input is made a map, its keys are matched to the fields, and the fields are
read in the order of declaration, those last whose rule depends on another field. Fields whose dependencies
are missing are dropped until nothing is missing any more. An update reads only what it is given.
-/

namespace Conform

/-- Whether a whole record is read or a change to one. -/
inductive Pass
  | full
  | update
deriving DecidableEq

/-- What has been read of the fields: their values, which of them were given, and the values under other
    keys. -/
structure Resolved where
  values : Record
  supplied : List String
  extras : Record

namespace Schema

variable (s : Schema) (entities : Entities)

/-! ### Fields -/

/-- A step at which calls of factories count. -/
def called {α : Type} (f : Calls → α × Calls) : Parse α :=
  Parse.ofOutcome fun state =>
    let (a, calls) := f state.calls
    (.ok a, { state with calls })

/-- The default of a field without input, where there is one; else the field must not be required. -/
def fillAbsent (f : Field) (r : Resolved) : Parse Resolved := do
  let o ← Parse.options
  match ← called (f.produce o false) with
  | some v => pure { r with values := r.values.insert f.name v }
  | none =>
    if f.isRequired o then Parse.collect (.absence (← Parse.route) f.name)
    pure r

/-- The default only where a whole record is read. -/
def fillIfFull (pass : Pass) (f : Field) (r : Resolved) : Parse Resolved :=
  if pass = .full then fillAbsent f r else pure r

/-- Reads the value of a field beside those read so far. -/
def readField (pass : Pass) (f : Field) (v : Value) (r : Resolved) : Parse Resolved := do
  match ← f.parseValue entities v r.values with
  | .parsed w | .preserved w =>
    pure { r with values := r.values.insert f.name w, supplied := f.name :: r.supplied }
  | .excluded => fillIfFull pass f r
  | .collected => pure r

/-- The route of a field. -/
def fieldRoute (f : Field) : Parse Route := do pure ((← Parse.route) ++ [.key f.name])

/-- The fields that wait for another one, with their input. -/
abbrev Waiting := List (Field × Value)

/-- What becomes of the input of a field that has some. -/
def visitGiven (pass : Pass) (f : Field) (v : Value) (r : Resolved) (waiting : Waiting) :
    Parse (Resolved × Waiting) := do
  let o ← Parse.options
  if f.takesNoInput o (some v) then pure (← fillIfFull pass f r, waiting)
  else if pass = .update && f.immutable then
    Parse.collect (.immutable (← fieldRoute f) f.name)
    pure (r, waiting)
  else if f.discriminator.isSome then pure (r, waiting ++ [(f, v)])
  else pure (← readField entities pass f v r, waiting)

/-- What becomes of a field with the keys that belong to it. -/
def visitField (pass : Pass) (input : Record) (hits : List String) (f : Field) (r : Resolved)
    (waiting : Waiting) : Parse (Resolved × Waiting) := do
  let o ← Parse.options
  if f.isHidden o then pure (r, waiting)
  else match hits with
    | [] => pure (← fillIfFull pass f r, waiting)
    | key :: others =>
      if !others.isEmpty && !o.ignoresAliasConflicts then
        Parse.collect (.aliasConflict (← fieldRoute f) f.name hits)
        pure (r, waiting)
      else match input.get? key with
        | some v => visitGiven entities pass f v r waiting
        | none => pure (r, waiting)

/-- What becomes of the fields in the order of declaration, and those that wait. -/
def visitFields (pass : Pass) (input : Record) (m : Matches) :
    List Field → Resolved → Waiting → Parse (Resolved × Waiting)
  | [], r, waiting => pure (r, waiting)
  | f :: rest, r, waiting => do
    let (r, waiting) ← visitField entities pass input (m.of f.name) f r waiting
    visitFields pass input m rest r waiting

/-- The fields that waited, once the others are read. -/
def readWaiting (pass : Pass) : Waiting → Resolved → Parse Resolved
  | [], r => pure r
  | (f, v) :: rest, r => do readWaiting pass rest (← readField entities pass f v r)

/-! ### Keys of no field -/

/-- What becomes of a key that belongs to no field: whether it is refused, and the record. -/
def visitExcess (key : String) (v : Value) (r : Resolved) : Parse (Bool × Resolved) := do
  let o ← Parse.options
  match o.additionRule with
  | some rule =>
    match (← (rule.reading entities).guarded v (.key key) o.valuePolicy).value? with
    | some w => pure (false, { r with extras := r.extras.insert key w })
    | none => pure (false, r)
  | none => match o.excessPolicy with
    | .ignore => pure (false, r)
    | .preserve => pure (false, { r with extras := r.extras.insert key v })
    | .reject => pure (true, r)

/-- The refused keys, and the record with the values under the others. -/
def visitExcesses (input : Record) : List String → Resolved → Parse (List String × Resolved)
  | [], r => pure ([], r)
  | key :: rest, r =>
    match input.get? key with
    | none => visitExcesses input rest r
    | some v => do
      let (refused, r) ← visitExcess entities key v r
      let (others, r) ← visitExcesses input rest r
      pure (if refused then key :: others else others, r)

/-! ### Records -/

/-- The input as a record. -/
def inputRecord (v : Value) : Parse Record := do
  let refuse (cause : ConversionError) : Parse Record := do throw (.coercion (← Parse.route) v s.name cause)
  match (← Parse.options).convert v .map with
  | .ok (.map entries) => pure (Record.ofEntries entries)
  | .ok other => refuse (.mismatch other "map" .notMapping)
  | .error cause => refuse cause

/-- What an input has for the fields. -/
def resolve (pass : Pass) (v : Value) : Parse Resolved := do
  let input ← s.inputRecord v
  let m := s.matchKeys (← Parse.options) input.names
  let (r, waiting) ← visitFields entities pass input m s.fields ⟨[], [], []⟩ []
  let r ← readWaiting entities pass waiting r
  let (refused, r) ← visitExcesses entities input m.excess r
  unless refused.isEmpty do Parse.collect (.excess (← Parse.route) refused)
  pure r

/-! ### Dependencies -/

/-- The dependencies of a field that a record lacks. -/
def missingOf (values : Record) (f : Field) : List String := f.dependencies.filter (!values.has ·)

/-- The fields of a record that lack a dependency. -/
def brokenFields (values : Record) : List Field :=
  s.fields.filter fun f => values.has f.name && !(missingOf values f).isEmpty

/-- Says that a field was dropped, if it was given. -/
def reportBroken (supplied : List String) (values : Record) (f : Field) : Parse Unit := do
  if supplied.contains f.name then
    match f.policy (← Parse.options) with
    | .throw => Parse.collect (.missingDependencies (← fieldRoute f) f.name (missingOf values f))
    | .exclude | .preserve =>
      Parse.warn ("dropped field " ++ Text.quoted f.name ++ ": depends on absent " ++
        Text.quotedList (missingOf values f))

/-- Says of each field that it was dropped. -/
def reportAll (supplied : List String) (values : Record) : List Field → Parse Unit
  | [] => pure ()
  | f :: rest => do
    reportBroken supplied values f
    reportAll supplied values rest

/-- The record without some fields. -/
def eraseAll (values : Record) (fs : List Field) : Record := fs.foldl (fun r f => r.erase f.name) values

/-- Drops fields that lack a dependency until there are none, in at most `rounds` rounds. -/
def dropBroken (supplied : List String) : (rounds : Nat) → Record → Parse Record
  | 0, values => pure values
  | rounds + 1, values => do
    let broken := s.brokenFields values
    if broken.isEmpty then pure values
    else
      reportAll supplied values broken
      dropBroken supplied rounds (eraseAll values broken)

/-- The record in the order of declaration. -/
def arranged (values : Record) : Record := values.arranged (s.fields.map Field.name)

/-- The record without fields that lack a dependency, the fields in the order of declaration and the other
    keys behind them. Each round drops a field, so there are no more rounds than fields. -/
def finalize (values : Record) (supplied : List String) (extras : Record) : Parse Record := do
  let values ← s.dropBroken supplied (s.fields.length + 1) values
  pure ((s.arranged values).insertAll extras)

/-- The record that an input spells. -/
def readRecord (v : Value) : Parse Record := do
  let r ← s.resolve entities .full v
  s.finalize r.values r.supplied r.extras

/-- A record with the fields that a change gives. -/
def readUpdate (current : Record) (changes : Value) : Parse Record := do
  let r ← s.resolve entities .update changes
  s.finalize (current.insertAll r.values) r.supplied r.extras

/-! ### Deferred defaults -/

/-- Fills in the default of an absent field whose dependencies are present. -/
def fillDeferred (values : Record) (f : Field) (calls : Calls) : Record × Calls :=
  if values.has f.name || f.isHidden s.options || !(missingOf values f).isEmpty then (values, calls)
  else match f.produce s.options true calls with
    | (some v, calls) => (values.insert f.name v, calls)
    | (none, calls) => (values, calls)

/-- Fills in the defaults of fields in turn; each may depend on those before it. -/
def fillAllDeferred : List Field → Record → Calls → Record × Calls
  | [], values, calls => (values, calls)
  | f :: rest, values, calls =>
    let (values, calls) := s.fillDeferred values f calls
    fillAllDeferred rest values calls

/-- The record with the defaults of all absent fields, deferred ones too, in the order of declaration. -/
def withDeferred (values : Record) (calls : Calls) : Record × Calls :=
  let (values, calls) := s.fillAllDeferred s.fields values calls
  (s.arranged values, calls)

/-! ### Output -/

/-- The name under which a field is given out. -/
def outputName (o : Options) (f : Field) : String :=
  match o.aliasTo with
  | some generate => generate f.name
  | none => f.name

/-- The value of a field as it is given out, unless it is withheld or fails its output rule. -/
def outputValue (f : Field) (v : Value) : Parse (Option Value) := do
  if f.givesNoOutput (← Parse.options) (some v) then pure none
  else match f.outputRule with
    | some rule => do pure (← (rule.reading entities).guarded v (.key f.name) .throw).value?
    | none => pure (some v)

/-- The entries given out one by one; a key of no field is given out as it is. -/
def dumpEntries : (output rest : Record) → Parse Record
  | output, [] => pure output
  | output, (key, v) :: rest =>
    match s.fieldNamed? key with
    | none => dumpEntries (output.insert key v) rest
    | some f => do
      match ← outputValue entities f v with
      | some w => dumpEntries (output.insert (outputName (← Parse.options) f) w) rest
      | none => dumpEntries output rest

/-- The record as it is given out. -/
def dumpRecord (values : Record) : Parse Record := s.dumpEntries entities [] values

end Schema

end Conform

import Conform.Declaration.Error
import Conform.Field
import Conform.Text.Casing

/-!
Schemas: the fields of an entity. A schema is compiled from fields whose keys tell them apart, also where
case is ignored. A key belongs to the field that accepts it as it is written, or else to the field that
accepts it in another case.
-/

namespace Conform

/-- The fields of an entity and the options under which they are read. -/
structure Schema where
  name : String
  fields : List Field
  options : Options

namespace Schema

/-! ### Keys -/

/-- The keys that a field accepts under the options of its schema, in the order of preference. -/
def keysOf (o : Options) (f : Field) : List String :=
  match o.aliasFrom with
  | some generate => if f.keys.contains (generate f.name) then f.keys else f.keys ++ [generate f.name]
  | none => f.keys

/-- The keys of a field, each with the name of the field. -/
def ownKeys (o : Options) (f : Field) : List (String × String) := (keysOf o f).map (·, f.name)

/-- The keys of a field in lower case, if the field ignores case. -/
def ownFolded (o : Options) (f : Field) : List (String × String) :=
  if f.ignoresCase o then (keysOf o f).map fun key => (Text.lower key, f.name) else []

/-- Every key with the name of its field, in the order of the fields. -/
def aliasMap (s : Schema) : List (String × String) := s.fields.flatMap (ownKeys s.options)

/-- Every key of the fields that ignore case, in lower case, with the name of its field; a key may stand
    here twice. -/
def folded (s : Schema) : List (String × String) := s.fields.flatMap (ownFolded s.options)

def fieldNamed? (s : Schema) (name : String) : Option Field := s.fields.find? (·.name == name)

/-- The field with the name or the key. -/
def field? (s : Schema) (key : String) : Option Field :=
  (s.fieldNamed? key).or ((s.aliasMap.lookup key).bind s.fieldNamed?)

/-! ### Compilation -/

/-- What is declared, up to the first fault. -/
abbrev Compiling := Except DeclarationError

/-- Refuses a key that another field has. -/
def checkKeys (f : Field) (taken : List (String × String)) : List String → Compiling Unit
  | [] => .ok ()
  | key :: rest =>
    match taken.lookup key with
    | some other => .error (.aliasCollision key f.name other)
    | none => checkKeys f taken rest

/-- Refuses a key that another field has in another case. -/
def checkFolded (f : Field) (taken : List (String × String)) : List String → Compiling Unit
  | [] => .ok ()
  | key :: rest =>
    match taken.lookup (Text.lower key) with
    | some other => .error (.aliasCollision key f.name other)
    | none => checkFolded f taken rest

/-- Refuses a field whose name or whose keys the fields before it have. -/
def checkField (o : Options) (earlier : List Field) (f : Field) : Compiling Unit := do
  if earlier.any (·.name == f.name) then .error (.duplicateField f.name)
  checkKeys f (earlier.flatMap (ownKeys o)) (keysOf o f)
  if f.ignoresCase o then checkFolded f (earlier.flatMap (ownFolded o)) (keysOf o f)

/-- Refuses the first field that cannot be told from those before it. -/
def checkFields (o : Options) : (earlier rest : List Field) → Compiling Unit
  | _, [] => .ok ()
  | earlier, f :: rest => do
    checkField o earlier f
    checkFields o (earlier ++ [f]) rest

/-- Refuses a key that another field would take in its place because it ignores case. -/
def checkSwallowed (folded : List (String × String)) : List (String × String) → Compiling Unit
  | [] => .ok ()
  | (key, owner) :: rest =>
    match folded.lookup (Text.lower key) with
    | some other => if other = owner then checkSwallowed folded rest else .error (.aliasCollision key other owner)
    | none => checkSwallowed folded rest

/-- Refuses a dependency on a field that is not declared. -/
def checkDependencies (names : List String) : List Field → Compiling Unit
  | [] => .ok ()
  | f :: rest =>
    let missing := f.dependencies.filter (!names.contains ·)
    if missing.isEmpty then checkDependencies names rest else .error (.undeclaredDependency f.name missing)

/-- The schema of some fields, if they can be told apart and depend on each other alone. -/
def compile (name : String) (fields : List Field) (o : Options) : Compiling Schema := do
  let s : Schema := ⟨name, fields, o⟩
  checkFields o [] fields
  checkSwallowed s.folded s.aliasMap
  checkDependencies (fields.map Field.name) fields
  pure s

end Schema

/-! ### Declaration -/

/-- A schema as far as it is declared. A field may be declared once, and once more in the place of one
    that is inherited. -/
structure SchemaDraft where
  name : String
  fields : List Field := []
  inherited : List String := []
  duplicate : Option String := none
  options : Options := {}

namespace SchemaDraft

/-- The fields with one in the place of another of its name. -/
def replaceField (f : Field) (fields : List Field) : List Field :=
  fields.map fun g => if g.name == f.name then f else g

/-- One more inherited field, in the place of another of its name. -/
def inheritField (d : SchemaDraft) (f : Field) : SchemaDraft :=
  { d with
    fields := if d.fields.any (·.name == f.name) then replaceField f d.fields else d.fields ++ [f]
    inherited := f.name :: d.inherited }

/-- Inherits the fields and the options of a schema; options declared before go first. -/
def inherit (d : SchemaDraft) (base : Schema) : SchemaDraft :=
  let d := base.fields.foldl inheritField d
  { d with options := base.options.merge d.options }

/-- One more field of the schema's own; it may stand in for an inherited one once. -/
def addField (d : SchemaDraft) (f : Field) : SchemaDraft :=
  if !d.fields.any (·.name == f.name) then { d with fields := d.fields ++ [f] }
  else if d.inherited.contains f.name then
    { d with fields := replaceField f d.fields, inherited := d.inherited.filter (· != f.name) }
  else { d with duplicate := d.duplicate.or (some f.name) }

/-- More options; the later ones count. -/
def addOptions (d : SchemaDraft) (o : Options) : SchemaDraft := { d with options := d.options.merge o }

/-- The schema, if no field was declared twice and the fields can be told apart. -/
def build (d : SchemaDraft) : Schema.Compiling Schema :=
  match d.duplicate with
  | some name => .error (.duplicateField name)
  | none => Schema.compile d.name d.fields d.options

end SchemaDraft

end Conform

import Conform.Conversion.Scope
import Conform.Text.Quoted

/-!
Registries: tables of converters, each for the kinds that a detector accepts. Entries of a higher
priority come first, and among equal ones those registered earlier; the first that accepts a kind
converts to it. What no entry accepts is left to the base of the registry, if it has one.
-/

namespace Conform

/-! ### Detectors -/

/-- Kinds that belong together. -/
inductive KindCategory
  | numeric
  | text
  | temporal
  | sequence
  | mapping
deriving DecidableEq

namespace KindCategory

/-- Whether a kind is of the category. -/
def contains (c : KindCategory) (k : Kind) : Bool :=
  match c with
  | .numeric => k.isNumeric
  | .text => k.isText
  | .temporal => k.isTemporal
  | .sequence => k.isSequence
  | .mapping => k == .map

def label : KindCategory → String
  | .numeric => "Numeric"
  | .text => "Text"
  | .temporal => "Temporal"
  | .sequence => "Sequence"
  | .mapping => "Mapping"

end KindCategory

/-- Which kinds an entry of a registry converts to. -/
inductive Detector
  | exact (kind : Kind)
  | category (category : KindCategory)
  | capability (accepts : Kind → Bool)

namespace Detector

/-- Whether an entry with this detector is for a kind. -/
def accepts : Detector → Kind → Bool
  | .exact kind, k => kind == k
  | .category c, k => c.contains k
  | .capability f, k => f k

def text : Detector → String
  | .exact kind => "Exact(" ++ kind.name ++ ")"
  | .category c => "Category(" ++ c.label ++ ")"
  | .capability _ => "Capability(..)"

end Detector

/-! ### Registries -/

/-- A converter in a registry. -/
structure Registry.Entry where
  name : String
  detector : Detector
  converter : Converter
  priority : Int

/-- A table of converters and the registry to ask where the table has none. -/
inductive Registry
  | table (entries : List Registry.Entry) (base : Option Registry)

namespace Registry

def empty : Registry := .table [] none

def entries : Registry → List Entry
  | .table entries _ => entries

def base? : Registry → Option Registry
  | .table _ base => base

/-- An entry behind those of its own priority and before those of a lower one. -/
def insertEntry (e : Entry) : List Entry → List Entry
  | [] => [e]
  | f :: rest => if f.priority < e.priority then e :: f :: rest else f :: insertEntry e rest

/-- The registry with one more entry, behind those of higher or equal priority. -/
def register (r : Registry) (e : Entry) : Registry := .table (insertEntry e r.entries) r.base?

/-- The registry with another base. -/
def withBase (r base : Registry) : Registry := .table r.entries (some base)

def names (r : Registry) : List String := r.entries.map Entry.name

/-- The converter to a kind. -/
def resolve? : Registry → Kind → Option Converter
  | .table entries base, k =>
    match entries.find? (·.detector.accepts k) with
    | some e => some e.converter
    | none => match base with
      | some base => base.resolve? k
      | none => none

/-! ### Text -/

def Entry.text (e : Entry) : String :=
  "(" ++ Text.quoted e.name ++ ", " ++ e.detector.text ++ ", " ++ toString e.priority ++ ")"

/-- The registry with its entries, and whether it has a base. -/
def text (r : Registry) : String :=
  "Registry \x7b entries: [" ++ ", ".intercalate (r.entries.map Entry.text) ++ "], base: " ++
    (if r.base?.isSome then "true" else "false") ++ " \x7d"

end Registry

end Conform

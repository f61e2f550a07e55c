import Conform.Json.Basic
import Conform.Options

/-!
Options as JSON: an object of what is set, or a list in the order of declaration, whose missing rest is
left open. Rules, registries and generators of aliases have no JSON form.
-/

namespace Conform.Options

/-- A form in JSON: how it is read, and how it is written. -/
structure Form (α : Type) where
  read? : Json → Option α
  write : α → Json

namespace Form

def flag : Form Bool where
  read? := fun j => match j with
    | .bool b => some b
    | _ => none
  write := .bool

/-- A natural number of 64 bits. -/
def count : Form Nat where
  read? := fun j => match j with
    | .integer i => if 0 ≤ i then some i.toNat else none
    | _ => none
  write := fun n => .integer n

def text : Form String where
  read? := fun j => match j with
    | .string s => some s
    | _ => none
  write := .string

/-- A choice by its name, which may also be the only key of an object. -/
def choice {α : Type} (ofName? : String → Option α) (name : α → String) : Form α where
  read? := fun j => match j with
    | .string s => ofName? s
    | .object [(s, .null)] => ofName? s
    | _ => none
  write := fun a => .string (name a)

/-- What may be left open, as null. -/
def optional {α : Type} (form : Form α) : Form (Option α) where
  read? := fun j => match j with
    | .null => some none
    | j => (form.read? j).map some
  write := fun a => match a with
    | some a => form.write a
    | none => .null

end Form

/-- An option in JSON: its key, how it is set from JSON, and how it is written. -/
structure Entry where
  key : String
  set? : Options → Json → Option Options
  write : Options → Json

/-- The entry of an option of a form. -/
def entry {α : Type} (form : Form α) (key : String) (get : Options → α) (set : Options → α → Options) : Entry where
  key := key
  set? := fun o j => (form.read? j).map (set o)
  write := fun o => form.write (get o)

def flagEntry (key : String) (get : Options → Option Bool) (set : Options → Option Bool → Options) : Entry :=
  entry Form.flag.optional key get set

def countEntry (key : String) (get : Options → Option Nat) (set : Options → Option Nat → Options) : Entry :=
  entry Form.count.optional key get set

def errorEntry (key : String) (get : Options → Option ErrorPolicy) (set : Options → Option ErrorPolicy → Options) :
    Entry :=
  entry (Form.choice ErrorPolicy.ofName? ErrorPolicy.name).optional key get set

def excessForm : Form ExcessPolicy := Form.choice ExcessPolicy.ofName? ExcessPolicy.name

/-- The options with a JSON form, in order. -/
def jsonEntries : List Entry :=
  [flagEntry "collect_errors" collectErrors fun o a => { o with collectErrors := a },
    countEntry "max_errors" maxErrors fun o a => { o with maxErrors := a },
    countEntry "max_depth" maxDepth fun o a => { o with maxDepth := a },
    entry excessForm.optional "addition" addition fun o a => { o with addition := a },
    errorEntry "invalid_items" invalidItems fun o a => { o with invalidItems := a },
    errorEntry "invalid_keys" invalidKeys fun o a => { o with invalidKeys := a },
    errorEntry "invalid_values" invalidValues fun o a => { o with invalidValues := a },
    errorEntry "on_error" onError fun o a => { o with onError := a },
    flagEntry "no_explicit_cast" noExplicitCast fun o a => { o with noExplicitCast := a },
    flagEntry "no_data_loss" noDataLoss fun o a => { o with noDataLoss := a },
    flagEntry "ignore_constraints" ignoreConstraints fun o a => { o with ignoreConstraints := a },
    flagEntry "ignore_alias_conflicts" ignoreAliasConflicts fun o a => { o with ignoreAliasConflicts := a },
    flagEntry "ignore_required" ignoreRequired fun o a => { o with ignoreRequired := a },
    flagEntry "case_insensitive" caseInsensitive fun o a => { o with caseInsensitive := a },
    entry Form.text.optional "mode" mode fun o a => { o with mode := a },
    flagEntry "force_default" forceDefault fun o a => { o with forceDefault := a },
    flagEntry "data_first_search" dataFirstSearch fun o a => { o with dataFirstSearch := a },
    entry Form.flag "override" overriding fun o a => { o with overriding := a }]

/-- The options that a list sets in order; it must not be too long. -/
def readList : List Entry → List Json → Options → Option Options
  | _, [], o => some o
  | [], _ :: _, _ => none
  | e :: entries, j :: rest, o => do readList entries rest (← e.set? o j)

/-- The options that a document spells; keys without a meaning are ignored. -/
def ofJson? : Json → Option Options
  | .array items => readList jsonEntries items {}
  | .object members =>
    jsonEntries.foldlM (fun o e => match members.lookup e.key with
      | some j => e.set? o j
      | none => some o) {}
  | _ => none

def toJson (o : Options) : Json := .object (Json.sortMembers (jsonEntries.map fun e => (e.key, e.write o)))

end Conform.Options

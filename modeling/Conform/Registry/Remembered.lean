import Conform.Registry

/-!
Registries that remember what they resolved. Answers are kept in cells of a memory. Copies of a registry
share its cell; whichever of them is changed gets a new one, so a cell never holds the answers of two
different tables.
-/

namespace Conform

/-- What was resolved so far, cell by cell. -/
abbrev Recollection := List (List (Kind × Option Converter))

namespace Recollection

/-- What a cell holds for a kind. -/
def answer? (m : Recollection) (cell : Nat) (k : Kind) : Option (Option Converter) :=
  m[cell]?.bind (·.lookup k)

def remember (m : Recollection) (cell : Nat) (k : Kind) (answer : Option Converter) : Recollection :=
  m.modify cell ((k, answer) :: ·)

end Recollection

/-- A registry with a cell for its answers. -/
inductive Remembered
  | table (entries : List Registry.Entry) (base : Option Remembered) (cell : Nat)

namespace Remembered

def entries : Remembered → List Registry.Entry
  | .table entries _ _ => entries

def base? : Remembered → Option Remembered
  | .table _ base _ => base

/-- The registry without what it remembers. -/
def registry : Remembered → Registry
  | .table entries (some base) _ => .table entries (some base.registry)
  | .table entries none _ => .table entries none

/-! ### Construction -/

/-- A cell that was never used. -/
def newCell : StateM Recollection Nat := modifyGet fun m => (m.length, m ++ [[]])

/-- A registry that remembers nothing yet, with a cell for itself and for each of its bases. -/
def ofRegistry : Registry → StateM Recollection Remembered
  | .table entries (some base) => do
    let base ← ofRegistry base
    pure (.table entries (some base) (← newCell))
  | .table entries none => do pure (.table entries none (← newCell))

def empty : StateM Recollection Remembered := ofRegistry .empty

def register (r : Remembered) (e : Registry.Entry) : StateM Recollection Remembered := do
  pure (.table (Registry.insertEntry e r.entries) r.base? (← newCell))

def withBase (r base : Remembered) : StateM Recollection Remembered := do
  pure (.table r.entries (some base) (← newCell))

/-! ### Resolution -/

/-- The converter to a kind, remembered from now on. -/
def resolve? : Remembered → Kind → StateM Recollection (Option Converter)
  | .table entries base cell, k => do
    match (← get).answer? cell k with
    | some answer => pure answer
    | none =>
      let found ← match entries.find? (·.detector.accepts k) with
        | some e => pure (some e.converter)
        | none => match base with
          | some base => base.resolve? k
          | none => pure none
      modify (·.remember cell k found)
      pure found

end Remembered

end Conform

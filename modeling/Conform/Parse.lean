import Conform.Context

/-!
Parses. A parse runs in a context: it may fail, and what it has recorded by then stays recorded. Calls of
the factories of defaults are counted all along, also in attempts that come to nothing.
-/

namespace Conform

/-- How often each factory was called. -/
abbrev Calls := Nat → Nat

def Calls.none : Calls := fun _ => 0

def Calls.next (calls : Calls) (factory : Nat) : Calls :=
  fun i => if i = factory then calls i + 1 else calls i

/-- What a parse works on. -/
structure ParseState where
  context : Context
  calls : Calls

/-- A parse that gives an `α`. -/
abbrev Parse (α : Type) := ExceptT Failure (StateM ParseState) α

namespace Parse

variable {α : Type}

/-- The outcome of a parse, and the state that it leaves. -/
def outcome (p : Parse α) (s : ParseState) : Except Failure α × ParseState := (p.run).run s

def ofOutcome (f : ParseState → Except Failure α × ParseState) : Parse α := ExceptT.mk fun s => f s

/-- A step that changes the context. -/
def ofContext (f : Context → Except Failure α × Context) : Parse α :=
  ofOutcome fun s =>
    let (r, c) := f s.context
    (r, { s with context := c })

def context : Parse Context := ofContext fun c => (.ok c, c)

def options : Parse Options := do pure (← context).options

def route : Parse Route := do pure (← context).route

def warn (message : String) : Parse Unit := ofContext fun c => (.ok (), c.warn message)

def collect (f : Failure) : Parse Unit := ofContext fun c => c.collect f

def collectAll (fs : List Failure) : Parse Unit := ofContext fun c => c.collectAll fs

def takeWarnings (child : Context) : Parse Unit := ofContext fun c => (.ok (), c.takeWarnings child)

def absorb (child : Context) : Parse Unit := ofContext fun c => c.absorb child

/-- A parse in a context of its own: its result, and the context that it leaves. -/
def within (child : Context) (p : Parse α) : Parse (Except Failure α × Context) :=
  ofOutcome fun s =>
    let (r, t) := p.outcome ⟨child, s.calls⟩
    (.ok (r, t.context), ⟨s.context, t.calls⟩)

/-- A child context one step further. -/
def enter (item : RouteItem) : Parse Context := ofContext fun c => (c.enter item, c)

/-- An attempt in a context of its own: what it gives, if it neither fails nor records a failure, or else its
    failures, and the context that it leaves. -/
def attempt (child : Context) (p : Parse α) : Parse (Except (List Failure) α × Context) := do
  match ← within child p with
  | (.ok a, child) =>
    if child.failures.isEmpty then pure (.ok a, child)
    else
      let (failures, child) := child.takeFailures none
      pure (.error failures, child)
  | (.error f, child) =>
    let (failures, child) := child.takeFailures (some f)
    pure (.error failures, child)

end Parse

end Conform

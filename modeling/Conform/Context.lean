import Conform.Failure
import Conform.Options

/-!
Contexts. A context is where a parse stands: the options in force, the route and its depth, and what was
found so far. A step into a value, or an attempt that may fail, takes place in a child of its own, whose
findings come to the parent only when it takes them.
-/

namespace Conform

/-- Where a parse stands, and what it has found. -/
structure Context where
  options : Options
  route : Route
  depth : Nat
  failures : List Failure
  warnings : List Warning

namespace Context

def root (options : Options) : Context := ⟨options, [], 0, [], []⟩

/-! ### Children -/

/-- A child one step further, unless that is too deep. -/
def enter (c : Context) (item : RouteItem) : Except Failure Context :=
  let route := c.route ++ [item]
  if c.options.depthLimit < c.depth + 1 then .error (.tooDeep route (c.depth + 1) c.options.depthLimit)
  else .ok ⟨c.options, route, c.depth + 1, [], []⟩

/-- A child at the same place, for an attempt. -/
def speculate (c : Context) : Context := { c with failures := [], warnings := [] }

/-- A child at the same place, under further options. -/
def speculateWith (c : Context) (o : Options) : Context := { c.speculate with options := c.options.merge o }

/-! ### Findings -/

def warn (c : Context) (message : String) : Context :=
  { c with warnings := c.warnings ++ [⟨c.route, message⟩] }

/-- Takes all failures, and perhaps one more, together. -/
def raise (c : Context) (forced : Option Failure) : Failure × Context :=
  (.together (c.failures ++ forced.toList), { c with failures := [] })

/-- Records a failure where failures are collected, up to the greatest number allowed; anywhere else the
    failure is raised. -/
def collect (c : Context) (f : Failure) : Except Failure Unit × Context :=
  if !c.options.collects then (.error f, c)
  else
    let c := { c with failures := c.failures ++ f.flatten }
    if c.options.maxErrors.any (· ≤ c.failures.length) then
      let (f, c) := c.raise none
      (.error f, c)
    else (.ok (), c)

/-- Records failures one by one, up to the first that is raised. -/
def collectAll (c : Context) : List Failure → Except Failure Unit × Context
  | [] => (.ok (), c)
  | f :: rest =>
    match c.collect f with
    | (.ok (), c) => c.collectAll rest
    | (.error f, c) => (.error f, c)

def takeWarnings (c child : Context) : Context := { c with warnings := c.warnings ++ child.warnings }

/-- Takes over what a child has found. -/
def absorb (c child : Context) : Except Failure Unit × Context := (c.takeWarnings child).collectAll child.failures

/-- The failures of an attempt: those recorded, and the one that ended it. -/
def takeFailures (c : Context) (ended : Option Failure) : List Failure × Context :=
  (c.failures ++ ended.toList, { c with failures := [] })

/-- The end of a parse at its root: recorded failures are raised, else the warnings are taken. -/
def finish (c : Context) : Except Failure (List Warning) × Context :=
  if c.failures.isEmpty then (.ok c.warnings, { c with warnings := [] })
  else
    let (f, c) := c.raise none
    (.error f, c)

end Context

end Conform

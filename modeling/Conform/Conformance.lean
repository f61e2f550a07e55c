import Conform.Catalog

/-!
Whole parses. A parse starts at the root of its input, in a context made from options; what it has recorded
by its end is raised all together, also with the failure that ended it. A parse that succeeds gives its
warnings besides its result.
-/

namespace Conform

namespace Parse

variable {α : Type}

/-- Raises a failure, together with those recorded so far if there are any. -/
def raised (f : Failure) : Parse α :=
  ofContext fun c =>
    if c.failures.isEmpty then (.error f, c)
    else
      let (f, c) := c.raise (some f)
      (.error f, c)

/-- The end of a parse: its warnings, if it has recorded no failure. -/
def finish : Parse (List Warning) := ofContext Context.finish

/-- A parse to its end. -/
def concluded (p : Parse α) : Parse (α × List Warning) := do
  let a ← tryCatch p raised
  pure (a, ← finish)

/-- What a parse gives at the root of an input, and the calls of factories by then. -/
def atRoot (o : Options) (calls : Calls) (p : Parse α) : Except Failure α × Calls :=
  let (result, s) := p.outcome ⟨.root o, calls⟩
  (result, s.calls)

end Parse

namespace Catalog

variable (c : Catalog)

/-! ### Rules -/

/-- Reads a value by a rule, within a parse. -/
def readBy (r : Rule) (v : Value) : Parse Value := do
  (r.reading (c.entities (← Parse.options))).read v

/-- The value that a rule makes of an input. -/
def apply (r : Rule) (v : Value) (o : Options) (calls : Calls) : Except Failure Value × Calls :=
  Parse.atRoot o calls do pure (← Parse.concluded (c.readBy r v)).1

/-! ### Schemas -/

/-- Reads a record by a schema, within a parse under the schema's options. -/
def readRecord (s : Schema) (v : Value) : Parse Record := do
  s.readRecord (c.entities (← Parse.options)) v

/-- The record that a schema makes of an input, and the warnings. -/
def parse (s : Schema) (v : Value) (o : Options) (calls : Calls) : Except Failure (Record × List Warning) × Calls :=
  Parse.atRoot (s.options.merge o) calls (Parse.concluded (c.readRecord s v))

/-- A record with some changes. -/
def update (s : Schema) (current : Record) (changes : Value) (o : Options) (calls : Calls) :
    Except Failure Record × Calls :=
  Parse.atRoot (s.options.merge o) calls do
    let entities := c.entities (← Parse.options)
    pure (← Parse.concluded (s.readUpdate entities current changes)).1

/-- A record as it is given out. -/
def dump (s : Schema) (values : Record) (o : Options) (calls : Calls) : Except Failure Record × Calls :=
  Parse.atRoot (s.options.merge o) calls do
    let output ← s.dumpRecord (c.entities (← Parse.options)) values
    let _ ← Parse.finish
    pure output

end Catalog

end Conform

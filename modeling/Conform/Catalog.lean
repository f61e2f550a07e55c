import Conform.Reference
import Conform.Schema.Resolution

/-!
Catalogs: the schemas built so far, each at its place, and the references to them. Schemas may refer to
each other, so what is known of an entity depends on itself; every descent into an entity takes one from a
budget. An entity reads its fields one step further, so the greatest depth in force bounds the descents.
-/

namespace Conform

/-- Schemas, and references to them. -/
structure Catalog where
  schemas : List Schema := []
  references : References := {}

namespace Catalog

/-! ### Declaration -/

/-- Adds a schema, and registers it under its name. -/
def add (c : Catalog) (s : Schema) : Catalog :=
  ⟨c.schemas ++ [s], c.references.register s.name c.schemas.length⟩

/-- The place and the schema that are registered under a name. -/
def named? (c : Catalog) (name : String) : Option (Nat × Schema) := do
  let place ← c.references.place? name
  pure (place, ← c.schemas[place]?)

/-- The target that stands for the schema registered under a name. -/
def target? (c : Catalog) (name : String) : Option Target :=
  (c.named? name).map fun (place, s) => .entity place s.name

/-- A target that stands for the schema of that name, whenever it is added. -/
def placeholder (c : Catalog) (name : String) : Target × Catalog :=
  let (r, references) := c.references.placeholder name
  (.reference r, { c with references })

/-- Resolves the pending references. -/
def resolve (c : Catalog) : Except DeclarationError Unit × Catalog :=
  let (result, references) := c.references.resolve
  (result, { c with references })

/-! ### Entities -/

/-- What a schema is to those that read by it. -/
def entity (entities : Entities) (s : Schema) : Lookup := .entity ⟨s.options, s.readRecord entities⟩

/-- What is known of the entities, for at most so many descents from one into another. -/
def entitiesWithin (c : Catalog) : (budget : Nat) → Entities
  | 0, _ => .plain
  | budget + 1, t =>
    match t with
    | .entity place _ => match c.schemas[place]? with
      | some s => entity (c.entitiesWithin budget) s
      | none => .plain
    | .reference r => match (c.references.content? r).bind (c.schemas[·]?) with
      | some s => entity (c.entitiesWithin budget) s
      | none => .unresolved r.name
    | _ => .plain

/-- The greatest depth that may be in force under some options: their own or that of a schema. -/
def greatestDepth (c : Catalog) (o : Options) : Nat :=
  c.schemas.foldl (fun depth s => max depth s.options.depthLimit) o.depthLimit

/-- What is known of the entities under some options. Of two descents on a way down, the second is at least
    one step deeper, so there are no more of them than that depth and one. -/
def entities (c : Catalog) (o : Options) : Entities := c.entitiesWithin (c.greatestDepth o + 1)

end Catalog

end Conform

import Conform.Declaration.Error

/-!
References to entities that are declared later. A reference points to a slot, which stays empty until
references are resolved: then it takes the place of the entity registered under its name, and keeps it.
A name that nobody has registered ends the resolution where it is met, and all references stay pending.
-/

namespace Conform

/-- References to entities, and the entities known by name. -/
structure References where
  /-- The place of an entity, for each slot that was filled. -/
  slots : List (Option Nat) := []
  /-- The references made since the last resolution, each name once. -/
  pending : List Reference := []
  /-- The entities by name, the latest first. -/
  registered : List (String × Nat) := []

namespace References

/-- The reference to a name, which a pending one of that name is already. -/
def placeholder (rs : References) (name : String) : Reference × References :=
  match rs.pending.find? (·.name == name) with
  | some r => (r, rs)
  | none =>
    let r : Reference := ⟨rs.slots.length, name⟩
    (r, { rs with slots := rs.slots ++ [none], pending := rs.pending ++ [r] })

/-- Registers the place of an entity; the latest of a name counts. -/
def register (rs : References) (name : String) (place : Nat) : References :=
  { rs with registered := (name, place) :: rs.registered }

/-- The place that is registered under a name. -/
def place? (rs : References) (name : String) : Option Nat := rs.registered.lookup name

/-- The place that a reference was filled with. -/
def content? (rs : References) (r : Reference) : Option Nat := rs.slots[r.slot]?.join

/-! ### Resolution -/

/-- Fills a slot that is empty. -/
def fill (rs : References) (r : Reference) (place : Nat) : References :=
  { rs with slots := rs.slots.modify r.slot (·.or (some place)) }

/-- Fills some references one by one, up to the first whose name is not registered. -/
def fillAll : List Reference → References → Except DeclarationError Unit × References
  | [], rs => (.ok (), rs)
  | r :: rest, rs =>
    match rs.place? r.name with
    | some place => fillAll rest (rs.fill r place)
    | none => (.error (.unresolvedReference r.name), rs)

/-- Resolves the pending references in the given order. -/
def resolveIn (order : List Reference) (rs : References) : Except DeclarationError Unit × References :=
  match fillAll order rs with
  | (.ok (), rs) => (.ok (), { rs with pending := [] })
  | (.error e, rs) => (.error e, rs)

/-- Resolves the pending references in the order in which they were made. -/
def resolve (rs : References) : Except DeclarationError Unit × References := resolveIn rs.pending rs

end References

end Conform

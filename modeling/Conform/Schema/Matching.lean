import Conform.Schema

/-!
Matching the keys of an input to fields. The search goes by the fields, looking for the keys of each in
the input, or by the input, looking for the field of each of its keys. Either finds the same keys for a
field in the same order: first those written as declared, then those in another case as they come in.
-/

namespace Conform

/-- The keys of an input that belong to each field, and those that belong to none. -/
structure Matches where
  hits : List (String × List String)
  excess : List String

/-- The keys of a field. -/
def Matches.of (m : Matches) (name : String) : List String := (m.hits.lookup name).getD []

namespace Schema

/-! ### By the fields -/

/-- Whether a key belongs to a field only because case is ignored. -/
def isFoldedHit (aliases folded : List (String × String)) (name key : String) : Bool :=
  (aliases.lookup key).isNone && folded.lookup (Text.lower key) == some name

/-- The keys of the input that belong to a field. -/
def hitsOf (s : Schema) (aliases folded : List (String × String)) (input : List String) (f : Field) : List String :=
  let exact := (keysOf s.options f).filter input.contains
  if f.ignoresCase s.options then exact ++ input.filter (isFoldedHit aliases folded f.name) else exact

/-- The keys of each field, looked for in the input. -/
def matchByFields (s : Schema) (input : List String) : Matches :=
  let hits := s.fields.map fun f => (f.name, s.hitsOf s.aliasMap s.folded input f)
  let taken := hits.flatMap Prod.snd
  ⟨hits, input.filter (!taken.contains ·)⟩

/-! ### By the input -/

/-- One more key for a field. -/
def addHit (name key : String) : List (String × List String) → List (String × List String)
  | [] => [(name, [key])]
  | (n, keys) :: rest => if n = name then (n, keys ++ [key]) :: rest else (n, keys) :: addHit name key rest

/-- The keys assigned one by one. -/
def assign (aliases folded : List (String × String)) : Matches → List String → Matches
  | m, [] => m
  | m, key :: rest =>
    match (aliases.lookup key).or (folded.lookup (Text.lower key)) with
    | some name => assign aliases folded { m with hits := addHit name key m.hits } rest
    | none => assign aliases folded { m with excess := m.excess ++ [key] } rest

/-- The keys that a named field accepts. -/
def keysNamed (s : Schema) (name : String) : List String :=
  match s.fieldNamed? name with
  | some f => keysOf s.options f
  | none => []

/-- Keys in the order of preference, those in another case last. -/
def preferred (keys hits : List String) : List String :=
  hits.mergeSort fun a b => keys.idxOf a ≤ keys.idxOf b

/-- The fields of each key, then the keys of each field in the order of preference. -/
def matchByInput (s : Schema) (input : List String) : Matches :=
  let m := assign s.aliasMap s.folded ⟨[], []⟩ input
  { m with hits := m.hits.map fun (name, hits) => (name, preferred (s.keysNamed name) hits) }

/-! ### Choice -/

/-- How many look-ups the search by the fields takes. -/
def fieldCost (s : Schema) (size : Nat) : Nat :=
  s.fields.foldl (fun cost f => cost + (keysOf s.options f).length + if f.ignoresCase s.options then size else 0) 0

/-- How many look-ups the search by the input takes. -/
def inputCost (s : Schema) (size : Nat) : Nat := if s.folded.isEmpty then size else size * 2

/-- The cheaper search, unless the options say which. -/
def prefersInput (s : Schema) (o : Options) (size : Nat) : Bool :=
  o.dataFirstSearch.getD (s.inputCost size < s.fieldCost size)

/-- The keys of each field, by the search that is preferred. -/
def matchKeys (s : Schema) (o : Options) (input : List String) : Matches :=
  if s.prefersInput o input.length then s.matchByInput input else s.matchByFields input

end Schema

end Conform

/-!
Policies: what becomes of a value that fails its rule, and of the keys that no field claims.
-/

namespace Conform

/-- What becomes of a value that fails its rule. -/
inductive ErrorPolicy
  /-- The error is raised, or collected. -/
  | throw
  /-- The value is dropped. -/
  | exclude
  /-- The value is kept as it was given. -/
  | preserve
deriving DecidableEq

namespace ErrorPolicy

/-- The name of the policy. -/
def name : ErrorPolicy → String
  | .throw => "throw"
  | .exclude => "exclude"
  | .preserve => "preserve"

/-- The policy of a name. -/
def ofName? (name : String) : Option ErrorPolicy := [throw, exclude, preserve].find? (·.name == name)

end ErrorPolicy

/-- What becomes of the keys that no field claims. -/
inductive ExcessPolicy
  | ignore
  | preserve
  | reject
deriving DecidableEq

namespace ExcessPolicy

/-- The name of the policy. -/
def name : ExcessPolicy → String
  | .ignore => "ignore"
  | .preserve => "preserve"
  | .reject => "reject"

/-- The policy of a name. -/
def ofName? (name : String) : Option ExcessPolicy := [ignore, preserve, reject].find? (·.name == name)

end ExcessPolicy

end Conform

/-!
Routes: the way from the root of an input to a value in it.
-/

namespace Conform

/-- A step into a map or a sequence. -/
inductive RouteItem
  | key (key : String)
  | index (index : Nat)
deriving DecidableEq

/-- The steps from the root. -/
abbrev Route := List RouteItem

/-- A key behind a point, an index in brackets. -/
def RouteItem.text : RouteItem → String
  | .key k => "." ++ k
  | .index i => "[" ++ toString i ++ "]"

/-- The route from the root, which is a dollar sign. -/
def Route.text (route : Route) : String := "$" ++ String.join (route.map RouteItem.text)

/-- Something found on the way that is no error. -/
structure Warning where
  route : Route
  message : String
deriving DecidableEq

def Warning.text (w : Warning) : String := Route.text w.route ++ ": " ++ w.message

end Conform

import Conform.Pattern.Node

/-!
What patterns match. A pattern denotes, for every place of a text, the places at which a match from there
may end; a text matches if some place has one. Groups and the preference among matches do not show in that.
-/

namespace Conform.Pattern

/-- A text as a pattern sees it. -/
abbrev Subject := Array Char

/-- Whether the condition holds at a place of a text. -/
def Look.holdsAt (look : Look) (text : Subject) (i : Nat) : Bool :=
  look.holds (if i = 0 then none else text[i - 1]?) text[i]?

namespace Node

/-! ### Places -/

/-- The places of both lists, which are in ascending order without repetition. -/
def merge : List Nat → List Nat → List Nat
  | [], js => js
  | is, [] => is
  | i :: is, j :: js =>
    if i < j then i :: merge is (j :: js)
    else if j < i then j :: merge (i :: is) js
    else i :: merge is js

/-- The places behind a character of the given kind. -/
def stepOver (text : Subject) (isKind : Char → Bool) (is : List Nat) : List Nat :=
  (is.filter fun i => text[i]?.any isKind).map (· + 1)

/-- The places of one list that are not in another, both in ascending order without repetition. -/
def without : List Nat → List Nat → List Nat
  | [], _ => []
  | is, [] => is
  | i :: is, j :: js =>
    if i < j then i :: without is (j :: js)
    else if j < i then without (i :: is) js
    else without is js

/-- The places reached by exactly `n` steps; from no place no step leads on. -/
def stepTimes (step : List Nat → List Nat) : Nat → List Nat → List Nat
  | 0, is => is
  | _, [] => []
  | n + 1, is => stepTimes step n (step is)

/-- The places seen, and those reached by at most `n` steps from the latest of them. A step from a place
    that was latest before leads to nothing new. -/
def stepUpTo (step : List Nat → List Nat) : Nat → (seen latest : List Nat) → List Nat
  | 0, seen, _ => seen
  | n + 1, seen, latest =>
    match without (step latest) seen with
    | [] => seen
    | fresh => stepUpTo step n (merge seen fresh) fresh

/-! ### Matches -/

mutual

/-- Where matches from the given places may end. Any number of repetitions reaches no more places than
    one more than the text has characters: a longer run stands still somewhere. -/
def ends (text : Subject) : Node → List Nat → List Nat
  | .empty, is => is
  | .literal cs, is => cs.foldl (fun is c => stepOver text (· == c) is) is
  | .set s, is => stepOver text s.contains is
  | .look l, is => is.filter fun i => l.holdsAt text i
  | .group _ _ a, is => a.ends text is
  | .times a least most _, is =>
    let enough := text.size + 1
    let more := match most with
      | none => enough
      | some most => min (most - least) enough
    let begun := stepTimes (a.ends text) (min least enough) is
    stepUpTo (a.ends text) more begun begun
  | .cat parts, is => endsOfAll text parts is
  | .alt branches, is => endsOfAny text branches is

/-- Where matches of a sequence may end. -/
def endsOfAll (text : Subject) : List Node → List Nat → List Nat
  | [], is => is
  | a :: rest, is => endsOfAll text rest (a.ends text is)

/-- Where matches of one of some alternatives may end. -/
def endsOfAny (text : Subject) : List Node → List Nat → List Nat
  | [], _ => []
  | a :: rest, is => merge (a.ends text is) (endsOfAny text rest is)

end

/-- Whether some part of a text matches. -/
def matchesIn (node : Node) (cs : List Char) : Bool :=
  !(node.ends cs.toArray (List.range (cs.length + 1))).isEmpty

end Node

end Conform.Pattern

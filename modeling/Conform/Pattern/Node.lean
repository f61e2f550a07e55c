import Conform.Pattern.Look

/-!
Patterns. A pattern is built in a normal form: sequences hold no sequences, alternatives no alternatives,
neighbouring characters are one literal, alternatives of single characters are one set, and what all
alternatives begin with stands before them. The normal form bears on the size of a pattern, not on what
it matches.
-/

namespace Conform.Pattern

/-- A pattern. A group has its number among groups, and perhaps a name; a repetition may prefer few. -/
inductive Node
  | empty
  | literal (cs : List Char)
  | set (s : CharSet)
  | look (look : Look)
  | group (index : Nat) (name : Option (List Char)) (a : Node)
  | times (a : Node) (least : Nat) (most : Option Nat) (lazy : Bool)
  | cat (parts : List Node)
  | alt (branches : List Node)
deriving BEq

namespace Node

/-! ### Lengths -/

mutual

/-- The length of the shortest match; there is none where a part matches nothing at all. -/
def leastLength : Node → Option Nat
  | .empty | .look _ => some 0
  | .literal cs => some cs.length
  | .set s => if s.ranges.isEmpty then none else some 1
  | .group _ _ a => a.leastLength
  | .times a least _ _ => a.leastLength.map (least * ·)
  | .cat parts => leastLengthOfAll parts
  | .alt branches => leastLengthOfAny branches

/-- The shortest match of a sequence. -/
def leastLengthOfAll : List Node → Option Nat
  | [] => some 0
  | a :: rest => do pure ((← a.leastLength) + (← leastLengthOfAll rest))

/-- The shortest match of alternatives. -/
def leastLengthOfAny : List Node → Option Nat
  | [] => none
  | [a] => a.leastLength
  | a :: rest => do pure (min (← a.leastLength) (← leastLengthOfAny rest))

end

mutual

/-- The length of the longest match; there is none where matches may grow without end, or a part matches
    nothing at all. -/
def mostLength : Node → Option Nat
  | .empty | .look _ => some 0
  | .literal cs => some cs.length
  | .set s => if s.ranges.isEmpty then none else some 1
  | .group _ _ a => a.mostLength
  | .times a _ most _ => do pure ((← most) * (← a.mostLength))
  | .cat parts => mostLengthOfAll parts
  | .alt branches => mostLengthOfAny branches

/-- The longest match of a sequence. -/
def mostLengthOfAll : List Node → Option Nat
  | [] => some 0
  | a :: rest => do pure ((← a.mostLength) + (← mostLengthOfAll rest))

/-- The longest match of alternatives. -/
def mostLengthOfAny : List Node → Option Nat
  | [] => none
  | [a] => a.mostLength
  | a :: rest => do pure (max (← a.mostLength) (← mostLengthOfAny rest))

end

/-- Whether the pattern matches at a place without taking characters, or not at all. -/
def standsStill (a : Node) : Bool := a.mostLength == some 0

/-! ### Sets and repetitions -/

/-- The pattern of one character of a set. -/
def ofSet (s : CharSet) : Node :=
  match s.onlyMember? with
  | some c => .literal [c]
  | none => .set s

/-- A pattern repeated; one that stands still need not be tried twice. -/
def repeated (a : Node) (least : Nat) (most : Option Nat) (lazy : Bool) : Node :=
  let (least, most) := if a.standsStill then (min least 1, some (min (most.getD 1) 1)) else (least, most)
  if least = 0 ∧ most = some 0 then .empty
  else if least = 1 ∧ most = some 1 then a
  else .times a least most lazy

/-! ### Sequences -/

/-- The parts of a sequence. -/
def parts : Node → List Node
  | .empty => []
  | .cat parts => parts
  | a => [a]

/-- A sequence with neighbouring literals made one. -/
def joinLiterals : List Node → List Node
  | [] => []
  | .literal cs :: rest =>
    match joinLiterals rest with
    | .literal ds :: behind => .literal (cs ++ ds) :: behind
    | rest => .literal cs :: rest
  | a :: rest => a :: joinLiterals rest

/-- One pattern after the other. -/
def sequence (nodes : List Node) : Node :=
  match joinLiterals (nodes.flatMap parts) with
  | [] => .empty
  | [a] => a
  | parts => .cat parts

/-! ### Alternatives -/

/-- The alternatives of a pattern. -/
def branches : Node → List Node
  | .alt branches => branches
  | a => [a]

def char? : Node → Option Char
  | .literal [c] => some c
  | _ => none

def set? : Node → Option CharSet
  | .set s => some s
  | _ => none

/-- One set for alternatives that are single characters, or else sets, throughout. -/
def asSet? (nodes : List Node) : Option CharSet :=
  ((nodes.mapM char?).map fun cs => .unions (cs.map .single)).or ((nodes.mapM set?).map .unions)

/-- How many first parts two sequences share. -/
def sharedParts : List Node → List Node → Nat
  | a :: as, b :: bs => if a == b then sharedParts as bs + 1 else 0
  | _, _ => 0

/-- How many first parts all alternatives share; only sequences have parts to share. -/
def sharedFront (nodes : List Node) : Nat :=
  match nodes.mapM cat? with
  | some (first :: rest) => rest.foldl (fun n parts => min n (sharedParts first parts)) first.length
  | _ => 0
where
  cat? : Node → Option (List Node)
    | .cat parts => some parts
    | _ => none

/-- The choice between patterns, what they begin with being set before them at most `fuel` times. -/
def choiceWithin (fuel : Nat) (nodes : List Node) : Node :=
  match nodes.flatMap branches with
  | [] => .set .empty
  | [a] => a
  | first :: rest =>
    let nodes := first :: rest
    match asSet? nodes, fuel with
    | some s, _ => ofSet s
    | none, 0 => .alt nodes
    | none, fuel + 1 =>
      match sharedFront nodes with
      | 0 => .alt nodes
      | n =>
        let tails := nodes.map fun a => sequence (a.parts.drop n)
        sequence (first.parts.take n ++ [choiceWithin fuel tails])

mutual

/-- How many patterns there are in a pattern. -/
def count : Node → Nat
  | .group _ _ a | .times a _ _ _ => a.count + 1
  | .cat nodes | .alt nodes => countOfAll nodes + 1
  | _ => 1

/-- How many patterns there are in a list. -/
def countOfAll : List Node → Nat
  | [] => 0
  | a :: rest => a.count + countOfAll rest

end

/-- The choice between patterns. -/
def choice (nodes : List Node) : Node := choiceWithin (countOfAll nodes) nodes

end Node

end Conform.Pattern

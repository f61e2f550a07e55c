import Conform.Pattern.Bytes
import Conform.Pattern.Node
import Std.Data.HashMap

/-!
The weight of a pattern. A pattern is matched by two automata over bytes: one reads forward and marks the
groups, the other reads backward and does not. Here the states are counted that the automata have, every
counted repetition written out, and the bytes that they take; a pattern whose automata take too many bytes
is none.

Sets of more than ASCII characters share states where they can. What has been built is remembered in a
table with a fixed number of slots, in which a newer state displaces an older one, so the count depends on
the numbers of the states.
-/

namespace Conform.Pattern

/-- Which way an automaton reads. -/
inductive Direction
  | forward
  | backward
deriving DecidableEq

/-- The states of an automaton so far, and the bytes of the lists that they hold. -/
structure Tally where
  states : Nat
  listed : Nat

namespace Tally

def zero : Tally := ⟨0, 0⟩

/-- The bytes taken: a state takes 32, and what it lists. -/
def bytes (t : Tally) : Nat := 32 * t.states + t.listed

/-- The most bytes that an automaton may take. -/
def limit : Nat := 10485760

def isOver (t : Tally) : Bool := limit < t.bytes

/-- More states that list nothing. -/
def addStates (t : Tally) (n : Nat) : Tally := { t with states := t.states + n }

/-- One more state that lists nothing. -/
def addState (t : Tally) : Tally := t.addStates 1

/-- A state that may be left for any of `n` states. -/
def addChoice (t : Tally) (n : Nat) : Tally := ⟨t.states + 1, t.listed + 4 * n⟩

/-- A state that is left by any of `n` ranges of bytes. -/
def addRanges (t : Tally) (n : Nat) : Tally := ⟨t.states + 1, t.listed + 8 * n⟩

/-- What `step` adds, `n` times; nothing is added once the limit is passed. -/
def addTimes (step : Tally → Tally) : Nat → Tally → Tally
  | 0, t => t
  | n + 1, t => if t.isOver then t else addTimes step n (step t)

end Tally

/-! ### Slots -/

/-- The slot among `slots` of a key made of numbers. -/
def slotOf (slots : Nat) (key : List Nat) : Nat :=
  let mixed := key.foldl (fun (h : UInt64) n => (h ^^^ n.toUInt64) * 1099511628211) 14695981039346656037
  mixed.toNat % slots

/-- States by keys that are lists of numbers: one in each slot, the newest. -/
structure Slots where
  count : Nat
  kept : Std.HashMap Nat (List Nat × Nat)

namespace Slots

def empty (count : Nat) : Slots := ⟨count, ∅⟩

def get? (slots : Slots) (key : List Nat) : Option Nat :=
  match slots.kept[slotOf slots.count key]? with
  | some (key', state) => if key' = key then some state else none
  | none => none

def insert (slots : Slots) (key : List Nat) (state : Nat) : Slots :=
  { slots with kept := slots.kept.insert (slotOf slots.count key) (key, state) }

end Slots

/-! ### Sets, forward -/

namespace Prefixes

/-- A state begun: the transitions that it has, as numbers, and the byte range of one whose end is yet to
    come. -/
structure Begun where
  transitions : List Nat
  last : Option Bytes.ByteRange

/-- The automaton of a set as far as it is built, and the states begun, the innermost first. -/
structure Progress where
  tally : Tally
  slots : Slots
  begun : List Begun

/-- The last transition leads to a state. -/
def Begun.closed (b : Begun) (next : Nat) : Begun :=
  match b.last with
  | some (first, last) => ⟨b.transitions ++ [first, last, next], none⟩
  | none => b

/-- The state with given transitions, which is a new one unless it is remembered. -/
def Progress.state (p : Progress) (transitions : List Nat) : Nat × Progress :=
  match p.slots.get? transitions with
  | some state => (state, p)
  | none =>
    (p.tally.states,
      { p with
        tally := p.tally.addRanges (transitions.length / 3)
        slots := p.slots.insert transitions p.tally.states })

/-- The states begun are finished but for the outer ones of `depth` and the next, whose last transition leads
    to `next` or to what is finished. -/
def Progress.finish (depth next : Nat) : List Begun → Progress → Progress
  | [], p => { p with begun := [] }
  | b :: outer, p =>
    if depth < outer.length then
      let (state, p) := p.state (b.closed next).transitions
      finish depth state outer p
    else { p with begun := b.closed next :: outer }

/-- How many byte ranges of a product are those of the last transitions of the states begun, outermost first. -/
def sharedRanges : List Bytes.ByteRange → List Begun → Nat
  | r :: rest, b :: inner => if b.last = some r then sharedRanges rest inner + 1 else 0
  | _, _ => 0

/-- The automaton with one more product of byte ranges, which must not come before those that it has. -/
def Progress.add (target : Nat) (p : Progress) (product : List Bytes.ByteRange) : Progress :=
  let n := sharedRanges product p.begun.reverse
  let p := Progress.finish n target p.begun p
  match product.drop n, p.begun with
  | r :: rest, b :: outer =>
    { p with begun := (rest.map fun r => ⟨[], some r⟩).reverse ++ { b with last := some r } :: outer }
  | _, _ => p

/-- The states of a set: the last one, those of the products, and the first one. -/
def add (t : Tally) (products : List (List Bytes.ByteRange)) : Tally :=
  let start : Progress := ⟨t.addState, .empty 10000, [⟨[], none⟩]⟩
  let p := products.foldl (Progress.add t.states) start
  let p := Progress.finish 0 t.states p.begun p
  (p.state (p.begun.flatMap (·.transitions))).2.tally

end Prefixes

/-! ### Sets, backward -/

namespace Suffixes

/-- The states of one product behind the state `next`, and the first of them. -/
def addProduct (next : Nat) : List Bytes.ByteRange → Tally × Slots → Nat × Tally × Slots
  | [], (t, slots) => (next, t, slots)
  | (first, last) :: rest, (t, slots) =>
    let key := [next, first, last]
    match slots.get? key with
    | some state => addProduct state rest (t, slots)
    | none => addProduct t.states rest (t.addState, slots.insert key t.states)

/-- The states of a set: a choice between all products, the last state, and those of the products. -/
def add (t : Tally) (products : List (List Bytes.ByteRange)) : Tally :=
  let last := t.states + 1
  let start := (t.addChoice products.length).addState
  (products.foldl (fun p product => (addProduct last product p).2) (start, Slots.empty 1000)).1

end Suffixes

/-! ### Literals side by side -/

namespace Words

/-- Words by their first bytes. -/
def byHead : List (List Nat) → List (Nat × List (List Nat))
  | [] => []
  | [] :: rest => byHead rest
  | (b :: word) :: rest =>
    let groups := byHead rest
    match groups.find? (·.1 == b) with
    | some (_, words) => (b, word :: words) :: groups.filter (·.1 != b)
    | none => (b, [word]) :: groups

/-- The words between those that end here. Of several that end before any goes on, one counts. -/
def runs (begun : Bool) : List (List Nat) → List (List (List Nat))
  | [] => [[]]
  | [] :: rest =>
    if begun || !(rest.head? == some []) then [] :: runs begun rest else runs begun rest
  | word :: rest =>
    match runs true rest with
    | run :: behind => (word :: run) :: behind
    | [] => [[word]]

/-- The states of a tree of words from a branch on which words are left, no deeper than `fuel`: one for every
    run of words, and a choice between these and the end. -/
def addBranch : (fuel : Nat) → List (List Nat) → Tally → Tally
  | 0, _, t => t
  | fuel + 1, words, t =>
    let runs := runs false words
    let going := (runs.filter (!·.isEmpty)).map byHead
    let t := t.addChoice (going.length + (runs.length - 1))
    going.foldl (fun t groups =>
      let t := if groups.length = 1 then t.addState else t.addRanges groups.length
      groups.foldl (fun t (_, words) => if words.all List.isEmpty then t else addBranch fuel words t) t) t

/-- The states of words side by side. -/
def add (t : Tally) (words : List (List Nat)) : Tally :=
  addBranch (words.foldl (fun n word => max n word.length) 0) words t.addState

end Words

/-! ### Patterns -/

namespace Node

/-- The bytes of a literal in the order in which they are read. -/
def literalBytes (d : Direction) (cs : List Char) : List Nat :=
  let bytes := (Text.Utf8.encode cs).map UInt8.toNat
  match d with
  | .forward => bytes
  | .backward => bytes.reverse

def literal? : Node → Option (List Char)
  | .literal cs => some cs
  | _ => none

/-- The tally with the states of a set. -/
def addSet (d : Direction) (s : CharSet) (t : Tally) : Tally :=
  if s.isAscii then t.addState.addRanges s.ranges.length
  else match d with
    | .forward => Prefixes.add t (Bytes.ofSet s)
    | .backward => Suffixes.add t (Bytes.ofSet s)

mutual

/-- The tally with the states of a pattern. -/
def weigh (d : Direction) : Node → Tally → Tally
  | .empty, t | .look _, t => t.addState
  | .literal cs, t => t.addStates (literalBytes d cs).length
  | .set s, t => if t.isOver then t else addSet d s t
  | .group _ _ a, t =>
    match d with
    | .forward => (a.weigh d t.addState).addState
    | .backward => a.weigh d t
  | .times a least most _, t =>
    match most with
    | none =>
      if 0 < least then (Tally.addTimes (a.weigh d) least t).addChoice 2
      else if a.leastLength.any (0 < ·) then a.weigh d (t.addChoice 2)
      else (((a.weigh d t).addChoice 2).addChoice 2).addState
    | some most =>
      if least = 0 ∧ most = 1 then (a.weigh d (t.addChoice 2)).addState
      else
        let t := if least = 0 then t.addState else Tally.addTimes (a.weigh d) least t
        if least = most then t
        else Tally.addTimes (fun t => a.weigh d (t.addChoice 2)) (most - least) t.addState
  | .cat parts, t => weighAll d parts t
  | .alt branches, t =>
    match branches.mapM literal? with
    | some words => Words.add t (words.map (literalBytes d))
    | none => weighAny d 0 branches t

/-- The tally with the states of a sequence, in the order in which they are read. -/
def weighAll (d : Direction) : List Node → Tally → Tally
  | [], t => t
  | a :: rest, t =>
    match d with
    | .forward => weighAll d rest (a.weigh d t)
    | .backward => a.weigh d (weighAll d rest t)

/-- The tally with the states of alternatives, `n` of which are weighed; the choice between them comes when
    there are two. -/
def weighAny (d : Direction) (n : Nat) : List Node → Tally → Tally
  | [], t => t
  | a :: rest, t =>
    let t := a.weigh d t
    weighAny d (n + 1) rest
      (if n = 0 then t else if n = 1 then (t.addChoice 2).addState else { t with listed := t.listed + 4 })

end

mutual

/-- Whether a match must begin where the text does, or in the other direction, end where it ends. -/
def isAnchored (d : Direction) : Node → Bool
  | .look .start => d == .forward
  | .look .finish => d == .backward
  | .group _ _ a => a.isAnchored d
  | .times a least _ _ => 0 < least && a.isAnchored d
  | .cat parts => isAnchoredAll d parts
  | .alt branches => isAnchoredAny d branches
  | _ => false

/-- Whether a sequence is anchored by one of its parts that only such ones precede as stand still. -/
def isAnchoredAll (d : Direction) : List Node → Bool
  | [] => false
  | a :: rest =>
    match d with
    | .forward => a.isAnchored d || (a.standsStill && isAnchoredAll d rest)
    | .backward => isAnchoredAll d rest || (rest.all standsStill && a.isAnchored d)

/-- Whether all alternatives are anchored. -/
def isAnchoredAny (d : Direction) : List Node → Bool
  | [] => true
  | a :: rest => a.isAnchored d && isAnchoredAny d rest

end

/-- The tally of the automaton that reads one way. Unless the pattern is anchored it may skip bytes first. -/
def tally (d : Direction) (a : Node) : Tally :=
  let start :=
    if a.isAnchored d then Tally.zero.addState else ((Tally.zero.addChoice 2).addState).addRanges 1
  match d with
  | .forward => ((a.weigh d start.addState).addState).addState
  | .backward => (a.weigh d start).addState

/-- Whether neither automaton takes more bytes than it may. -/
def isLight (a : Node) : Bool := !(a.tally .forward).isOver && !(a.tally .backward).isOver

end Node

end Conform.Pattern

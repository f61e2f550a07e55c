import Conform.Constraint
import Conform.Policy
import Conform.Target

/-!
Rules. A rule converts a value to its origin, applies the rules of its arguments to the items, then its
combinator, then its constraints. A rule is a layer over rules: whatever is computed from a rule is
computed from its layer, once that is known of the rules inside (`Rule.fold`).
-/

namespace Conform

/-! ### Rules -/

/-- How branches combine. -/
inductive Combinator
  | allOf
  | anyOf
  | oneOf
  | noneOf
deriving DecidableEq

/-- The name of the combinator. -/
def Combinator.name : Combinator → String
  | .allOf => "all_of"
  | .anyOf => "any_of"
  | .oneOf => "one_of"
  | .noneOf => "not"

/-- A combinator and its branches. -/
structure Logic (ρ : Type) where
  op : Combinator
  branches : List ρ

/-- A change of values before or after a rule, with a mark that tells it from others. -/
structure Hook where
  mark : Nat
  run : Value → Value

/-- One layer of a rule, over rules of type `ρ`. -/
structure Layer (ρ : Type) where
  origin : Option Target
  args : List ρ
  constraints : List (Constraint ρ)
  logic : Option (Logic ρ)
  before : Option Hook
  after : Option Hook
  onError : Option ErrorPolicy

/-- A rule. -/
inductive Rule
  | mk (layer : Layer Rule)

namespace Logic

def map {ρ σ : Type} (f : ρ → σ) (l : Logic ρ) : Logic σ := ⟨l.op, l.branches.map f⟩

end Logic

namespace Layer

def map {ρ σ : Type} (f : ρ → σ) (l : Layer ρ) : Layer σ :=
  { l with args := l.args.map f, constraints := l.constraints.map (·.map f), logic := l.logic.map (·.map f) }

end Layer

namespace Rule

def layer : Rule → Layer Rule
  | .mk l => l

/-! ### Folding -/

section Fold

variable {α : Type} (f : Layer α → α)

mutual

/-- What `f` makes of a rule, given what it makes of the rules inside. -/
def fold : Rule → α
  | .mk ⟨origin, args, constraints, logic, before, after, onError⟩ =>
    f ⟨origin, foldList args, foldConstraints constraints, foldLogic? logic, before, after, onError⟩

def foldList : List Rule → List α
  | [] => []
  | r :: rest => fold r :: foldList rest

def foldConstraints : List (Constraint Rule) → List (Constraint α)
  | [] => []
  | ⟨keyword, operand, lax⟩ :: rest => ⟨keyword, foldOperand operand, lax⟩ :: foldConstraints rest

def foldOperand : Operand Rule → Operand α
  | .value v => .value v
  | .pattern p => .pattern p
  | .rule r => .rule (fold r)

def foldLogic? : Option (Logic Rule) → Option (Logic α)
  | none => none
  | some ⟨op, branches⟩ => some ⟨op, foldList branches⟩

end

theorem foldList_eq_map (rs : List Rule) : foldList f rs = rs.map (fold f) := by
  induction rs with
  | nil => rfl
  | cons r rest ih => rw [foldList, ih, List.map_cons]

theorem foldOperand_eq_map (o : Operand Rule) : foldOperand f o = o.map (fold f) := by
  cases o <;> rfl

theorem foldConstraints_eq_map (cs : List (Constraint Rule)) :
    foldConstraints f cs = cs.map (·.map (fold f)) := by
  induction cs with
  | nil => rfl
  | cons c rest ih => rw [foldConstraints, ih, foldOperand_eq_map, List.map_cons]; rfl

theorem foldLogic?_eq_map (l : Option (Logic Rule)) : foldLogic? f l = l.map (·.map (fold f)) := by
  rcases l with _ | ⟨op, branches⟩
  · rfl
  · rw [foldLogic?, foldList_eq_map]; rfl

theorem fold_mk (l : Layer Rule) : fold f (.mk l) = f (l.map (fold f)) := by
  rw [fold, foldList_eq_map, foldConstraints_eq_map, foldLogic?_eq_map]; rfl

end Fold

/-! ### Text -/

def listText (texts : List String) : String := ", ".intercalate texts

def logicText (l : Logic String) : String := l.op.name ++ "(" ++ listText l.branches ++ ")"

/-- The origin, the combinator, the arguments and the constraints, each where there is one. -/
def layerText (l : Layer String) : String :=
  let name := (l.origin.map Target.name).getD "any"
  let head := match l.origin, l.logic with
    | none, some logic => logicText logic
    | _, some logic => name ++ " & " ++ logicText logic
    | _, none => name
  let args := if l.args.isEmpty then "" else "[" ++ listText l.args ++ "]"
  let constraints := if l.constraints.isEmpty then "" else "(" ++ listText (l.constraints.map Constraint.text) ++ ")"
  head ++ args ++ constraints

/-- The text of a rule: its origin and combinator, its arguments and its constraints. -/
def text (r : Rule) : String := fold layerText r

/-! ### Equality -/

def sameList {ρ σ : Type} (same : ρ → σ → Bool) : List ρ → List σ → Bool
  | [], [] => true
  | a :: as, b :: bs => same a b && sameList same as bs
  | _, _ => false

def sameOption {ρ σ : Type} (same : ρ → σ → Bool) : Option ρ → Option σ → Bool
  | none, none => true
  | some a, some b => same a b
  | _, _ => false

/-- Equality of a layer with a rule, given that of the rules inside. -/
def sameLayer (l : Layer (Rule → Bool)) (r : Rule) : Bool :=
  let m := r.layer
  sameOption Target.same l.origin m.origin &&
    sameList (· ·) l.args m.args &&
    sameList (·.sameAs (· ·) ·) l.constraints m.constraints &&
    sameOption (fun a b => a.op == b.op && sameList (· ·) a.branches b.branches) l.logic m.logic &&
    l.onError == m.onError &&
    l.before.map Hook.mark == m.before.map Hook.mark &&
    l.after.map Hook.mark == m.after.map Hook.mark

/-- Equality of rules; hooks are equal if they have the same mark. -/
def same : Rule → Rule → Bool := fold sameLayer

/-! ### Plain rules -/

/-- A rule without constraints. -/
def plain (origin : Option Target) (args : List Rule) : Rule := .mk ⟨origin, args, [], none, none, none, none⟩

/-- The rule that every value satisfies unchanged. -/
def any : Rule := plain none []

def of (t : Target) : Rule := plain (some t) []

def listOf (item : Rule) : Rule := plain (some .list) [item]

def setOf (item : Rule) : Rule := plain (some .set) [item]

def tupleOf (positions : List Rule) : Rule := plain (some .tuple) positions

def mapOf (key value : Rule) : Rule := plain (some .map) [key, value]

def origin? (r : Rule) : Option Target := r.layer.origin

def constraints (r : Rule) : List (Constraint Rule) := r.layer.constraints

/-- The constraints with the texts of their rules. -/
def writtenConstraints (r : Rule) : List (Constraint String) := r.constraints.map (·.map text)

def constraint? (r : Rule) (keyword : Keyword) : Option (Constraint String) :=
  r.writtenConstraints.find? (·.keyword == keyword)

end Rule

end Conform

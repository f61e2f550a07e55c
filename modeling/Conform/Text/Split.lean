/-!
Splitting a text at a character.
-/

namespace Conform.Text

/-- The parts of a list between separators; there is always one. -/
def split {α : Type} [DecidableEq α] (separator : α) : List α → List (List α)
  | [] => [[]]
  | c :: rest =>
    if c = separator then [] :: split separator rest
    else match split separator rest with
      | [] => [[c]]
      | part :: parts => (c :: part) :: parts

/-- What stands before the first separator and behind it, if there is one. -/
def splitFirst? {α : Type} [DecidableEq α] (separator : α) (cs : List α) : Option (List α × List α) :=
  match cs.dropWhile (· != separator) with
  | [] => none
  | _ :: rest => some (cs.takeWhile (· != separator), rest)

end Conform.Text

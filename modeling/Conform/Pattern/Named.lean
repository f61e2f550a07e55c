import Conform.Pattern.Segmentation

/-!
Sets of characters by their names: the classes of POSIX, and the sets that the values of a property make.
A name alone is a property that holds or does not, a category or a script.
-/

namespace Conform.Pattern.CharSet

open Text (Category)

/-! ### Classes of POSIX -/

def asciiDigit : CharSet := Property.table "30-39"

def asciiBlank : CharSet := Property.table "9-D 20"

def asciiWord : CharSet := Property.table "30-39 41-5A 5F 61-7A"

/-- The classes of POSIX, which hold ASCII characters alone. -/
def posix : List (String × CharSet) :=
  [("alnum", Property.table "30-39 41-5A 61-7A"), ("alpha", Property.table "41-5A 61-7A"),
    ("ascii", Property.table "0-7F"), ("blank", Property.table "9 20"), ("cntrl", Property.table "0-1F 7F"),
    ("digit", asciiDigit), ("graph", Property.table "21-7E"), ("lower", Property.table "61-7A"),
    ("print", Property.table "20-7E"), ("punct", Property.table "21-2F 3A-40 5B-60 7B-7E"),
    ("space", asciiBlank), ("upper", Property.table "41-5A"), ("word", asciiWord),
    ("xdigit", Property.asciiHexDigit)]

def posix? (name : String) : Option CharSet := posix.lookup name

/-! ### Names -/

/-- A name without what does not tell names apart: case, blanks, `_`, `-` and a leading `is`. -/
def plainName (cs : List Char) : String :=
  let kept := cs.filter fun c => c.toNat < 128 && c != ' ' && c != '_' && c != '-'
  let lower := kept.map Char.toLower
  match cs.map Char.toLower, lower with
  | 'i' :: 's' :: _, 'i' :: 's' :: rest => if rest = ['c'] then "isc" else String.ofList rest
  | _, _ => String.ofList lower

/-- The sets of a general category by its names. -/
def categories : List (List String × List Category) :=
  [(["l", "letter"], Text.Property.letters),
    (["lc", "casedletter"], [.uppercaseLetter, .lowercaseLetter, .titlecaseLetter]),
    (["lu", "uppercaseletter"], [.uppercaseLetter]), (["ll", "lowercaseletter"], [.lowercaseLetter]),
    (["lt", "titlecaseletter"], [.titlecaseLetter]), (["lm", "modifierletter"], [.modifierLetter]),
    (["lo", "otherletter"], [.otherLetter]), (["m", "mark", "combiningmark"], Text.Property.marks),
    (["mn", "nonspacingmark"], [.nonspacingMark]), (["mc", "spacingmark"], [.spacingMark]),
    (["me", "enclosingmark"], [.enclosingMark]), (["n", "number"], Text.Property.numbers),
    (["nd", "decimalnumber", "digit"], [.decimalNumber]), (["nl", "letternumber"], [.letterNumber]),
    (["no", "othernumber"], [.otherNumber]),
    (["p", "punctuation", "punct"],
      [.connectorPunctuation, .dashPunctuation, .openPunctuation, .closePunctuation, .initialPunctuation,
        .finalPunctuation, .otherPunctuation]),
    (["pc", "connectorpunctuation"], [.connectorPunctuation]), (["pd", "dashpunctuation"], [.dashPunctuation]),
    (["ps", "openpunctuation"], [.openPunctuation]), (["pe", "closepunctuation"], [.closePunctuation]),
    (["pi", "initialpunctuation"], [.initialPunctuation]), (["pf", "finalpunctuation"], [.finalPunctuation]),
    (["po", "otherpunctuation"], [.otherPunctuation]),
    (["s", "symbol"], [.mathSymbol, .currencySymbol, .modifierSymbol, .otherSymbol]),
    (["sm", "mathsymbol"], [.mathSymbol]), (["sc", "currencysymbol"], [.currencySymbol]),
    (["sk", "modifiersymbol"], [.modifierSymbol]), (["so", "othersymbol"], [.otherSymbol]),
    (["z", "separator"], [.spaceSeparator, .lineSeparator, .paragraphSeparator]),
    (["zs", "spaceseparator"], [.spaceSeparator]), (["zl", "lineseparator"], [.lineSeparator]),
    (["zp", "paragraphseparator"], [.paragraphSeparator]), (["cc", "control", "cntrl"], [.control]),
    (["cf", "format"], [.format]), (["co", "privateuse"], [.privateUse])]

/-- The set of a general category, or of all characters, the assigned or the unassigned ones. The category of
    surrogates has no set, since surrogates are no characters. -/
def category? (name : String) : Option CharSet :=
  match categories.find? (·.1.contains name) with
  | some (_, members) => some (Known.categories members)
  | none =>
    if name = "any" then some (complement empty)
    else if name = "ascii" then some (Property.table "0-7F")
    else if name = "assigned" then some Known.assigned
    else if name = "cn" ∨ name = "unassigned" then some Known.assigned.complement
    else if name = "c" ∨ name = "other" then
      some (Known.assigned.complement.union (Known.categories [.control, .format, .privateUse]))
    else none

/-- The set that a name alone stands for. -/
def named? (name : List Char) : Option CharSet :=
  let name := plainName name
  ((Property.set? name).or (category? name)).or ((Script.script? name).map ofRanges)

/-- The set of the characters with a value of a property. -/
def valued? (property value : List Char) : Option CharSet :=
  let property := plainName property
  let value := plainName value
  if property = "gc" ∨ property = "generalcategory" then category? value
  else if property = "sc" ∨ property = "script" then (Script.script? value).map ofRanges
  else if property = "scx" ∨ property = "scriptextensions" then (Script.using? value).map ofRanges
  else if property = "age" then (Age.upTo? value).map ofRanges
  else if property = "gcb" ∨ property = "graphemeclusterbreak" then
    Segmentation.find? Segmentation.graphemeClasses value
  else if property = "wb" ∨ property = "wordbreak" then Segmentation.find? Segmentation.wordClasses value
  else if property = "sb" ∨ property = "sentencebreak" then
    Segmentation.find? Segmentation.sentenceClasses value
  else none

end Conform.Pattern.CharSet

import Conform.Calendar.Timestamp
import Conform.Pattern.Known

/-!
The mark of a time zone at the end of a text: `Z`, `GMT` or `UTC` in either case, the latter two
behind a blank too, or hours and minutes with a sign. It tells texts with an offset from those without.
-/

namespace Conform.Calendar

/-- Whether hours and minutes in digits of any script, a colon between them or not, make up the text. -/
def isOffset (cs : List Char) : Bool :=
  let isDigit (c : Char) : Bool := Pattern.Known.digit.contains c
  match cs with
  | sign :: rest =>
    (sign == '+' || sign == '-') &&
      match rest with
      | [a, b, c, d] => [a, b, c, d].all isDigit
      | [a, b, ':', c, d] => [a, b, c, d].all isDigit
      | _ => false
  | [] => false

/-- A sign, hours, a colon and minutes have six characters. -/
theorem isOffset_of_length {cs : List Char} (h : 6 < cs.length) : isOffset cs = false := by
  match cs with
  | a :: b :: c :: d :: e :: f :: g :: cs => simp [isOffset]

/-- Whether a name of UTC, behind a blank or not, makes up the text. -/
def isZoneName (cs : List Char) : Bool :=
  let isName (cs : List Char) : Bool :=
    cs.map Char.toLower == ['g', 'm', 't'] || cs.map Char.toLower == ['u', 't', 'c']
  isName cs ||
    match cs with
    | blank :: name => Text.isBlank blank && isName name
    | [] => false

/-- Whether a text is a mark of a zone. -/
def isZone (cs : List Char) : Bool := cs == ['z'] || cs == ['Z'] || isOffset cs || isZoneName cs

/-- The text before the longest mark of a zone at its end, if there is one. -/
def beforeZone? : List Char → Option (List Char)
  | [] => none
  | c :: rest => if isZone (c :: rest) then some [] else (beforeZone? rest).map (c :: ·)

theorem beforeZone?_cons (c : Char) (rest : List Char) :
    beforeZone? (c :: rest) = if isZone (c :: rest) then some [] else (beforeZone? rest).map (c :: ·) := rfl

end Conform.Calendar

namespace Conform

open Calendar

/-- A time of day; a mark of a zone behind it is ignored. -/
def Time.ofZonedChars? (cs : List Char) : Option Time :=
  (Time.ofChars? cs).or ((beforeZone? cs).bind fun front => Time.ofChars? (Text.trim front))

end Conform

/-!
White space, as the Unicode property of that name defines it, and trimming it from the ends of a text.
-/

namespace Conform.Text

/-- The characters with the property `White_Space`. -/
def isBlank (c : Char) : Bool :=
  let n := c.toNat
  (9 ≤ n && n ≤ 13) || n == 0x20 || n == 0x85 || n == 0xa0 || n == 0x1680 || (0x2000 ≤ n && n ≤ 0x200a) ||
    n == 0x2028 || n == 0x2029 || n == 0x202f || n == 0x205f || n == 0x3000

def trimStart (cs : List Char) : List Char := cs.dropWhile isBlank

def trimEnd (cs : List Char) : List Char := (cs.reverse.dropWhile isBlank).reverse

def trim (cs : List Char) : List Char := trimEnd (trimStart cs)

/-- The text behind a given beginning, if it begins so. -/
def dropPrefix? (start cs : List Char) : Option (List Char) :=
  match start, cs with
  | [], rest => some rest
  | s :: ss, c :: rest => if s = c then dropPrefix? ss rest else none
  | _ :: _, [] => none

/-- As `dropPrefix?`, for a beginning in lower case, ASCII letters matching in either case. -/
def dropPrefixIgnoringCase? (start cs : List Char) : Option (List Char) :=
  match start, cs with
  | [], rest => some rest
  | s :: ss, c :: rest => if s = c.toLower then dropPrefixIgnoringCase? ss rest else none
  | _ :: _, [] => none

end Conform.Text

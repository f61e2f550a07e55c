import Conform.Numeric.Digits
import Conform.Text.Blank
import Conform.Text.Split
import Conform.Text.Utf8

/-!
Pairs of keys and values in the text of a query or a cookie. A query escapes bytes by `%` and two
digits and the space by `+`; a cookie takes its parts as they stand. The values of a repeated key are
gathered where it first occurs.
-/

namespace Conform.Text.FormData

/-! ### Queries -/

/-- The byte that two digits escape. -/
def escaped? (high low : UInt8) : Option UInt8 := do
  let high ← Digits.hexValue? (Char.ofNat high.toNat)
  let low ← Digits.hexValue? (Char.ofNat low.toNat)
  pure (.ofNat (16 * high + low))

def plain (b : UInt8) : UInt8 := if b = 43 then 32 else b

/-- Bytes with their escapes undone; what is no escape stays. -/
def unescape : List UInt8 → List UInt8
  | [] => []
  | b :: high :: low :: rest =>
    match (if b = 37 then escaped? high low else none) with
    | some byte => byte :: unescape rest
    | none => plain b :: unescape (high :: low :: rest)
  | b :: rest => plain b :: unescape rest

def decode (bytes : List UInt8) : String := String.ofList (Utf8.decodeLossy (unescape bytes))

/-- The pairs of a query: parts between `&`, a key and a value around the first `=`. -/
def ofQuery (cs : List Char) : List (String × String) :=
  ((split 38 (Utf8.encode cs)).filter (!·.isEmpty)).map fun part =>
    match splitFirst? 61 part with
    | some (key, value) => (decode key, decode value)
    | none => (decode part, "")

/-! ### Cookies -/

/-- The pairs of a cookie: parts between semicolons, a key and a value around the first `=`. -/
def ofCookie (cs : List Char) : List (String × String) :=
  (((split ';' cs).map trim).filter (!·.isEmpty)).map fun part =>
    match splitFirst? '=' part with
    | some (key, value) => (String.ofList (trim key), String.ofList (trim value))
    | none => (String.ofList part, "")

/-! ### Gathering -/

/-- One more pair, behind the values that its key has already. -/
def addPair (groups : List (String × List String)) (pair : String × String) : List (String × List String) :=
  match groups with
  | [] => [(pair.1, [pair.2])]
  | (key, values) :: rest =>
    if key = pair.1 then (key, values ++ [pair.2]) :: rest else (key, values) :: addPair rest pair

/-- Each key once, where it first occurs, with all its values in order. -/
def gather (pairs : List (String × String)) : List (String × List String) := pairs.foldl addPair []

end Conform.Text.FormData

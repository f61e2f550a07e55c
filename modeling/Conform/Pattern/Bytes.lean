import Conform.Pattern.CharSet
import Conform.Text.Utf8

/-!
Sets of characters as sets of byte sequences. The characters of a range have, in UTF-8, the sequences of a
few products of byte ranges; a range is cut where its characters would not form such a product.
-/

namespace Conform.Pattern.Bytes

/-- The first and the last byte of a range. -/
abbrev ByteRange := Nat × Nat

/-- The bytes of the character with a code. -/
def ofCode (code : Nat) : List Nat := (Text.Utf8.encode [Char.ofNat code]).map UInt8.toNat

/-- Where a range of codes is to be cut that does not fit blocks of a size: the end of its first part and
    the beginning of its second. -/
def blockCut? (first last size : Nat) : Option (Nat × Nat) :=
  if first / size = last / size then none
  else if first % size ≠ 0 then
    let next := (first / size + 1) * size
    some (next - 1, next)
  else if last % size ≠ size - 1 then
    let next := last / size * size
    some (next - 1, next)
  else none

/-- Where a range of codes is to be cut: around the surrogates, between characters of different lengths,
    and into blocks of those that share all bytes but the last one, two or three. -/
def cut? (first last : Nat) : Option (Nat × Nat) :=
  if first < 0xe000 ∧ 0xd7ff < last then some (0xd7ff, 0xe000)
  else match [0x7f, 0x7ff, 0xffff].find? fun m => first ≤ m && m < last with
    | some m => some (m, m + 1)
    | none => if last < 0x80 then none else [0x40, 0x1000, 0x40000].findSome? (blockCut? first last)

/-- The products of byte ranges that a range of codes makes, cut at most `fuel` times on end. -/
def ofRangeWithin : (fuel : Nat) → (first last : Nat) → List (List ByteRange)
  | 0, _, _ => []
  | fuel + 1, first, last =>
    if last < first then []
    else match cut? first last with
      | some (m, next) => ofRangeWithin fuel first m ++ ofRangeWithin fuel next last
      | none => [(ofCode first).zip (ofCode last)]

/-- The products of byte ranges of a set. No range is cut thirty-two times on end: once around the
    surrogates, at three lengths, and twice for each of three sizes of blocks. -/
def ofSet (s : CharSet) : List (List ByteRange) :=
  s.ranges.flatMap fun (first, last) => ofRangeWithin 32 first last

end Conform.Pattern.Bytes

/-!
UTF-8. Decoding runs a machine over the bytes that remembers what the character begun still needs; a
byte that does not fit ends the character as malformed and is looked at again as the start of the
next. So a malformed sequence is replaced once for its longest sound beginning.
-/

namespace Conform.Text.Utf8

/-- A character begun: how many bytes are missing, the bits so far, and the bounds of the next byte. -/
structure Begun where
  missing : Nat
  bits : Nat
  low : Nat
  high : Nat

/-- What a byte between characters is. -/
inductive Start
  | whole (c : Char)
  | begun (state : Begun)
  | malformed

/-- What a byte begins. The first byte bounds the second, so that no form is overlong and none spells a
    surrogate. -/
def start (byte : UInt8) : Start :=
  let b := byte.toNat
  if b < 0x80 then .whole (Char.ofNat b)
  else if 0xc2 ≤ b ∧ b ≤ 0xdf then .begun ⟨1, b - 0xc0, 0x80, 0xbf⟩
  else if 0xe0 ≤ b ∧ b ≤ 0xef then
    .begun ⟨2, b - 0xe0, if b = 0xe0 then 0xa0 else 0x80, if b = 0xed then 0x9f else 0xbf⟩
  else if 0xf0 ≤ b ∧ b ≤ 0xf4 then
    .begun ⟨3, b - 0xf0, if b = 0xf0 then 0x90 else 0x80, if b = 0xf4 then 0x8f else 0xbf⟩
  else .malformed

/-- The characters of a text, nothing standing for each malformed sequence. -/
def decodeFrom : Option Begun → List UInt8 → List (Option Char)
  | none, [] => []
  | some _, [] => [none]
  | none, byte :: rest =>
    match start byte with
    | .whole c => some c :: decodeFrom none rest
    | .begun state => decodeFrom (some state) rest
    | .malformed => none :: decodeFrom none rest
  | some state, byte :: rest =>
    if state.low ≤ byte.toNat ∧ byte.toNat ≤ state.high then
      let bits := 64 * state.bits + (byte.toNat - 0x80)
      if state.missing = 1 then some (Char.ofNat bits) :: decodeFrom none rest
      else decodeFrom (some ⟨state.missing - 1, bits, 0x80, 0xbf⟩) rest
    else
      none :: match start byte with
        | .whole c => some c :: decodeFrom none rest
        | .begun state => decodeFrom (some state) rest
        | .malformed => none :: decodeFrom none rest

/-- The text of well-formed bytes. -/
def decode? (bytes : List UInt8) : Option (List Char) := (decodeFrom none bytes).mapM id

/-- The text of any bytes, malformed sequences replaced. -/
def decodeLossy (bytes : List UInt8) : List Char := (decodeFrom none bytes).map (·.getD '\ufffd')

/-- The bytes of a text. -/
def encode (cs : List Char) : List UInt8 := cs.flatMap String.utf8EncodeChar

end Conform.Text.Utf8

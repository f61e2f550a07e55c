import Conform.Text.Utf8
import Mathlib.Algebra.Group.Nat.Defs

/-! The texts that bytes spell. Bytes are decoded to a text if and only if they are its encoding: what the machine still
    needs of a character begun is what the character's encoding has left. -/

namespace Conform.Text.Utf8

variable {byte : UInt8} {bytes : List UInt8} {begun : Begun} {c : Char} {cs : List Char} {rest : List (Option Char)}
  {n v : Nat}

/-! ### Encoded characters -/

/-- The last bytes of the encoding of a code point, six bits in each. -/
def continuation : Nat → Nat → List UInt8
  | 0, _ => []
  | n + 1, v => UInt8.ofNat (v / 64 ^ n % 64 + 0x80) :: continuation n v

/-- A code point goes on from a character begun: its first bits are those so far, and its next byte is within the bounds. -/
structure Begun.Continues (begun : Begun) (v : Nat) : Prop where
  bits : v / 64 ^ begun.missing = begun.bits
  low : begun.low ≤ v / 64 ^ (begun.missing - 1) % 64 + 0x80
  high : v / 64 ^ (begun.missing - 1) % 64 + 0x80 ≤ begun.high

theorem toNat_char (h : v.isValidChar) : (Char.ofNat v).toNat = v := by
  rw [Char.ofNat, dif_pos h]
  rfl

theorem encodeChar_eq (c : Char) : String.utf8EncodeChar c =
    if c.toNat < 0x80 then [UInt8.ofNat c.toNat]
    else if c.toNat < 0x800 then UInt8.ofNat (c.toNat / 64 + 0xc0) :: continuation 1 c.toNat
    else if c.toNat < 0x10000 then UInt8.ofNat (c.toNat / 4096 + 0xe0) :: continuation 2 c.toNat
    else UInt8.ofNat (c.toNat / 262144 + 0xf0) :: continuation 3 c.toNat := by
  have hvalid : c.toNat.isValidChar := c.valid
  have hval : c.val.toNat = c.toNat := rfl
  unfold String.utf8EncodeChar
  rw [hval]
  generalize c.toNat = v at hvalid
  simp only [continuation, Nat.le_iff_lt_add_one, Nat.reduceAdd, Nat.reducePow, Nat.div_one]
  split
  · rfl
  split
  next h =>
    rw [Nat.mod_eq_of_lt (Nat.div_lt_of_lt_mul h)]
  split
  next h =>
    rw [Nat.mod_eq_of_lt (Nat.div_lt_of_lt_mul h)]
  next =>
    have hlt : v / 262144 < 8 := by omega
    rw [Nat.mod_eq_of_lt hlt]

theorem toNat_byte (h : n < 256) : (UInt8.ofNat n).toNat = n := by
  rw [UInt8.toNat_ofNat', Nat.mod_eq_of_lt h]

/-- The encoding of a character begins with a byte that begins the character, and its other bytes go on from there. -/
theorem start_encodeChar (c : Char) :
    (∃ byte, String.utf8EncodeChar c = [byte] ∧ start byte = .whole c) ∨
      ∃ byte begun, String.utf8EncodeChar c = byte :: continuation begun.missing c.toNat ∧ start byte = .begun begun ∧
        begun.Continues c.toNat := by
  have hvalid : c.toNat.isValidChar := c.valid
  have hc := Char.ofNat_toNat c
  rw [encodeChar_eq]
  generalize c.toNat = v at hvalid hc
  split
  next h =>
    refine .inl ⟨_, rfl, ?_⟩
    rw [start, toNat_byte (by omega), if_pos h, hc]
  -- The bounds of the second byte leave out shorter forms, surrogates and what lies beyond all characters.
  split
  next h =>
    refine .inr ⟨_, ⟨1, v / 64, 0x80, 0xbf⟩, rfl, ?_, rfl, ?_, ?_⟩
    · rw [start, toNat_byte (by omega), if_neg (by omega), if_pos (by omega), Nat.add_sub_cancel]
    all_goals
      dsimp only
      omega
  split
  next h =>
    refine .inr ⟨_, ⟨2, v / 4096, if v / 4096 = 0 then 0xa0 else 0x80, if v / 4096 = 13 then 0x9f else 0xbf⟩, rfl, ?_, rfl,
      ?_, ?_⟩
    · rw [start, toNat_byte (by omega), if_neg (by omega), if_neg (by omega), if_pos (by omega), Nat.add_sub_cancel]
      congr 3 <;> simp
    all_goals
      dsimp only
      split <;> omega
  next h =>
    refine .inr ⟨_, ⟨3, v / 262144, if v / 262144 = 0 then 0x90 else 0x80, if v / 262144 = 4 then 0x8f else 0xbf⟩, rfl, ?_,
      rfl, ?_, ?_⟩
    · rw [start, toNat_byte (by omega), if_neg (by omega), if_neg (by omega), if_neg (by omega), if_pos (by omega),
        Nat.add_sub_cancel]
      congr 3 <;> simp
    all_goals
      dsimp only
      split <;> omega

theorem encodeChar_of_whole (h : start byte = .whole c) : String.utf8EncodeChar c = [byte] := by
  unfold start at h
  dsimp only at h
  split at h
  next hlow =>
    cases h
    have hvalid : byte.toNat.isValidChar := .inl (by omega)
    rw [encodeChar_eq, toNat_char hvalid, if_pos hlow, UInt8.ofNat_toNat]
  · split at h
    · cases h
    split at h
    · cases h
    split at h <;> cases h

/-- A byte begins a character of two, of three or of four bytes. -/
theorem begun_cases (h : start byte = .begun begun) :
    (byte.toNat = 0xc0 + begun.bits ∧ 2 ≤ begun.bits ∧ begun.bits ≤ 0x1f ∧ begun = ⟨1, begun.bits, 0x80, 0xbf⟩) ∨
      (byte.toNat = 0xe0 + begun.bits ∧ begun.bits ≤ 0xf ∧
        begun = ⟨2, begun.bits, if byte.toNat = 0xe0 then 0xa0 else 0x80, if byte.toNat = 0xed then 0x9f else 0xbf⟩) ∨
      byte.toNat = 0xf0 + begun.bits ∧ begun.bits ≤ 4 ∧
        begun = ⟨3, begun.bits, if byte.toNat = 0xf0 then 0x90 else 0x80, if byte.toNat = 0xf4 then 0x8f else 0xbf⟩ := by
  unfold start at h
  dsimp only at h
  split at h
  · cases h
  split at h
  next hrange =>
    cases h
    exact .inl ⟨by dsimp only; omega, by dsimp only; omega, by dsimp only; omega, rfl⟩
  split at h
  next hrange =>
    cases h
    exact .inr (.inl ⟨by dsimp only; omega, by dsimp only; omega, rfl⟩)
  split at h
  next hrange =>
    cases h
    exact .inr (.inr ⟨by dsimp only; omega, by dsimp only; omega, rfl⟩)
  · cases h

/-- What goes on from a character begun is the encoding of a character. -/
theorem encodeChar_of_begun (h : start byte = .begun begun) (hv : begun.Continues v) :
    String.utf8EncodeChar (Char.ofNat v) = byte :: continuation begun.missing v := by
  have hfirst {base : Nat} (hbase : byte.toNat = base + begun.bits) :
      UInt8.ofNat (v / 64 ^ begun.missing + base) = byte := by
    rw [hv.bits, Nat.add_comm, ← hbase, UInt8.ofNat_toNat]
  obtain ⟨missing, bits, low, high⟩ := begun
  obtain ⟨hbits, hlow, hhigh⟩ := hv
  obtain ⟨hbyte, hleast, hmost, heq⟩ | ⟨hbyte, hmost, heq⟩ | ⟨hbyte, hmost, heq⟩ := begun_cases h
  all_goals
    rw [← hfirst hbyte]
    cases heq
    dsimp only at hbyte hbits hlow hhigh hmost
  · dsimp only at hleast
    have hvalid : v.isValidChar := .inl (by omega)
    rw [encodeChar_eq, toNat_char hvalid, if_neg (by omega), if_pos (by omega)]
    rfl
  · have hlong : 0x800 ≤ v := by split at hlow <;> omega
    have hvalid : v.isValidChar := by
      unfold Nat.isValidChar
      split at hhigh <;> omega
    rw [encodeChar_eq, toNat_char hvalid, if_neg (by omega), if_neg (by omega), if_pos (by omega)]
    rfl
  · have hlong : 0x10000 ≤ v := by split at hlow <;> omega
    have hvalid : v.isValidChar := by
      unfold Nat.isValidChar
      split at hhigh <;> omega
    rw [encodeChar_eq, toNat_char hvalid, if_neg (by omega), if_neg (by omega), if_neg (by omega)]
    rfl

/-! ### The machine -/

/-- A character begun needs a byte, and all its bytes but the first are in this range. -/
structure Begun.Sound (begun : Begun) : Prop where
  missing : begun.missing ≠ 0
  low : 0x80 ≤ begun.low
  high : begun.high ≤ 0xbf

theorem sound_of_start (h : start byte = .begun begun) : begun.Sound := by
  obtain ⟨-, -, -, heq⟩ | ⟨-, -, heq⟩ | ⟨-, -, heq⟩ := begun_cases h
  · rw [heq]
    exact ⟨Nat.one_ne_zero, Nat.le_refl _, Nat.le_refl _⟩
  all_goals
    rw [heq]
    refine ⟨Nat.succ_ne_zero _, ?_, ?_⟩ <;> dsimp only <;> split <;> decide

section Bytes

variable {bits low high : Nat}

theorem continues_succ : Begun.Continues ⟨n + 1, bits, low, high⟩ v ↔
    v / 64 ^ n / 64 = bits ∧ low ≤ v / 64 ^ n % 64 + 0x80 ∧ v / 64 ^ n % 64 + 0x80 ≤ high := by
  rw [Nat.div_div_eq_div_mul, ← Nat.pow_succ]
  exact ⟨fun h => ⟨h.bits, h.low, h.high⟩, fun h => ⟨h.1, h.2.1, h.2.2⟩⟩

/-- A byte within the bounds is the next one of a code point that goes on from a character begun if it brings the bits of the
    code point. -/
theorem bits_eq_iff (hbegun : Begun.Sound ⟨n + 1, bits, low, high⟩) (hbyte : low ≤ byte.toNat ∧ byte.toNat ≤ high) :
    v / 64 ^ n = 64 * bits + (byte.toNat - 0x80) ↔
      Begun.Continues ⟨n + 1, bits, low, high⟩ v ∧ UInt8.ofNat (v / 64 ^ n % 64 + 0x80) = byte := by
  obtain ⟨-, hlow, hhigh⟩ := hbegun
  dsimp only at hlow hhigh
  rw [continues_succ]
  generalize v / 64 ^ n = w
  constructor
  · intro h
    have hsix : w % 64 + 0x80 = byte.toNat := by omega
    rw [hsix, UInt8.ofNat_toNat]
    exact ⟨⟨by omega, hbyte⟩, rfl⟩
  · rintro ⟨⟨hbits, -, -⟩, hsix⟩
    have hbyte := congrArg UInt8.toNat hsix
    rw [toNat_byte (by omega)] at hbyte
    omega

theorem bounds_of_continues (h : Begun.Continues ⟨n + 1, bits, low, high⟩ v)
    (hbyte : UInt8.ofNat (v / 64 ^ n % 64 + 0x80) = byte) : low ≤ byte.toNat ∧ byte.toNat ≤ high := by
  rw [← hbyte, toNat_byte (by omega)]
  exact (continues_succ.mp h).2

theorem cons_eq_continuation {more : List UInt8} : byte :: bytes = continuation (n + 1) v ++ more ↔
    UInt8.ofNat (v / 64 ^ n % 64 + 0x80) = byte ∧ bytes = continuation n v ++ more := by
  rw [continuation, List.cons_append, List.cons.injEq, eq_comm]

/-- What bytes spell after the first bits of a character, of which so many bytes are missing. -/
def decodeAfter (missing bits : Nat) (bytes : List UInt8) : List (Option Char) :=
  if missing = 0 then some (Char.ofNat bits) :: decodeFrom none bytes
  else decodeFrom (some ⟨missing, bits, 0x80, 0xbf⟩) bytes

theorem decodeFrom_within (h : low ≤ byte.toNat ∧ byte.toNat ≤ high) :
    decodeFrom (some ⟨n + 1, bits, low, high⟩) (byte :: bytes) = decodeAfter n (64 * bits + (byte.toNat - 0x80)) bytes := by
  rw [decodeFrom]
  dsimp only
  rw [if_pos h, decodeAfter, Nat.add_sub_cancel]
  simp only [Nat.add_eq_right]

/-- A byte out of bounds leaves nothing of a character begun. -/
theorem decodeFrom_beyond (h : ¬(low ≤ byte.toNat ∧ byte.toNat ≤ high)) :
    decodeFrom (some ⟨n + 1, bits, low, high⟩) (byte :: bytes) ≠ some c :: rest := by
  rw [decodeFrom]
  dsimp only
  rw [if_neg h]
  exact fun heq => nomatch heq

/-- One byte, if what follows it is known. -/
theorem decodeFrom_succ (hbegun : Begun.Sound ⟨n + 1, bits, low, high⟩)
    (hafter : ∀ w bytes, decodeAfter n w bytes = some c :: rest ↔ ∃ v more, v / 64 ^ n = w ∧ c = Char.ofNat v ∧
      bytes = continuation n v ++ more ∧ decodeFrom none more = rest) :
    decodeFrom (some ⟨n + 1, bits, low, high⟩) bytes = some c :: rest ↔
      ∃ v more, Begun.Continues ⟨n + 1, bits, low, high⟩ v ∧ c = Char.ofNat v ∧ bytes = continuation (n + 1) v ++ more ∧
        decodeFrom none more = rest := by
  cases bytes with
  | nil =>
    refine iff_of_false (fun h => nomatch h) ?_
    rintro ⟨v, more, -, -, h, -⟩
    cases h
  | cons byte bytes =>
    simp only [cons_eq_continuation]
    by_cases hbyte : low ≤ byte.toNat ∧ byte.toNat ≤ high
    · rw [decodeFrom_within hbyte, hafter]
      refine exists_congr fun v => exists_congr fun more => ?_
      rw [bits_eq_iff hbegun hbyte]
      constructor
      · rintro ⟨⟨hv, hsix⟩, hc, hbytes, hrest⟩
        exact ⟨hv, hc, ⟨hsix, hbytes⟩, hrest⟩
      · rintro ⟨hv, hc, ⟨hsix, hbytes⟩, hrest⟩
        exact ⟨⟨hv, hsix⟩, hc, hbytes, hrest⟩
    · refine iff_of_false (decodeFrom_beyond hbyte) ?_
      rintro ⟨v, more, hv, -, ⟨hsix, -⟩, -⟩
      exact hbyte (bounds_of_continues hv hsix)

theorem decodeAfter_eq_cons : decodeAfter n bits bytes = some c :: rest ↔ ∃ v more, v / 64 ^ n = bits ∧ c = Char.ofNat v ∧
    bytes = continuation n v ++ more ∧ decodeFrom none more = rest := by
  induction n generalizing bits bytes with
  | zero =>
    simp only [decodeAfter, continuation, if_true, List.cons.injEq, Option.some.injEq, Nat.pow_zero, Nat.div_one,
      List.nil_append]
    constructor
    · rintro ⟨rfl, rfl⟩
      exact ⟨bits, bytes, rfl, rfl, rfl, rfl⟩
    · rintro ⟨v, more, rfl, rfl, rfl, rfl⟩
      exact ⟨rfl, rfl⟩
  | succ n ih =>
    have hbegun : Begun.Sound ⟨n + 1, bits, 0x80, 0xbf⟩ := ⟨Nat.succ_ne_zero n, Nat.le_refl _, Nat.le_refl _⟩
    rw [decodeAfter, if_neg (Nat.succ_ne_zero n), decodeFrom_succ hbegun fun _ _ => ih]
    refine exists_congr fun v => exists_congr fun more => and_congr_left fun _ => ?_
    rw [continues_succ, Nat.div_div_eq_div_mul, ← Nat.pow_succ]
    exact ⟨And.left, fun h => ⟨h, by omega, by omega⟩⟩

end Bytes

/-- A character begun is decoded from the rest of the encoding of a code point that goes on from it. -/
theorem decodeFrom_begun (hbegun : begun.Sound) : decodeFrom (some begun) bytes = some c :: rest ↔
    ∃ v more, begun.Continues v ∧ c = Char.ofNat v ∧ bytes = continuation begun.missing v ++ more ∧
      decodeFrom none more = rest := by
  obtain ⟨missing, bits, low, high⟩ := begun
  obtain ⟨n, rfl⟩ := Nat.exists_eq_succ_of_ne_zero hbegun.missing
  exact decodeFrom_succ hbegun fun _ _ => decodeAfter_eq_cons

/-- A text begins with a character if the bytes begin with its encoding, and its rest is what the other bytes spell. -/
theorem decodeFrom_eq_cons : decodeFrom none bytes = some c :: rest ↔
    ∃ more, bytes = String.utf8EncodeChar c ++ more ∧ decodeFrom none more = rest := by
  constructor
  · intro h
    cases bytes with
    | nil => cases h
    | cons byte bytes =>
      rw [decodeFrom] at h
      cases hstart : start byte with
      | whole d =>
        rw [hstart] at h
        cases h
        exact ⟨bytes, by rw [encodeChar_of_whole hstart]; rfl, rfl⟩
      | begun begun =>
        rw [hstart] at h
        obtain ⟨v, more, hv, rfl, rfl, hrest⟩ := (decodeFrom_begun (sound_of_start hstart)).mp h
        exact ⟨more, by rw [encodeChar_of_begun hstart hv]; rfl, hrest⟩
      | malformed =>
        rw [hstart] at h
        cases h
  · rintro ⟨more, rfl, rfl⟩
    obtain ⟨byte, hbytes, hstart⟩ | ⟨byte, begun, hbytes, hstart, hv⟩ := start_encodeChar c
    · rw [hbytes, List.singleton_append, decodeFrom, hstart]
    · rw [hbytes, List.cons_append, decodeFrom, hstart]
      exact (decodeFrom_begun (sound_of_start hstart)).mpr ⟨_, more, hv, (Char.ofNat_toNat c).symm, rfl, rfl⟩

theorem decodeFrom_begun_ne_nil : decodeFrom (some begun) bytes ≠ [] := by
  induction bytes generalizing begun with
  | nil => exact List.cons_ne_nil _ _
  | cons byte bytes ih =>
    rw [decodeFrom]
    dsimp only
    split
    · split
      · exact List.cons_ne_nil _ _
      · exact ih
    · exact List.cons_ne_nil _ _

theorem decodeFrom_eq_nil : decodeFrom none bytes = [] ↔ bytes = [] := by
  constructor
  · intro h
    cases bytes with
    | nil => rfl
    | cons byte bytes =>
      rw [decodeFrom] at h
      split at h
      · cases h
      · exact absurd h decodeFrom_begun_ne_nil
      · cases h
  · rintro rfl
    rfl

/-! ### Texts -/

theorem mapM_id_eq_some {l : List (Option Char)} : l.mapM id = some cs ↔ l = cs.map some := by
  induction l generalizing cs with
  | nil => cases cs <;> simp
  | cons x l ih =>
    rw [List.mapM_cons]
    cases x with
    | none => cases cs <;> simp
    | some c => cases cs <;> simp [Option.bind_eq_some_iff, ih, and_left_comm]

/-- Bytes spell a text if and only if they are its encoding. -/
theorem decode?_eq_some_iff : decode? bytes = some cs ↔ encode cs = bytes := by
  rw [decode?, mapM_id_eq_some]
  induction cs generalizing bytes with
  | nil =>
    rw [List.map_nil, decodeFrom_eq_nil]
    exact eq_comm
  | cons c cs ih =>
    rw [List.map_cons, decodeFrom_eq_cons]
    constructor
    · rintro ⟨more, rfl, hmore⟩
      exact congrArg (String.utf8EncodeChar c ++ ·) (ih.mp hmore)
    · rintro rfl
      exact ⟨encode cs, rfl, ih.mpr rfl⟩

/-- Bytes become other bytes by way of their text if they spell none. -/
theorem encode_decodeLossy_eq_iff : encode (decodeLossy bytes) = bytes ↔ (decode? bytes).isSome = true := by
  constructor
  · intro h
    rw [decode?_eq_some_iff.mpr h]
    rfl
  · intro h
    obtain ⟨cs, hcs⟩ := Option.isSome_iff_exists.mp h
    have hall := hcs
    rw [decode?, mapM_id_eq_some] at hall
    have hlossy : decodeLossy bytes = cs := by
      rw [decodeLossy, hall, List.map_map]
      exact List.map_id cs
    rw [hlossy]
    exact decode?_eq_some_iff.mp hcs

end Conform.Text.Utf8

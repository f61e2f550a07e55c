import Conform.Conversion
import Conform.Proofs.Text.Utf8
import Conform.Registry.Standard

/-! Containers with one item. Where nothing is forbidden, a list, a tuple or a set with one item converts to a number, a
    text, a date or a time, a duration or an identifier as the item does, and fails as it does. Bytes are apart: those of a
    container are the encoding of what the item is as a text, so an item of bytes that encode no text becomes other bytes. -/

namespace Conform

open Text.Utf8 (decode? decode?_eq_some_iff decodeLossy encode encode_decodeLossy_eq_iff)

/-- A container has the value as its only item. -/
def Value.HoldsOnly (v x : Value) : Prop := v = .list [x] ∨ v = .tuple [x] ∨ v = .set [x]

/-- Whether the values of a target are read out of containers with one item. -/
def Target.isReadOut : Target → Bool
  | .int | .float | .decimal | .str | .bytes | .date | .time | .datetime | .duration | .uuid => true
  | _ => false

namespace Registry

variable {v x : Value} {t : Target} {bs : List UInt8}

/-- A container with one item converts as its item where the converter of the target reads the item out. -/
theorem convert_of_holdsOnly (hv : v.HoldsOnly x) (ht : t.isReadOut = true) (hbytes : t ≠ .bytes) :
    standard.convert ⟨false, false⟩ v t = standard.convert ⟨false, false⟩ x t := by
  cases t with
  | bytes => exact absurd rfl hbytes
  | int | float | decimal | str | date | time | datetime | duration | uuid => obtain rfl | rfl | rfl := hv <;> rfl
  | _ => cases ht

/-! ### Bytes -/

/-- What the standard converters of a value may call on where nothing is forbidden. -/
def openScope (v : Value) : Scope :=
  let reread := convertPlain standard ⟨false, false⟩
  ⟨false, lone? standard ⟨false, false⟩ reread v, reread⟩

/-- Where nothing is forbidden, a value that does not belong to the target is converted, and so is what a member stores. -/
theorem convert_open {converter : Converter} (hresolve : t.kind?.bind standard.resolve? = some converter) (x : Value) :
    standard.convert ⟨false, false⟩ x t =
      if t.isExact x then .ok x
      else if t.isExact (unwrapped t x) then .ok (unwrapped t x)
      else converter (openScope x) (unwrapped t x) t := by
  unfold convert convertWith convertAt
  rw [hresolve]
  rfl

/-- What is a text already is left as it is, as the converter of texts leaves it. -/
theorem convert_str_eq (x : Value) :
    standard.convert ⟨false, false⟩ x .str = Converter.toStr (openScope x) (unwrapped .str x) .str := by
  have hexact {u : Value} (h : Target.str.isExact u = true) : Converter.toStr (openScope x) u .str = .ok u := by
    cases u with
    | str s => rfl
    | _ => cases h
  rw [convert_open rfl]
  split
  next h =>
    have hplain : unwrapped .str x = x := by
      cases x with
      | member => cases h
      | _ => rfl
    rw [hplain, hexact h]
  · split
    next h => rw [hexact h]
    · rfl

theorem exists_of_isExact {u : Value} (h : Target.bytes.isExact u = true) : ∃ bs, u = .bytes bs := by
  cases u with
  | bytes bs => exact ⟨bs, rfl⟩
  | _ => cases h

theorem convert_bytes_eq (h : Target.bytes.isExact (unwrapped .bytes x) = false) :
    standard.convert ⟨false, false⟩ x .bytes = Converter.toBytes (openScope x) (unwrapped .bytes x) .bytes := by
  have hplain : Target.bytes.isExact x = false := by
    cases x with
    | bytes => cases h
    | _ => rfl
  rw [convert_open rfl, hplain, h]
  rfl

theorem convert_stored (h : unwrapped .bytes x = .bytes bs) :
    standard.convert ⟨false, false⟩ x .bytes = .ok (.bytes bs) := by
  rw [convert_open rfl, h]
  split
  next hexact =>
    cases x with
    | bytes => rw [← h]; rfl
    | _ => cases hexact
  · rfl

/-- The bytes of a container with one item are those of the item as a text. -/
theorem convert_bytes_of_holdsOnly (hv : v.HoldsOnly x) :
    standard.convert ⟨false, false⟩ v .bytes = Converter.toBytes (openScope x) (unwrapped .bytes x) .bytes := by
  have hinside : standard.convert ⟨false, false⟩ v .bytes = Converter.toBytes (openScope v) v .bytes := by
    obtain rfl | rfl | rfl := hv <;> rfl
  have htext : Converter.toStr (openScope v) v .str = standard.convert ⟨false, false⟩ x .str := by
    obtain rfl | rfl | rfl := hv <;> rfl
  have hstored : unwrapped .bytes x = unwrapped .str x := by cases x <;> rfl
  rw [hinside, Converter.toBytes, htext, convert_str_eq, ← hstored]
  rfl

/-- Bytes are read as a text on the way, malformed ones being replaced. -/
theorem toBytes_bytes (s : Scope) (hs : s.forbidsLoss = false) (bs : List UInt8) :
    Converter.toBytes s (.bytes bs) .bytes = .ok (.bytes (encode (decodeLossy bs))) := by
  unfold Converter.toBytes Converter.toStr
  dsimp only
  cases hdecoded : decode? bs with
  | none =>
    rw [Scope.allowLoss, hs]
    simp only [Bool.false_eq_true, if_false, bind, Except.bind, pure, Except.pure, String.toList_ofList]
  | some cs =>
    have hkept : encode (decodeLossy bs) = bs := encode_decodeLossy_eq_iff.mpr (by rw [hdecoded]; rfl)
    dsimp only
    rw [String.toList_ofList, decode?_eq_some_iff.mp hdecoded, hkept]

/-- A container with one item converts as the item does, unless bytes are asked for and the item is, or stores, bytes that
    encode no text; these come out with what is malformed replaced. -/
theorem convert_holdsOnly_iff (hv : v.HoldsOnly x) (ht : t.isReadOut = true) :
    (standard.convert ⟨false, false⟩ v t = standard.convert ⟨false, false⟩ x t ↔
        ∀ bs, t = .bytes → unwrapped t x = .bytes bs → (decode? bs).isSome = true) ∧
      ∀ bs, t = .bytes → unwrapped t x = .bytes bs →
        standard.convert ⟨false, false⟩ x t = .ok (.bytes bs) ∧
          standard.convert ⟨false, false⟩ v t = .ok (.bytes (encode (decodeLossy bs))) := by
  by_cases hbytes : t = .bytes
  case neg =>
    exact ⟨iff_of_true (convert_of_holdsOnly hv ht hbytes) fun _ h => absurd h hbytes, fun _ h => absurd h hbytes⟩
  subst hbytes
  have houter (bs : List UInt8) (hbs : unwrapped .bytes x = .bytes bs) :
      standard.convert ⟨false, false⟩ v .bytes = .ok (.bytes (encode (decodeLossy bs))) := by
    rw [convert_bytes_of_holdsOnly hv, hbs, toBytes_bytes _ rfl]
  refine ⟨⟨fun h bs _ hbs => ?_, fun h => ?_⟩, fun bs _ hbs => ⟨convert_stored hbs, houter bs hbs⟩⟩
  · rw [convert_stored hbs, houter bs hbs] at h
    injection h with h
    injection h with h
    exact encode_decodeLossy_eq_iff.mp h
  · cases hstored : Target.bytes.isExact (unwrapped .bytes x) with
    | false => rw [convert_bytes_of_holdsOnly hv, convert_bytes_eq hstored]
    | true =>
      obtain ⟨bs, hbs⟩ := exists_of_isExact hstored
      rw [convert_stored hbs, houter bs hbs, encode_decodeLossy_eq_iff.mpr (h bs rfl hbs)]

theorem convert_held_bytes :
    standard.convert ⟨false, false⟩ (.tuple [.bytes [0x61]]) .bytes = standard.convert ⟨false, false⟩ (.bytes [0x61]) .bytes ∧
      standard.convert ⟨false, false⟩ (.set [.bytes [0x61, 0xff]]) .bytes = .ok (.bytes [0x61, 0xef, 0xbf, 0xbd]) := by
  have hletter := convert_holdsOnly_iff (v := .tuple [.bytes [0x61]]) (t := .bytes) (.inr (.inl rfl)) rfl
  have hmalformed := convert_holdsOnly_iff (v := .set [.bytes [0x61, 0xff]]) (t := .bytes) (.inr (.inr rfl)) rfl
  refine ⟨hletter.1.mpr fun bs _ h => ?_, (hmalformed.2 _ rfl rfl).2⟩
  cases h
  rfl

/-- A byte that encodes no text stays as it is, but does not within a list. -/
theorem byte_replaced :
    standard.convert ⟨false, false⟩ (.bytes [0xff]) .bytes = .ok (.bytes [0xff]) ∧
      standard.convert ⟨false, false⟩ (.list [.bytes [0xff]]) .bytes = .ok (.bytes [0xef, 0xbf, 0xbd]) := ⟨rfl, rfl⟩

end Registry

end Conform

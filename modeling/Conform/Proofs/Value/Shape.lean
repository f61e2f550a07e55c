import Conform.Proofs.Conversion.Number
import Conform.Proofs.Json.Members
import Conform.Proofs.Numeric.Written

/-! A document that becomes a value and is written again keeps its shape at every depth, except for the unsigned integers
    beyond 64 bits with sign. Those become decimals, which a document can only hold as texts. -/

namespace Conform

theorem Decimal.text_ofInt {i : Int} (h : i.natAbs < twoTo 96) : (ofInt i).text = Json.integerChars i := by
  have hpos : 0 < (Digits.ofNat i.natAbs).length := List.length_pos_iff.mpr Digits.ofNat_ne_nil
  have hpadded : Digits.padded 1 i.natAbs = Digits.ofNat i.natAbs := by
    rw [Digits.padded, Nat.sub_eq_zero_of_le hpos, List.replicate_zero, List.nil_append]
  by_cases hnegative : i < 0 <;> simp [ofInt, dif_pos h, text, hpadded, Json.integerChars, hnegative]

namespace Json

/-! ### Documents -/

/-- What a document may hold: integers of 64 bits with or without sign, finite numbers, and objects whose members are in the
    order of their keys, each key there once. -/
inductive WellFormed : Json → Prop
  | null : WellFormed .null
  | bool (b : Bool) : WellFormed (.bool b)
  | integer {i : Int} (hmin : Int64.minValue.toInt ≤ i) (hmax : i < twoTo 64) : WellFormed (.integer i)
  | float {x : Binary64} (hx : x.isFinite = true) : WellFormed (.float x)
  | string (s : String) : WellFormed (.string s)
  | array {items : List Json} (hitems : ∀ j ∈ items, WellFormed j) : WellFormed (.array items)
  | object {members : List (String × Json)} (hordered : Ordered members) (hmembers : ∀ m ∈ members, WellFormed m.2) :
      WellFormed (.object members)

/-- Whether an integer occurs in a document, at whatever depth. -/
inductive Contains (i : Int) : Json → Prop
  | integer : Contains i (.integer i)
  | array {items : List Json} {j : Json} (hmem : j ∈ items) (h : Contains i j) : Contains i (.array items)
  | object {members : List (String × Json)} {m : String × Json} (hmem : m ∈ members) (h : Contains i m.2) :
      Contains i (.object members)

mutual

/-- The document with each integer beyond 64 bits with sign as the text that spells it. -/
def spelled : Json → Json
  | .integer i => if i ≤ Int64.maxValue.toInt then .integer i else .string (String.ofList (integerChars i))
  | .array items => .array (spelledItems items)
  | .object members => .object (spelledMembers members)
  | j => j

def spelledItems : List Json → List Json
  | [] => []
  | j :: rest => j.spelled :: spelledItems rest

def spelledMembers : List (String × Json) → List (String × Json)
  | [] => []
  | (k, j) :: rest => (k, j.spelled) :: spelledMembers rest

end

theorem spelledItems_eq (items : List Json) : spelledItems items = items.map spelled := by
  induction items with
  | nil => rfl
  | cons j rest ih => exact congrArg (j.spelled :: ·) ih

theorem spelledMembers_eq (members : List (String × Json)) :
    spelledMembers members = members.map fun m => (m.1, m.2.spelled) := by
  induction members with
  | nil => rfl
  | cons m rest ih => exact congrArg ((m.1, m.2.spelled) :: ·) ih

theorem spelled_integer (i : Int) : (integer i).spelled =
    if i ≤ Int64.maxValue.toInt then .integer i else .string (String.ofList (integerChars i)) := rfl

theorem spelled_array (items : List Json) : (array items).spelled = .array (items.map spelled) :=
  congrArg array (spelledItems_eq items)

theorem spelled_object (members : List (String × Json)) :
    (object members).spelled = .object (members.map fun m => (m.1, m.2.spelled)) :=
  congrArg object (spelledMembers_eq members)

/-! ### Out and back -/

variable {i : Int} {items : List Json} {members : List (String × Json)} {j : Json}

theorem toJson_toValue_integer (hmin : Int64.minValue.toInt ≤ i) (hmax : i < twoTo 64) :
    (integer i).toValue.toJson = (integer i).spelled := by
  by_cases h : i ≤ Int64.maxValue.toInt
  · have hint : int64? i = some (.ofInt i) := if_pos ⟨hmin, h⟩
    rw [toValue, hint, spelled_integer, if_pos h]
    dsimp only
    rw [Value.toJson, toInt_of_int64? hint]
  · have hint : int64? i = none := if_neg fun hboth => h hboth.2
    have hmantissa : i.natAbs < twoTo 96 := by
      have hfirst : twoTo 64 = 18446744073709551616 := rfl
      have hsecond : twoTo 96 = 79228162514264337593543950336 := rfl
      have hleast : Int64.minValue.toInt = -9223372036854775808 := rfl
      omega
    rw [toValue, hint, spelled_integer, if_neg h]
    dsimp only
    rw [Value.toJson, Decimal.text_ofInt hmantissa]

theorem toJson_toValue_array (h : ∀ j ∈ items, j.toValue.toJson = j.spelled) :
    (array items).toValue.toJson = (array items).spelled := by
  rw [toValue_array, Value.toJson_list, List.map_map, spelled_array]
  exact congrArg array (List.map_congr_left h)

theorem toJson_toValue_object (hordered : Ordered members) (h : ∀ m ∈ members, m.2.toValue.toJson = m.2.spelled) :
    (object members).toValue.toJson = (object members).spelled := by
  -- Writing sorts the members once more, which leaves them where they are.
  have hwritten : (members.map fun m => (m.1, m.2.toValue.toJson)) = members.map fun m => (m.1, m.2.spelled) :=
    List.map_congr_left fun m hm => by rw [h m hm]
  have hkept : Ordered (members.map fun m => (m.1, m.2.spelled)) := List.pairwise_map.mpr hordered
  rw [toValue_object, Value.toJson_map, List.map_map, spelled_object,
    ← sortMembers_of_ordered hkept, ← hwritten]
  rfl

theorem toJson_toValue (h : j.WellFormed) : j.toValue.toJson = j.spelled := by
  induction h with
  | null => rfl
  | bool b => rfl
  | integer hmin hmax => exact toJson_toValue_integer hmin hmax
  | float hx => exact if_pos hx
  | string s => rfl
  | array _ ih => exact toJson_toValue_array ih
  | object hordered _ ih => exact toJson_toValue_object hordered ih

/-! ### What is not spelled -/

theorem spelled_array_eq_iff : (array items).spelled = array items ↔ ∀ j ∈ items, j.spelled = j := by
  rw [spelled_array, array.injEq]
  conv_lhs => rw [← List.map_id items, List.map_map]
  exact List.map_inj_left

theorem spelled_object_eq_iff : (object members).spelled = object members ↔ ∀ m ∈ members, m.2.spelled = m.2 := by
  rw [spelled_object, object.injEq]
  conv_lhs => rw [← List.map_id members, List.map_map]
  refine List.map_inj_left.trans (forall₂_congr fun m _ => ?_)
  exact Prod.ext_iff.trans (and_iff_right rfl)

theorem spelled_eq_iff (h : j.WellFormed) : j.spelled = j ↔ ∀ i, j.Contains i → i ≤ Int64.maxValue.toInt := by
  induction h with
  | null | bool | float | string => exact iff_of_true rfl fun i hi => by cases hi
  | @integer i hmin hmax =>
    rw [spelled_integer]
    split
    next hle => exact iff_of_true rfl fun _ hi => by cases hi; exact hle
    next hgt => exact iff_of_false nofun fun hall => hgt (hall i .integer)
  | array _ ih =>
    rw [spelled_array_eq_iff, forall₂_congr ih]
    exact ⟨fun hall i hi => by cases hi with | array hmem hi => exact hall _ hmem i hi,
      fun hall j hmem i hi => hall i (.array hmem hi)⟩
  | object _ _ ih =>
    rw [spelled_object_eq_iff, forall₂_congr ih]
    exact ⟨fun hall i hi => by cases hi with | object hmem hi => exact hall _ hmem i hi,
      fun hall m hmem i hi => hall i (.object hmem hi)⟩

/-- A document comes back with each unsigned integer beyond 64 bits with sign as a text and everything else as it was. So it
    keeps its shape if and only if no such integer is in it. -/
theorem shape_of_toValue (h : j.WellFormed) : j.toValue.toJson = j.spelled ∧
    (j.toValue.toJson = j ↔ ∀ i, j.Contains i → i ≤ Int64.maxValue.toInt) :=
  ⟨toJson_toValue h, by rw [toJson_toValue h]; exact spelled_eq_iff h⟩

/-- A number, a text, null and a truth value inside an object and a list stay; the greatest unsigned integer does not. -/
theorem shape_of_toValue_nested :
    let items : List Json := [.integer 1, .float ⟨0x4004000000000000⟩, .string "x", .null, .bool true]
    let j : Json := .object [("a", .array items), ("b", .array [.integer 18446744073709551615])]
    j.WellFormed ∧ j.toValue.toJson = .object [("a", .array items), ("b", .array [.string "18446744073709551615"])] := by
  intro items j
  have hitems : (array items).WellFormed := .array <| List.forall_mem_cons.mpr ⟨.integer (by decide) (by decide),
    List.forall_mem_cons.mpr ⟨.float (by decide), List.forall_mem_cons.mpr ⟨.string _, List.forall_mem_cons.mpr ⟨.null,
    List.forall_mem_singleton.mpr (.bool _)⟩⟩⟩⟩
  have hgreatest : (array [.integer 18446744073709551615]).WellFormed :=
    .array (List.forall_mem_singleton.mpr (.integer (by decide) (by decide)))
  have hordered : Ordered [("a", array items), ("b", array [.integer 18446744073709551615])] :=
    List.pairwise_pair.mpr (by decide)
  have hj : j.WellFormed := .object hordered (List.forall_mem_cons.mpr ⟨hitems, List.forall_mem_singleton.mpr hgreatest⟩)
  exact ⟨hj, (shape_of_toValue hj).1.trans rfl⟩

/-- The least integer beyond 64 bits with sign comes back as a text. -/
theorem toJson_toValue_ne : (integer 9223372036854775808).WellFormed ∧
    (integer 9223372036854775808).toValue.toJson = .string "9223372036854775808" ∧
    (integer 9223372036854775808).toValue.toJson ≠ integer 9223372036854775808 := by
  have hwritten : (integer 9223372036854775808).toValue.toJson = .string "9223372036854775808" := by rfl
  exact ⟨.integer (by decide) (by decide), hwritten, by rw [hwritten]; nofun⟩

end Json

end Conform

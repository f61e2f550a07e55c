import Conform.Proofs.Conversion.Exact

/-! What strictness takes away. Where less is forbidden, a conversion gives whatever a stricter one gives: what is
    forbidden ends a conversion early, but leads it nowhere else, neither in a container nor in its only item. Texts,
    bytes and members are apart: where no data may be lost, a container with one item becomes the text of its document
    instead of the text of the item. -/

namespace Conform

/-! ### What one computation gives and another -/

/-- Whatever the first gives, the second gives. -/
def Within {ε α : Type} (x y : Except ε α) : Prop := ∀ ⦃a⦄, x = .ok a → y = .ok a

namespace Within

variable {ε α β : Type} {x y : Except ε α}

theorem refl (x : Except ε α) : Within x x := fun _ => id

theorem error (e : ε) : Within (.error e) y := nofun

theorem bind {k l : α → Except ε β} (hx : Within x y) (hk : ∀ a, Within (k a) (l a)) : Within (x >>= k) (y >>= l) := by
  cases x with
  | error e => exact .error e
  | ok a =>
    rw [hx rfl]
    exact hk a

/-- A step that is taken unless something holds. -/
theorem checked {c : Prop} [Decidable c] {x y : Except ε Unit} {k : Unit → Except ε β} (hx : Within x y) :
    Within (if c then k () else x >>= k) (if c then k () else y >>= k) := by
  split
  · exact .refl _
  · exact hx.bind fun _ => .refl _

end Within

/-! ### What is forbidden -/

/-- Whether conversion to the target goes the same way whatever is forbidden. -/
def Target.goesOneWay (t : Target) : Bool :=
  match t.kind? with
  | some .str | some .bytes | some .enum => false
  | _ => true

/-- Nothing is forbidden that is not forbidden by the other. -/
structure Strictness.Laxer (s' s : Strictness) : Prop where
  cast : s'.noExplicitCast = true → s.noExplicitCast = true
  loss : s'.noDataLoss = true → s.noDataLoss = true

/-- The only items of a value, as a laxer conversion and as a stricter one convert them. -/
def LoneWithin (lone lone' : Option (Target → Conversion)) : Prop :=
  Option.Rel (fun f g => ∀ t : Target, t.goesOneWay = true → Within (f t) (g t)) lone lone'

/-- A scope that forbids no loss that the other allows, and whose only item converts as laxly. -/
structure Scope.Laxer (s' s : Scope) : Prop where
  loss : s'.forbidsLoss = true → s.forbidsLoss = true
  lone : LoneWithin s.lone s'.lone

/-! ### The converters -/

namespace Converter

variable {s s' : Scope} (h : s'.Laxer s) (v : Value) (t : Target)

include h

theorem within_allowLoss : Within (s.allowLoss v t) (s'.allowLoss v t) := by
  unfold Scope.allowLoss
  by_cases hs : s.forbidsLoss = true
  · rw [if_pos hs]
    exact .error _
  · rw [if_neg hs, if_neg fun hs' => hs (h.loss hs')]
    exact .refl _

variable {t} in
theorem within_collapse (ht : t.goesOneWay = true) : Within (s.collapse v t) (s'.collapse v t) := by
  obtain ⟨forbidsLoss, lone, reread⟩ := s
  obtain ⟨forbidsLoss', lone', reread'⟩ := s'
  obtain hlone : LoneWithin lone lone' := h.lone
  unfold Scope.collapse
  cases hlone with
  | none =>
    dsimp only
    split
    case h_4 => exact .error _
    all_goals contradiction
  | some hconvert =>
    dsimp only
    split
    case h_4 => exact .error _
    all_goals
      next heq =>
        cases heq
        exact (within_allowLoss h _ t).bind fun _ => hconvert t ht

/-! ### Truth values and identifiers -/

theorem within_toBool : Within (toBool s v t) (toBool s' v t) := by
  unfold toBool
  split
  · exact .refl _
  split
  · exact .refl _
  · exact (within_allowLoss h v t).bind fun _ => .refl _

variable {t} in
theorem within_toUuid (ht : t.goesOneWay = true) : Within (toUuid s v t) (toUuid s' v t) := by
  unfold toUuid
  cases v with
  | bytes _ | str _ | int _ => exact .refl _
  | decimal d =>
    dsimp only
    split
    · exact within_collapse h _ ht
    · exact .refl _
  | _ => exact within_collapse h _ ht

/-! ### Numbers -/

theorem within_integerOf (d : Decimal) : Within (integerOf s v t d) (integerOf s' v t d) :=
  .checked (within_allowLoss h v t)

variable {t} in
theorem within_toInt (ht : t.goesOneWay = true) : Within (toInt s v t) (toInt s' v t) := by
  unfold toInt
  cases v with
  | bool _ => exact .refl _
  | float x =>
    dsimp only
    split
    · exact .refl _
    · exact .checked (within_allowLoss h _ t)
  | decimal d => exact within_integerOf h _ t d
  | str _ | bytes _ =>
    dsimp only
    split
    · exact .refl _
    · exact within_integerOf h _ t _
    · exact .refl _
  | duration _ | date _ | datetime _ | instant _ =>
    dsimp only
    split
    · exact within_integerOf h _ t _
    · exact .refl _
  | _ => exact within_collapse h _ ht

variable {t} in
theorem within_toFloat (ht : t.goesOneWay = true) : Within (toFloat s v t) (toFloat s' v t) := by
  unfold toFloat
  cases v with
  | bool _ | int _ | decimal _ | str _ | bytes _ | duration _ | date _ | datetime _ | instant _ => exact .refl _
  | _ => exact within_collapse h _ ht

variable {t} in
theorem within_toDecimal (ht : t.goesOneWay = true) : Within (toDecimal s v t) (toDecimal s' v t) := by
  unfold toDecimal
  cases v with
  | bool _ | int _ | float _ | str _ | bytes _ | duration _ | date _ | datetime _ | instant _ => exact .refl _
  | _ => exact within_collapse h _ ht

/-! ### Dates and times -/

theorem within_dateOf (clock : DateTime) : Within (dateOf s v t clock) (dateOf s' v t clock) :=
  .checked (within_allowLoss h v t)

theorem within_dateOfText (cs : List Char) : Within (dateOfText s v t cs) (dateOfText s' v t cs) := by
  unfold dateOfText
  split
  · exact .refl _
  split
  · exact within_dateOf h v t _
  · exact within_dateOf h v t _
  split
  · exact (Within.refl _).bind fun _ => within_dateOf h v t _
  · exact .refl _

variable {t} in
theorem within_toDate (ht : t.goesOneWay = true) : Within (toDate s v t) (toDate s' v t) := by
  unfold toDate
  cases v with
  | datetime _ | instant _ => exact within_dateOf h _ t _
  | str _ | bytes _ => exact within_dateOfText h _ t _
  | int _ | float _ | decimal _ => exact (Within.refl _).bind fun _ => within_dateOf h _ t _
  | _ => exact within_collapse h _ ht

variable {t} in
theorem within_toTime (ht : t.goesOneWay = true) : Within (toTime s v t) (toTime s' v t) := by
  unfold toTime
  cases v with
  | datetime _ | instant _ => exact (within_allowLoss h _ t).bind fun _ => .refl _
  | str _ | bytes _ | duration _ => exact .refl _
  | _ => exact within_collapse h _ ht

variable {t} in
theorem within_toDateTime (ht : t.goesOneWay = true) : Within (toDateTime s v t) (toDateTime s' v t) := by
  unfold toDateTime
  cases v with
  | date _ | str _ | bytes _ | int _ | float _ | decimal _ => exact .refl _
  | _ => exact within_collapse h _ ht

variable {t} in
theorem within_toDuration (ht : t.goesOneWay = true) : Within (toDuration s v t) (toDuration s' v t) := by
  unfold toDuration
  cases v with
  | int _ | float _ | decimal _ | str _ | bytes _ | time _ => exact .refl _
  | _ => exact within_collapse h _ ht

/-! ### Sets -/

theorem within_toSequence : Within (toSequence s v t) (toSequence s' v t) := by
  unfold toSequence
  split
  · exact .refl _
  split
  · exact .refl _
  · exact .refl _
  · exact .checked (within_allowLoss h v t)
  · exact .refl _

end Converter

/-! ### The standard registry -/

namespace Registry

variable {s s' : Strictness} {reread reread' : Value → Target → Conversion} {t : Target} {v w : Value}

/-- The standard converter of the target's kind gives, in a laxer scope, whatever it gives in a stricter one. -/
theorem within_converter {scope scope' : Scope} (h : scope'.Laxer scope) (ht : t.goesOneWay = true) {converter : Converter}
    (hconverter : t.kind?.bind standard.resolve? = some converter) (v : Value) :
    Within (converter scope v t) (converter scope' v t) := by
  unfold Target.goesOneWay at ht
  cases hkind : t.kind? with
  | none =>
    rw [hkind] at hconverter
    cases hconverter
  | some k =>
    rw [hkind] at hconverter
    cases k with
    | str | bytes | enum =>
      rw [hkind] at ht
      cases ht
    | null | map =>
      cases hconverter
      exact .refl _
    | bool =>
      cases hconverter
      exact Converter.within_toBool h v t
    | int =>
      cases hconverter
      exact Converter.within_toInt h v ht
    | float =>
      cases hconverter
      exact Converter.within_toFloat h v ht
    | decimal =>
      cases hconverter
      exact Converter.within_toDecimal h v ht
    | date =>
      cases hconverter
      exact Converter.within_toDate h v ht
    | time =>
      cases hconverter
      exact Converter.within_toTime h v ht
    | datetime =>
      cases hconverter
      exact Converter.within_toDateTime h v ht
    | duration =>
      cases hconverter
      exact Converter.within_toDuration h v ht
    | uuid =>
      cases hconverter
      exact Converter.within_toUuid h v ht
    | list | tuple | set =>
      cases hconverter
      exact Converter.within_toSequence h v t

theorem within_convertAt (h : s'.Laxer s) {lone lone' : Option (Target → Conversion)} (hlone : LoneWithin lone lone')
    (ht : t.goesOneWay = true) (v : Value) :
    Within (convertAt standard s reread lone v t) (convertAt standard s' reread' lone' v t) := by
  unfold convertAt
  split
  · exact .refl _
  split
  · exact .error _
  next hcast =>
    have hcast' : ¬(s'.noExplicitCast && !t.isSubtype v) = true := by
      rw [Bool.and_eq_true] at hcast ⊢
      exact fun hboth => hcast ⟨h.cast hboth.1, hboth.2⟩
    rw [if_neg hcast']
    dsimp only
    split
    · exact .refl _
    split
    · exact .error _
    next converter hconverter => exact within_converter ⟨h.loss, hlone⟩ ht hconverter _

mutual

/-- The only item of a value converts as laxly as the value, however deep it lies. -/
theorem within_lone? (h : s'.Laxer s) : ∀ v : Value, LoneWithin (lone? standard s reread v) (lone? standard s' reread' v)
  | .list items | .tuple items | .set items => within_loneItem? h items
  | .member _ _ v => within_lone? h v
  | .null | .bool _ | .int _ | .float _ | .decimal _ | .str _ | .bytes _ | .date _ | .time _ | .datetime _ | .instant _
  | .duration _ | .uuid _ | .map _ => .none

theorem within_loneItem? (h : s'.Laxer s) : ∀ items : List Value,
    LoneWithin (loneItem? standard s reread items) (loneItem? standard s' reread' items)
  | [v] => .some fun _ ht => within_convertAt h (within_lone? h v) ht v
  | [] | _ :: _ :: _ => .none

end

/-- Where less is forbidden, the standard registry gives whatever it gives where more is. -/
theorem within_convert (h : s'.Laxer s) (ht : t.goesOneWay = true) (v : Value) :
    Within (standard.convert s v t) (standard.convert s' v t) :=
  within_convertAt h (within_lone? h v) ht v

/-- What is converted under some prohibitions is converted to the same without either of them. -/
theorem convert_of_allowed (ht : t.goesOneWay = true) (h : standard.convert s v t = .ok w) :
    standard.convert { s with noExplicitCast := false } v t = .ok w ∧
      standard.convert { s with noDataLoss := false } v t = .ok w := by
  have hcast : Strictness.Laxer { s with noExplicitCast := false } s := ⟨Bool.noConfusion, id⟩
  have hloss : Strictness.Laxer { s with noDataLoss := false } s := ⟨id, Bool.noConfusion⟩
  exact ⟨within_convert hcast ht v h, within_convert hloss ht v h⟩

theorem convert_two_allowed :
    standard.convert ⟨false, true⟩ (.set [.int 2, .bool true]) .list = .ok (.list [.int 2, .bool true]) ∧
      standard.convert ⟨false, false⟩ (.set [.int 2, .bool true]) .list = .ok (.list [.int 2, .bool true]) :=
  have hstrict : standard.convert ⟨false, true⟩ (.set [.int 2, .bool true]) .list = .ok (.list [.int 2, .bool true]) := rfl
  ⟨hstrict, (convert_of_allowed rfl hstrict).2⟩

-- Texts go more than one way: a list is written as a document where nothing may be lost, and else is its item.
example :
    standard.convert ⟨false, true⟩ (.list [.int 1]) .str = .ok (.str "[1]") ∧
      standard.convert ⟨false, false⟩ (.list [.int 1]) .str = .ok (.str "1") := ⟨rfl, rfl⟩

end Registry

end Conform

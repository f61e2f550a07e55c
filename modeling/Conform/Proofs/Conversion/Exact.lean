import Conform.Conversion
import Conform.Registry.Standard

/-! What the standard converters give. Whatever a value is, what it converts to belongs to the target, also where
    the conversion goes by way of the only item of a container, of the value that a member stores, or of a text.
    This is asked of targets of values; those that name an entity are maps that a schema has yet to read. -/

namespace Conform

/-- Whether values of the target are read by a schema. -/
def Target.namesEntity : Target → Bool
  | .entity .. | .reference _ => true
  | _ => false

/-- What a list is made into, if each of it can be, is made of something in the list. -/
theorem exists_of_mapM {α β : Type} {f : α → Option β} {xs : List α} {ys : List β} (h : xs.mapM f = some ys) :
    ∀ y ∈ ys, ∃ x ∈ xs, f x = some y := by
  induction xs generalizing ys with
  | nil =>
    cases h
    exact List.forall_mem_nil _
  | cons x rest ih =>
    rw [List.mapM_cons] at h
    obtain ⟨y, hy, h⟩ := Option.bind_eq_some_iff.mp h
    obtain ⟨others, hothers, h⟩ := Option.bind_eq_some_iff.mp h
    cases h
    refine List.forall_mem_cons.mpr ⟨⟨x, List.mem_cons_self, hy⟩, fun z hz => ?_⟩
    obtain ⟨x', hx', hf⟩ := ih hothers z hz
    exact ⟨x', List.mem_cons_of_mem _ hx', hf⟩

/-! ### Conversions that land -/

/-- Whatever a conversion gives belongs to the target. -/
def Lands (t : Target) (x : Conversion) : Prop := ∀ ⦃w⦄, x = .ok w → t.isExact w = true

namespace Lands

variable {α : Type} {t : Target}

theorem ok {w : Value} (h : t.isExact w = true) : Lands t (.ok w) := by
  intro _ heq
  cases heq
  exact h

theorem error (e : ConversionError) : Lands t (.error e) := by
  intro _ heq
  cases heq

theorem bind {x : Except ConversionError α} {k : α → Conversion} (hk : ∀ a, Lands t (k a)) : Lands t (x >>= k) := by
  cases x with
  | error e => exact .error e
  | ok a => exact hk a

/-- A step that is taken unless something holds gives nothing. -/
theorem checked {c : Prop} [Decidable c] {x : Except ConversionError Unit} {k : Unit → Conversion}
    (hk : Lands t (k ())) : Lands t (if c then k () else x >>= k) := by
  split
  · exact hk
  · exact .bind fun _ => hk

end Lands

/-- The only item of the value, if there is one, lands on whatever target of values. -/
def Scope.LoneLands (s : Scope) : Prop :=
  ∀ convert, s.lone = some convert → ∀ t : Target, t.namesEntity = false → Lands t (convert t)

namespace Converter

variable {s : Scope} (hs : s.LoneLands) (v : Value)

include hs

theorem lands_collapse {t : Target} (ht : t.namesEntity = false) : Lands t (s.collapse v t) := by
  unfold Scope.collapse
  split
  case h_1 hlone => exact .bind fun _ => hs _ hlone t ht
  case h_2 hlone => exact .bind fun _ => hs _ hlone t ht
  case h_3 hlone => exact .bind fun _ => hs _ hlone t ht
  case h_4 => exact .error _

omit hs

/-! ### Null, truth values, identifiers and members -/

theorem lands_toNull : Lands .null (toNull s v .null) := by
  unfold toNull
  split
  · exact .ok rfl
  · exact .error _

theorem lands_toBool : Lands .bool (toBool s v .bool) := by
  unfold toBool
  split
  · split
    · exact .ok rfl
    split
    · exact .ok rfl
    · exact .error _
  · split
    · exact .ok rfl
    · exact .bind fun _ => .ok rfl

include hs in
theorem lands_toUuid : Lands .uuid (toUuid s v .uuid) := by
  unfold toUuid
  extract_lets ofText
  have htext : Lands .uuid ofText := by
    unfold ofText
    split
    · exact .ok rfl
    · exact .error _
  clear_value ofText
  cases v with
  | bytes bs =>
    dsimp only
    split
    · exact .ok rfl
    · exact htext
  | str _ => exact htext
  | int i =>
    dsimp only
    split
    · exact .ok rfl
    · exact .error _
  | decimal d =>
    dsimp only
    split
    · exact lands_collapse hs _ (by rfl)
    split
    · exact .error _
    · exact .ok rfl
  | _ => exact lands_collapse hs _ (by rfl)

/-- A member that is found is one of the enumeration. -/
theorem lands_toMember (e : Enumeration) : Lands (.enum e) (toMember s v (.enum e)) := by
  have hfound {p : String × Value → Bool} {w : Value} (h : (e.members.find? p).map e.toValue = some w) :
      (Target.enum e).isExact w = true := by
    obtain ⟨member, -, rfl⟩ := Option.map_eq_some_iff.mp h
    exact beq_self_eq_true e.name
  unfold toMember
  dsimp only
  split
  case h_2 => exact .error _
  case h_1 member hmember =>
    refine .ok ?_
    rcases Option.or_eq_some_iff.mp hmember with hmember | ⟨-, hmember⟩
    · rcases Option.or_eq_some_iff.mp hmember with hmember | ⟨-, hmember⟩
      · exact hfound hmember
      · split at hmember
        · exact hfound hmember
        · cases hmember
    · obtain ⟨_, -, hmember⟩ := Option.bind_eq_some_iff.mp hmember
      obtain ⟨_, -, hmember⟩ := Option.bind_eq_some_iff.mp hmember
      exact hfound hmember

/-! ### Numbers -/

theorem lands_integerOf (d : Decimal) : Lands .int (integerOf s v .int d) := by
  refine .checked ?_
  split
  · exact .ok rfl
  · exact .error _

include hs in
theorem lands_toInt : Lands .int (toInt s v .int) := by
  unfold toInt
  cases v with
  | bool b => exact .ok rfl
  | float x =>
    dsimp only
    split
    · exact .error _
    · refine .checked ?_
      split
      · exact .ok rfl
      · exact .error _
  | decimal d => exact lands_integerOf _ d
  | str _ | bytes _ =>
    dsimp only
    split
    · exact .ok rfl
    · exact lands_integerOf _ _
    · exact .error _
  | duration _ | date _ | datetime _ | instant _ =>
    dsimp only
    split
    · exact lands_integerOf _ _
    · exact .error _
  | _ => exact lands_collapse hs _ (by rfl)

include hs in
theorem lands_toFloat : Lands .float (toFloat s v .float) := by
  unfold toFloat
  cases v with
  | bool _ | int _ | decimal _ => exact .ok rfl
  | str _ | bytes _ | duration _ | date _ | datetime _ | instant _ =>
    dsimp only
    split
    · exact .ok rfl
    · exact .error _
  | _ => exact lands_collapse hs _ (by rfl)

theorem lands_decimalOf (number : Option Value) : Lands .decimal (decimalOf v .decimal number) := by
  unfold decimalOf
  split
  · exact .ok rfl
  · exact .ok rfl
  · exact .error _

include hs in
theorem lands_toDecimal : Lands .decimal (toDecimal s v .decimal) := by
  unfold toDecimal
  cases v with
  | bool _ | int _ => exact .ok rfl
  | str _ | bytes _ => exact lands_decimalOf _ _
  | float _ | duration _ | date _ | datetime _ | instant _ =>
    dsimp only
    split
    · exact .ok rfl
    · exact .error _
  | _ => exact lands_collapse hs _ (by rfl)

/-! ### Texts -/

include hs in
theorem lands_toStr : Lands .str (toStr s v .str) := by
  have hcontainer : Lands .str (containerText s v .str) := by
    unfold containerText
    split
    case h_4 => exact .ok rfl
    all_goals
      split
      · exact .ok rfl
      · exact lands_collapse hs _ (by rfl)
  unfold toStr
  cases v with
  | bytes _ =>
    dsimp only
    split
    · exact .ok rfl
    · exact .bind fun _ => .ok rfl
  | null => exact .error _
  | list _ | tuple _ | set _ | map _ => exact hcontainer
  | _ => exact .ok rfl

theorem lands_toBytes : Lands .bytes (toBytes s v .bytes) := by
  unfold toBytes
  split
  · exact .ok rfl
  · exact .error _
  · exact .error _
  · exact .error _

/-! ### Dates and times -/

theorem lands_dateOf (clock : DateTime) : Lands .date (dateOf s v .date clock) := .checked (.ok rfl)

theorem lands_dateOfText (cs : List Char) : Lands .date (dateOfText s v .date cs) := by
  unfold dateOfText
  split
  · exact .ok rfl
  split
  · exact lands_dateOf _ _
  · exact lands_dateOf _ _
  split
  · exact .bind fun _ => lands_dateOf _ _
  · exact .error _

include hs in
theorem lands_toDate : Lands .date (toDate s v .date) := by
  unfold toDate
  cases v with
  | datetime _ | instant _ => exact lands_dateOf _ _
  | str _ | bytes _ => exact lands_dateOfText _ _
  | int _ | float _ | decimal _ => exact .bind fun _ => lands_dateOf _ _
  | _ => exact lands_collapse hs _ (by rfl)

include hs in
theorem lands_toTime : Lands .time (toTime s v .time) := by
  unfold toTime
  cases v with
  | datetime _ | instant _ => exact .bind fun _ => .ok rfl
  | str _ | bytes _ | duration _ =>
    dsimp only
    split
    · exact .ok rfl
    · exact .error _
  | _ => exact lands_collapse hs _ (by rfl)

theorem isExact_of_moment? {cs : List Char} {w : Value} (h : moment? cs = some w) : Target.datetime.isExact w = true := by
  have haware : ∀ u, (OffsetDateTime.ofChars? cs).map Value.instant = some u → Target.datetime.isExact u = true := by
    intro u hu
    obtain ⟨_, -, rfl⟩ := Option.map_eq_some_iff.mp hu
    rfl
  have hnaive : ∀ u, (DateTime.ofChars? cs).map Value.datetime = some u → Target.datetime.isExact u = true := by
    intro u hu
    obtain ⟨_, -, rfl⟩ := Option.map_eq_some_iff.mp hu
    rfl
  unfold moment? at h
  dsimp only at h
  split at h
  · exact (Option.or_eq_some_iff.mp h).elim (haware w) fun h => hnaive w h.2
  · exact (Option.or_eq_some_iff.mp h).elim (hnaive w) fun h => haware w h.2

theorem lands_instantAt : Lands .datetime (instantAt v .datetime) := .bind fun _ => .ok rfl

include hs in
theorem lands_toDateTime : Lands .datetime (toDateTime s v .datetime) := by
  unfold toDateTime
  cases v with
  | date _ => exact .ok rfl
  | str _ | bytes _ =>
    dsimp only
    split
    case h_1 moment hmoment => exact .ok (isExact_of_moment? hmoment)
    case h_2 =>
      split
      · exact lands_instantAt _
      · exact .error _
  | int _ | float _ | decimal _ => exact lands_instantAt _
  | _ => exact lands_collapse hs _ (by rfl)

theorem lands_ofSeconds (seconds : Decimal) : Lands .duration (ofSeconds v .duration seconds) := by
  unfold ofSeconds
  split
  · exact .ok rfl
  · exact .error _

theorem lands_ofSpanText (cs : List Char) : Lands .duration (ofSpanText v .duration cs) := by
  unfold ofSpanText
  split
  · exact lands_ofSeconds _ _
  split
  · exact lands_ofSeconds _ _
  · exact .error _
  · exact .error _

include hs in
theorem lands_toDuration : Lands .duration (toDuration s v .duration) := by
  unfold toDuration
  cases v with
  | int _ | float _ | decimal _ =>
    dsimp only
    split
    · exact lands_ofSeconds _ _
    · exact .error _
  | str _ | bytes _ => exact lands_ofSpanText _ _
  | time _ => exact lands_ofSeconds _ _
  | _ => exact lands_collapse hs _ (by rfl)

/-! ### Containers -/

theorem lands_toSequence {t : Target} (ht : t = .list ∨ t = .tuple ∨ t = .set) : Lands t (toSequence s v t) := by
  unfold toSequence
  split
  · exact .error _
  · rcases ht with rfl | rfl | rfl
    · exact .ok rfl
    · exact .ok rfl
    · exact .checked (.ok rfl)

theorem isExact_of_mapped {cs : List Char} {w : Value} (h : mapped cs = .ok w) : Target.map.isExact w = true := by
  unfold mapped at h
  split at h
  · cases h
    rfl
  · split at h
    · cases h
      rfl
    · cases h
  · split at h
    · cases h
    split at h
    · cases h
      rfl
    · cases h
      rfl

theorem isExact_of_ofPairs {items : List Value} {w : Value} (h : ofPairs items = .ok w) :
    Target.map.isExact w = true := by
  unfold ofPairs at h
  split at h
  · cases h
    rfl
  · cases h

theorem lands_toMap : Lands .map (toMap s v .map) := by
  unfold toMap
  split
  case h_2 => exact .error _
  case h_1 hentries =>
    refine .ok ?_
    unfold entries at hentries
    split at hentries
    case h_1 | h_2 => exact isExact_of_mapped hentries
    case h_3 | h_4 | h_5 => exact isExact_of_ofPairs hentries
    case h_6 => cases hentries

end Converter

/-! ### The standard registry -/

namespace Registry

variable {s : Strictness} {reread : Value → Target → Conversion} {t : Target}

/-- What the standard converter of the target's kind gives lands on the target. -/
theorem lands_converter (scope : Scope) (hscope : scope.LoneLands) (ht : t.namesEntity = false) {converter : Converter}
    (hconverter : t.kind?.bind standard.resolve? = some converter) (v : Value) : Lands t (converter scope v t) := by
  cases t with
  | any => cases hconverter
  | entity | reference => cases ht
  | null =>
    cases hconverter
    exact Converter.lands_toNull (s := scope) v
  | bool =>
    cases hconverter
    exact Converter.lands_toBool v
  | int =>
    cases hconverter
    exact Converter.lands_toInt hscope v
  | float =>
    cases hconverter
    exact Converter.lands_toFloat hscope v
  | decimal =>
    cases hconverter
    exact Converter.lands_toDecimal hscope v
  | str =>
    cases hconverter
    exact Converter.lands_toStr hscope v
  | bytes =>
    cases hconverter
    exact Converter.lands_toBytes v
  | date =>
    cases hconverter
    exact Converter.lands_toDate hscope v
  | time =>
    cases hconverter
    exact Converter.lands_toTime hscope v
  | datetime =>
    cases hconverter
    exact Converter.lands_toDateTime hscope v
  | duration =>
    cases hconverter
    exact Converter.lands_toDuration hscope v
  | uuid =>
    cases hconverter
    exact Converter.lands_toUuid hscope v
  | list =>
    cases hconverter
    exact Converter.lands_toSequence (s := scope) v (.inl rfl)
  | tuple =>
    cases hconverter
    exact Converter.lands_toSequence (s := scope) v (.inr (.inl rfl))
  | set =>
    cases hconverter
    exact Converter.lands_toSequence (s := scope) v (.inr (.inr rfl))
  | map =>
    cases hconverter
    exact Converter.lands_toMap (s := scope) v
  | enum e =>
    cases hconverter
    exact Converter.lands_toMember v e

theorem lands_convertAt {lone : Option (Target → Conversion)}
    (hlone : ∀ convert, lone = some convert → ∀ t : Target, t.namesEntity = false → Lands t (convert t))
    (ht : t.namesEntity = false) (v : Value) : Lands t (convertAt standard s reread lone v t) := by
  unfold convertAt
  split
  case isTrue hexact => exact .ok hexact
  split
  · exact .error _
  dsimp only
  split
  case isTrue hexact => exact .ok hexact
  split
  · exact .error _
  case h_2 converter hconverter => exact lands_converter ⟨s.noDataLoss, lone, reread⟩ hlone ht hconverter _

mutual

/-- The only item of a value lands, however deep it lies. -/
theorem lands_lone? : ∀ (v : Value) (convert : Target → Conversion), lone? standard s reread v = some convert →
    ∀ t : Target, t.namesEntity = false → Lands t (convert t)
  | .list items, convert, h => lands_loneItem? items convert h
  | .tuple items, convert, h => lands_loneItem? items convert h
  | .set items, convert, h => lands_loneItem? items convert h
  | .member _ _ v, convert, h => lands_lone? v convert h
  | .null, _, h | .bool _, _, h | .int _, _, h | .float _, _, h | .decimal _, _, h | .str _, _, h | .bytes _, _, h
  | .date _, _, h | .time _, _, h | .datetime _, _, h | .instant _, _, h | .duration _, _, h | .uuid _, _, h
  | .map _, _, h => by cases h

theorem lands_loneItem? : ∀ (items : List Value) (convert : Target → Conversion),
    loneItem? standard s reread items = some convert → ∀ t : Target, t.namesEntity = false → Lands t (convert t)
  | [v], convert, h => by
    cases h
    exact fun t ht => lands_convertAt (fun convert => lands_lone? v convert) ht v
  | [], _, h => by cases h
  | _ :: _ :: _, _, h => by cases h

end

/-- What the standard registry gives belongs to the target. -/
theorem isExact_of_convert {v w : Value} (ht : t.namesEntity = false) (h : standard.convert s v t = .ok w) :
    t.isExact w = true :=
  lands_convertAt (fun convert => lands_lone? v convert) ht v h

/-- A value that belongs to the target stays. -/
theorem convert_of_isExact (r : Registry) {v : Value} (h : t.isExact v = true) : r.convert s v t = .ok v := by
  rw [convert, convertWith, convertAt, if_pos h]

end Registry

end Conform

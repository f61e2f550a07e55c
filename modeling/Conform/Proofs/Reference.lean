import Conform.Reference
import Mathlib.Data.List.Perm.Basic
import Mathlib.Logic.Relation

/-! References over a history of calls. What is handed out is pending or filled, two references share a slot only if they
    are the same, and what fills one was registered under its name. A filled slot stays as it is, whatever is called later
    and in whatever order the pending references are gone through. A resolution that meets a name that nobody has registered
    ends there: the references before it are filled, and all of them stay pending. -/

namespace Conform.References

variable {rs : References} {order before rest : List Reference} {r t : Reference} {name : String}
  {place other : Nat}

/-! ### Filling -/

theorem content?_fill_of_ne (h : r.slot ≠ t.slot) (place : Nat) : (rs.fill r place).content? t = rs.content? t := by
  simp [content?, fill, h]

theorem content?_fill_of_eq (h : r.slot = t.slot) (ht : t.slot < rs.slots.length) (place : Nat) :
    (rs.fill r place).content? t = (rs.content? t).or (some place) := by
  simp [content?, fill, h, List.getElem?_eq_getElem ht]

theorem slot_lt_of_content? (h : rs.content? r = some place) : r.slot < rs.slots.length := by
  obtain ⟨hlt, -⟩ := List.getElem?_eq_some_iff.mp (Option.join_eq_some_iff.mp h)
  exact hlt

/-- A filled slot keeps its content. -/
theorem content?_fill_of_filled (h : rs.content? t = some place) (r : Reference) (other : Nat) :
    (rs.fill r other).content? t = some place := by
  by_cases heq : r.slot = t.slot
  · rw [content?_fill_of_eq heq (slot_lt_of_content? h), h, Option.some_or]
  · rw [content?_fill_of_ne heq, h]

theorem fillAll_cons_of_known (h : rs.place? r.name = some place) (rest : List Reference) :
    fillAll (r :: rest) rs = fillAll rest (rs.fill r place) := by
  rw [fillAll, h]

theorem fillAll_cons_of_missing (h : rs.place? r.name = none) (rest : List Reference) :
    fillAll (r :: rest) rs = (.error (.unresolvedReference r.name), rs) := by
  rw [fillAll, h]

/-- Names that a registered parser goes by. -/
def Known (rs : References) (names : List Reference) : Prop := ∀ t ∈ names, ∃ place, rs.place? t.name = some place

theorem fillAll_of_known (h : rs.Known before) : (fillAll before rs).1 = .ok () := by
  induction before generalizing rs with
  | nil => rfl
  | cons r before ih =>
    obtain ⟨⟨place, hplace⟩, hknown⟩ := List.forall_mem_cons.mp h
    rw [fillAll_cons_of_known hplace]
    exact ih hknown

theorem fillAll_append_of_known (h : rs.Known before) (rest : List Reference) :
    fillAll (before ++ rest) rs = fillAll rest (fillAll before rs).2 := by
  induction before generalizing rs with
  | nil => rfl
  | cons r before ih =>
    obtain ⟨⟨place, hplace⟩, hknown⟩ := List.forall_mem_cons.mp h
    rw [List.cons_append, fillAll_cons_of_known hplace, fillAll_cons_of_known hplace]
    exact ih hknown

/-- References are known up to the first that is not. -/
theorem known_or_split (rs : References) (order : List Reference) :
    rs.Known order ∨ ∃ before r rest, order = before ++ r :: rest ∧ rs.Known before ∧ rs.place? r.name = none := by
  induction order with
  | nil => exact .inl nofun
  | cons t order ih =>
    cases hplace : rs.place? t.name with
    | none => exact .inr ⟨[], t, order, rfl, nofun, hplace⟩
    | some place =>
      obtain hknown | ⟨before, r, rest, rfl, hknown, hmissing⟩ := ih
      · exact .inl (List.forall_mem_cons.mpr ⟨⟨place, hplace⟩, hknown⟩)
      · exact .inr ⟨t :: before, r, rest, rfl, List.forall_mem_cons.mpr ⟨⟨place, hplace⟩, hknown⟩, hmissing⟩

/-- Filling changes slots only, and leaves their number. -/
theorem fillAll_frame (order : List Reference) (rs : References) :
    (fillAll order rs).2.registered = rs.registered ∧ (fillAll order rs).2.pending = rs.pending ∧
      (fillAll order rs).2.slots.length = rs.slots.length := by
  induction order generalizing rs with
  | nil => exact ⟨rfl, rfl, rfl⟩
  | cons r order ih =>
    cases hplace : rs.place? r.name with
    | none => rw [fillAll_cons_of_missing hplace]; exact ⟨rfl, rfl, rfl⟩
    | some place =>
      obtain ⟨hregistered, hpending, hlength⟩ := ih (rs.fill r place)
      rw [fillAll_cons_of_known hplace]
      exact ⟨hregistered, hpending, hlength.trans (List.length_modify ..)⟩

theorem content?_fillAll_of_filled (h : rs.content? t = some place) (order : List Reference) :
    (fillAll order rs).2.content? t = some place := by
  induction order generalizing rs with
  | nil => exact h
  | cons r order ih =>
    cases hplace : rs.place? r.name with
    | none => rw [fillAll_cons_of_missing hplace]; exact h
    | some other =>
      rw [fillAll_cons_of_known hplace]
      exact ih (content?_fill_of_filled h r other)

/-- References of registered names are filled, each with what its name goes by; nothing else changes. -/
theorem content?_fillAll_of_known (hknown : rs.Known before) (ht : t.slot < rs.slots.length)
    (hapart : ∀ b ∈ before, b.slot = t.slot → b = t) :
    (fillAll before rs).2.content? t =
      if t ∈ before then (rs.content? t).or (rs.place? t.name) else rs.content? t := by
  induction before generalizing rs with
  | nil => rfl
  | cons r before ih =>
    obtain ⟨⟨place, hplace⟩, hknown⟩ := List.forall_mem_cons.mp hknown
    obtain ⟨hr, hapart⟩ := List.forall_mem_cons.mp hapart
    have hlength : t.slot < (rs.fill r place).slots.length := Nat.lt_of_lt_of_eq ht (List.length_modify ..).symm
    have hstill : (rs.fill r place).Known before := hknown
    have hrest := ih hstill hlength hapart
    rw [fillAll_cons_of_known hplace, hrest]
    by_cases heq : r = t
    · subst heq
      have hsame : (rs.fill r place).place? r.name = some place := hplace
      rw [content?_fill_of_eq rfl ht, hsame, hplace, if_pos List.mem_cons_self]
      split_ifs
      · rw [Option.or_assoc, Option.some_or]
      · rfl
    · have hsame : (rs.fill r place).place? t.name = rs.place? t.name := rfl
      rw [content?_fill_of_ne fun hslot => heq (hr hslot), hsame]
      simp [List.mem_cons, Ne.symm heq]

/-! ### Histories -/

/-- What some calls have handed out, and the references after them. -/
structure History where
  handed : List Reference := []
  references : References := {}

/-- One more call; pending references are gone through in any order. -/
inductive Call : History → History → Prop
  | placeholder (h : History) (name : String) :
    Call h ⟨(h.references.placeholder name).1 :: h.handed, (h.references.placeholder name).2⟩
  | register (h : History) (name : String) (place : Nat) : Call h ⟨h.handed, h.references.register name place⟩
  | resolve {h : History} {order : List Reference} (horder : order.Perm h.references.pending) :
    Call h ⟨h.handed, (h.references.resolveIn order).2⟩

/-- Any number of calls. -/
def Calls : History → History → Prop := Relation.ReflTransGen Call

theorem resolveIn_of_known (h : rs.Known order) : rs.resolveIn order = (.ok (), { (fillAll order rs).2 with pending := [] }) := by
  have hok := fillAll_of_known h
  unfold resolveIn
  split
  next heq => rw [heq]
  next heq => rw [heq] at hok; cases hok

theorem resolveIn_of_missing (hknown : rs.Known before) (hmissing : rs.place? r.name = none) (rest : List Reference) :
    rs.resolveIn (before ++ r :: rest) = (.error (.unresolvedReference r.name), (fillAll before rs).2) := by
  have hstill : (fillAll before rs).2.place? r.name = none := by
    rw [place?, (fillAll_frame before rs).1]
    exact hmissing
  rw [resolveIn, fillAll_append_of_known hknown, fillAll_cons_of_missing hstill]

/-- What holds between calls: references are pending or filled, by what was registered under their names, and no two of
    them share a slot. -/
structure Tracked (h : History) : Prop where
  within : ∀ r ∈ h.handed, r.slot < h.references.slots.length
  apart : ∀ r ∈ h.handed, ∀ t ∈ h.handed, r.slot = t.slot → r = t
  pending : ∀ r ∈ h.references.pending, r ∈ h.handed
  settled : ∀ r ∈ h.handed, r ∈ h.references.pending ∨ ∃ place, h.references.content? r = some place
  registered : ∀ r ∈ h.handed, ∀ place, h.references.content? r = some place → (r.name, place) ∈ h.references.registered

theorem mem_registered (h : rs.place? name = some place) : (name, place) ∈ rs.registered := by
  obtain ⟨_, _, heq, -⟩ := List.lookup_eq_some_iff.mp h
  exact heq ▸ List.mem_append_right _ List.mem_cons_self

theorem tracked_empty : Tracked {} := ⟨nofun, nofun, nofun, nofun, nofun⟩

namespace Tracked

variable {h : History}

theorem placeholder (hh : Tracked h) (name : String) :
    Tracked ⟨(h.references.placeholder name).1 :: h.handed, (h.references.placeholder name).2⟩ := by
  unfold References.placeholder
  split
  next r hfind =>
    have hr : r ∈ h.handed := hh.pending r (List.mem_of_find?_eq_some hfind)
    have hsub : ∀ t ∈ r :: h.handed, t ∈ h.handed := List.forall_mem_cons.mpr ⟨hr, fun _ ht => ht⟩
    exact {
      within := fun t ht => hh.within t (hsub t ht)
      apart := fun t ht u hu => hh.apart t (hsub t ht) u (hsub u hu)
      pending := fun t ht => List.mem_cons_of_mem _ (hh.pending t ht)
      settled := fun t ht => hh.settled t (hsub t ht)
      registered := fun t ht => hh.registered t (hsub t ht) }
  next =>
    -- The slot of a new reference is the next one, which is empty.
    have hold {t : Reference} (ht : t ∈ h.handed) :
        (h.references.slots ++ [none])[t.slot]? = h.references.slots[t.slot]? := List.getElem?_append_left (hh.within t ht)
    have hnew : (h.references.slots ++ [none])[h.references.slots.length]? = some none := List.getElem?_concat_length
    refine ⟨?_, ?_, ?_, ?_, ?_⟩
    · refine List.forall_mem_cons.mpr ⟨by simp, fun t ht => ?_⟩
      have := hh.within t ht
      simp only [List.length_append, List.length_singleton]
      omega
    · intro t ht u hu hslot
      obtain rfl | ht := List.mem_cons.mp ht <;> obtain rfl | hu := List.mem_cons.mp hu
      · rfl
      · exact absurd hslot (Nat.ne_of_gt (hh.within u hu))
      · exact absurd hslot (Nat.ne_of_lt (hh.within t ht))
      · exact hh.apart t ht u hu hslot
    · intro t ht
      obtain ht | ht := List.mem_append.mp ht
      · exact List.mem_cons_of_mem _ (hh.pending t ht)
      · exact List.mem_singleton.mp ht ▸ List.mem_cons_self
    · refine List.forall_mem_cons.mpr ⟨.inl (List.mem_append_right _ List.mem_cons_self), fun t ht => ?_⟩
      obtain hpending | ⟨place, hplace⟩ := hh.settled t ht
      · exact .inl (List.mem_append_left _ hpending)
      · exact .inr ⟨place, by rw [content?, hold ht]; exact hplace⟩
    · refine List.forall_mem_cons.mpr ⟨fun place hplace => ?_, fun t ht place hplace => ?_⟩
      · rw [content?, hnew] at hplace
        cases hplace
      · rw [content?, hold ht] at hplace
        exact hh.registered t ht place hplace

theorem register (hh : Tracked h) (name : String) (place : Nat) :
    Tracked ⟨h.handed, h.references.register name place⟩ :=
  ⟨hh.within, hh.apart, hh.pending, hh.settled, fun r hr p hp => List.mem_cons_of_mem _ (hh.registered r hr p hp)⟩

/-- What a reference holds after some of the pending ones were filled. -/
theorem content?_filled (hh : Tracked h) (hpending : ∀ b ∈ before, b ∈ h.references.pending)
    (hknown : h.references.Known before) (ht : t ∈ h.handed) :
    (fillAll before h.references).2.content? t =
      if t ∈ before then (h.references.content? t).or (h.references.place? t.name) else h.references.content? t :=
  content?_fillAll_of_known hknown (hh.within t ht) fun b hb => hh.apart b (hh.pending b (hpending b hb)) t ht

theorem filled (hh : Tracked h) (hpending : ∀ b ∈ before, b ∈ h.references.pending) (hknown : h.references.Known before) :
    Tracked ⟨h.handed, (fillAll before h.references).2⟩ := by
  obtain ⟨hregistered, hsame, hlength⟩ := fillAll_frame before h.references
  refine ⟨fun r hr => Nat.lt_of_lt_of_eq (hh.within r hr) hlength.symm, hh.apart, fun r hr => hh.pending r (hsame ▸ hr), ?_, ?_⟩
  · intro r hr
    obtain hr' | ⟨place, hplace⟩ := hh.settled r hr
    · exact .inl (hsame.symm ▸ hr')
    · exact .inr ⟨place, content?_fillAll_of_filled hplace before⟩
  · intro r hr place hplace
    rw [hh.content?_filled hpending hknown hr] at hplace
    rw [hregistered]
    split_ifs at hplace
    · obtain hplace | ⟨-, hplace⟩ := Option.or_eq_some_iff.mp hplace
      · exact hh.registered r hr place hplace
      · exact mem_registered hplace
    · exact hh.registered r hr place hplace

/-- A resolution that comes to its end leaves nothing empty. -/
theorem content?_resolved (hh : Tracked h) (horder : order.Perm h.references.pending) (hknown : h.references.Known order)
    (hr : r ∈ h.handed) : ∃ place, (fillAll order h.references).2.content? r = some place := by
  obtain hpending | ⟨place, hplace⟩ := hh.settled r hr
  · obtain ⟨place, hplace⟩ := hknown r (horder.mem_iff.mpr hpending)
    rw [hh.content?_filled (fun b hb => horder.mem_iff.mp hb) hknown hr, if_pos (horder.mem_iff.mpr hpending), hplace]
    cases h.references.content? r with
    | none => exact ⟨place, rfl⟩
    | some filled => exact ⟨filled, rfl⟩
  · exact ⟨place, content?_fillAll_of_filled hplace order⟩

theorem resolve (hh : Tracked h) (horder : order.Perm h.references.pending) :
    Tracked ⟨h.handed, (h.references.resolveIn order).2⟩ := by
  obtain hknown | ⟨before, r, rest, rfl, hknown, hmissing⟩ := known_or_split h.references order
  · have hfilled := hh.filled (fun b hb => horder.mem_iff.mp hb) hknown
    rw [resolveIn_of_known hknown]
    exact ⟨hfilled.within, hfilled.apart, nofun, fun r hr => .inr (hh.content?_resolved horder hknown hr), hfilled.registered⟩
  · rw [resolveIn_of_missing hknown hmissing]
    exact hh.filled (fun b hb => horder.mem_iff.mp (List.mem_append_left _ hb)) hknown

end Tracked

theorem Call.tracked {h h' : History} (hcall : Call h h') (hh : Tracked h) : Tracked h' := by
  cases hcall with
  | placeholder name => exact hh.placeholder name
  | register name place => exact hh.register name place
  | resolve horder => exact hh.resolve horder

theorem Calls.tracked {h h' : History} (hcalls : Calls h h') (hh : Tracked h) : Tracked h' := by
  induction hcalls with
  | refl => exact hh
  | tail _ hcall ih => exact hcall.tracked ih

/-- No call changes the content of a filled slot. -/
theorem Call.kept {h h' : History} (hcall : Call h h') (hplace : h.references.content? r = some place) :
    h'.references.content? r = some place := by
  cases hcall with
  | placeholder name =>
    unfold References.placeholder
    split
    next => exact hplace
    next =>
      rw [content?, List.getElem?_append_left (slot_lt_of_content? hplace)]
      exact hplace
  | register name place => exact hplace
  | @resolve order horder =>
    obtain hknown | ⟨before, r, rest, rfl, hknown, hmissing⟩ := known_or_split h.references order
    · rw [resolveIn_of_known hknown]
      exact content?_fillAll_of_filled hplace order
    · rw [resolveIn_of_missing hknown hmissing]
      exact content?_fillAll_of_filled hplace before

theorem Calls.kept {h h' : History} (hcalls : Calls h h') (hplace : h.references.content? r = some place) :
    h'.references.content? r = some place := by
  induction hcalls with
  | refl => exact hplace
  | tail _ hcall ih => exact hcall.kept ih

/-! ### Resolution -/

/-- A resolution ended at a reference whose name is not registered: those before it in the order are filled, if they were
    empty, with what their names go by; all others are as they were, and all of them stay pending. -/
structure EndedAt (h : History) (before : List Reference) (r : Reference) (after : References) : Prop where
  known : h.references.Known before
  missing : h.references.place? r.name = none
  content : ∀ t ∈ h.handed, after.content? t =
    if t ∈ before then (h.references.content? t).or (h.references.place? t.name) else h.references.content? t
  pending : after.pending = h.references.pending
  registered : after.registered = h.references.registered

/-- After any calls, and in any order of what is pending, a resolution either fills all that was ever handed out, each with
    what was registered under its name, or ends at the first name that is missing, with nothing but the references before it
    filled. What is filled stays so under all later calls. -/
theorem resolution_of_calls {h : History} (hcalls : Calls {} h) (horder : order.Perm h.references.pending) :
    (∀ after, h.references.resolveIn order = (.ok (), after) →
      ∀ r ∈ h.handed, ∃ place, after.content? r = some place ∧ (r.name, place) ∈ h.references.registered) ∧
    (∀ e after, h.references.resolveIn order = (.error e, after) →
      ∃ before r rest, order = before ++ r :: rest ∧ e = .unresolvedReference r.name ∧ EndedAt h before r after) ∧
    ∀ later, Calls h later → ∀ r place, h.references.content? r = some place → later.references.content? r = some place := by
  have hh : Tracked h := hcalls.tracked tracked_empty
  refine ⟨?_, ?_, fun later hlater r place hplace => hlater.kept hplace⟩
  · intro after hafter r hr
    obtain hknown | ⟨before, t, rest, rfl, hknown, hmissing⟩ := known_or_split h.references order
    · rw [resolveIn_of_known hknown] at hafter
      cases hafter
      obtain ⟨place, hplace⟩ := hh.content?_resolved horder hknown hr
      refine ⟨place, hplace, ?_⟩
      have hregistered := (hh.filled (fun b hb => horder.mem_iff.mp hb) hknown).registered r hr place hplace
      rwa [(fillAll_frame order h.references).1] at hregistered
    · rw [resolveIn_of_missing hknown hmissing] at hafter
      cases hafter
  · intro e after hafter
    obtain hknown | ⟨before, r, rest, rfl, hknown, hmissing⟩ := known_or_split h.references order
    · rw [resolveIn_of_known hknown] at hafter
      cases hafter
    · rw [resolveIn_of_missing hknown hmissing] at hafter
      cases hafter
      obtain ⟨hregistered, hpending, -⟩ := fillAll_frame before h.references
      have hbefore : ∀ b ∈ before, b ∈ h.references.pending := fun b hb => horder.mem_iff.mp (List.mem_append_left _ hb)
      exact ⟨before, r, rest, rfl, rfl, hknown, hmissing, fun t ht => hh.content?_filled hbefore hknown ht, hpending, hregistered⟩

/-- Two references, of which the first is registered. -/
def node : Reference := ⟨0, "Node"⟩

def ghost : Reference := ⟨1, "Ghost"⟩

def halfKnown : History := ⟨[ghost, node], ⟨[none, none], [node, ghost], [("Node", 0)]⟩⟩

theorem calls_halfKnown : Calls {} halfKnown :=
  .tail (.tail (.tail .refl (.placeholder _ "Node")) (.placeholder _ "Ghost")) (.register _ "Node" 0)

/-- A resolution that ends at the second reference has filled the first. -/
theorem node_filled_before_ghost :
    Calls {} halfKnown ∧ [node, ghost].Perm halfKnown.references.pending ∧
      (halfKnown.references.resolveIn [node, ghost]).1 = .error (.unresolvedReference "Ghost") ∧
      node ∈ halfKnown.handed ∧ halfKnown.references.content? node = none ∧
      (halfKnown.references.resolveIn [node, ghost]).2.content? node = some 0 :=
  ⟨calls_halfKnown, .refl _, rfl, by simp [halfKnown], rfl, rfl⟩

/-- Tried again, when both names are registered and the first by another entity: what was filled before stays. -/
theorem node_stays_in_retry :
    let h : History := ⟨[ghost, node], ⟨[some 0, none], [node, ghost], [("Ghost", 2), ("Node", 1), ("Node", 0)]⟩⟩
    Calls {} h ∧ [ghost, node].Perm h.references.pending ∧
      h.references.resolveIn [ghost, node] = (.ok (), ⟨[some 0, some 2], [], h.references.registered⟩) ∧
      ∀ r ∈ [ghost, node], ∃ place, ([some 0, some 2][r.slot]?).join = some place ∧
        (r.name, place) ∈ h.references.registered := by
  intro h
  have hcalls : Calls {} h :=
    .tail (.tail (.tail calls_halfKnown (.resolve (.refl [node, ghost]))) (.register _ "Node" 1))
      (.register _ "Ghost" 2)
  have horder : [ghost, node].Perm h.references.pending := .swap _ _ _
  have hafter : h.references.resolveIn [ghost, node] = (.ok (), ⟨[some 0, some 2], [], h.references.registered⟩) := rfl
  exact ⟨hcalls, horder, hafter, (resolution_of_calls hcalls horder).1 _ hafter⟩

end Conform.References

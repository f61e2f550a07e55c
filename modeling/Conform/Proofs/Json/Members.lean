import Conform.Json.Basic
import Mathlib.Data.List.Nodup
import Mathlib.Data.String.Basic

/-! The members of an object in the order of their keys. What is put together by insertion is in order; members that are
    in order stay as they are, and members whose keys stand once are only brought into order. -/

namespace Conform.Json

variable {α : Type} {key : String} {value : α} {members : List (String × α)}

/-- Members whose keys ascend. -/
def Ordered (members : List (String × α)) : Prop := members.Pairwise fun m n => m.1 < n.1

theorem mem_insertMember {m : String × α} (h : m ∈ insertMember key value members) : m = (key, value) ∨ m ∈ members := by
  induction members with
  | nil => exact .inl (List.mem_singleton.mp h)
  | cons n rest ih =>
    obtain ⟨k, v⟩ := n
    rw [insertMember] at h
    split_ifs at h with hlt heq
    · exact List.mem_cons.mp h
    · exact (List.mem_cons.mp h).imp_right (List.mem_cons_of_mem _)
    · obtain hm | hm := List.mem_cons.mp h
      · exact .inr (hm ▸ List.mem_cons_self)
      · exact (ih hm).imp_right (List.mem_cons_of_mem _)

theorem Ordered.insertMember (h : Ordered members) (key : String) (value : α) : Ordered (insertMember key value members) := by
  induction members with
  | nil => exact List.pairwise_singleton _ _
  | cons n rest ih =>
    obtain ⟨k, v⟩ := n
    obtain ⟨hk, hrest⟩ := List.pairwise_cons.mp h
    rw [Json.insertMember]
    split_ifs with hlt heq
    · refine List.pairwise_cons.mpr ⟨fun m hm => ?_, h⟩
      obtain rfl | hm := List.mem_cons.mp hm
      · exact hlt
      · exact hlt.trans (hk m hm)
    · exact List.pairwise_cons.mpr ⟨heq ▸ hk, hrest⟩
    · refine List.pairwise_cons.mpr ⟨fun m hm => ?_, ih hrest⟩
      obtain rfl | hm := mem_insertMember hm
      · exact lt_of_le_of_ne (not_lt.mp hlt) (Ne.symm heq)
      · exact hk m hm

theorem ordered_sortMembers (members : List (String × α)) : Ordered (sortMembers members) := by
  suffices h : ∀ sorted : List (String × α), Ordered sorted →
      Ordered (members.foldl (fun sorted m => insertMember m.1 m.2 sorted) sorted) from h [] .nil
  induction members with
  | nil => exact fun _ h => h
  | cons m rest ih => exact fun sorted h => ih _ (h.insertMember m.1 m.2)

/-- A key that is new comes in as one more. -/
theorem perm_insertMember (h : key ∉ members.map Prod.fst) : (insertMember key value members).Perm ((key, value) :: members) := by
  induction members with
  | nil => exact .refl _
  | cons n rest ih =>
    obtain ⟨k, v⟩ := n
    obtain ⟨hne, hrest⟩ := not_or.mp (List.mem_cons.not.mp h)
    rw [insertMember]
    split_ifs with hlt
    · exact .refl _
    · exact ((ih hrest).cons _).trans (.swap _ _ _)

theorem perm_sortMembers (h : (members.map Prod.fst).Nodup) : (sortMembers members).Perm members := by
  suffices hfold : ∀ sorted : List (String × α), ((sorted ++ members).map Prod.fst).Nodup →
      (members.foldl (fun sorted m => insertMember m.1 m.2 sorted) sorted).Perm (sorted ++ members) from hfold [] h
  clear h
  induction members with
  | nil => exact fun sorted _ => by rw [List.append_nil]; exact .refl _
  | cons m rest ih =>
    intro sorted hnodup
    have hnew : m.1 ∉ sorted.map Prod.fst := fun hmem =>
      (List.disjoint_of_nodup_append (List.map_append ▸ hnodup)) hmem (by simp)
    have hinsert : (insertMember m.1 m.2 sorted ++ rest).Perm (sorted ++ m :: rest) :=
      ((perm_insertMember hnew).append_right rest).trans List.perm_middle.symm
    exact (ih _ ((hinsert.map Prod.fst).nodup_iff.mpr hnodup)).trans hinsert

theorem insertMember_of_last (h : ∀ m ∈ members, m.1 < key) : insertMember key value members = members ++ [(key, value)] := by
  induction members with
  | nil => rfl
  | cons n rest ih =>
    obtain ⟨k, v⟩ := n
    obtain ⟨hk, hrest⟩ := List.forall_mem_cons.mp h
    rw [insertMember, if_neg hk.asymm, if_neg hk.ne', ih hrest, List.cons_append]

/-- Members in order stay as they are. -/
theorem sortMembers_of_ordered (h : Ordered members) : sortMembers members = members := by
  suffices hfold : ∀ sorted : List (String × α), Ordered (sorted ++ members) →
      members.foldl (fun sorted m => insertMember m.1 m.2 sorted) sorted = sorted ++ members from hfold [] h
  clear h
  induction members with
  | nil => exact fun sorted _ => sorted.append_nil.symm
  | cons m rest ih =>
    intro sorted hordered
    have hlast : ∀ n ∈ sorted, n.1 < m.1 := fun n hn => (List.pairwise_append.mp hordered).2.2 n hn m List.mem_cons_self
    rw [List.append_cons] at hordered ⊢
    have hinsert : insertMember m.1 m.2 sorted = sorted ++ [m] := insertMember_of_last hlast
    change rest.foldl _ (insertMember m.1 m.2 sorted) = _
    rw [hinsert, ih _ hordered]

end Conform.Json

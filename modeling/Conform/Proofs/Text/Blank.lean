import Conform.Proofs.Numeric.Digits
import Conform.Text.Blank

/-! Blanks around a text. A text without blanks is its own trimmed form. -/

namespace Conform.Text

variable {c : Char} {cs ds rest : List Char} {n width : Nat}

theorem not_isBlank_of_isDigit (h : c.isDigit = true) : isBlank c = false := by
  obtain ⟨hlow, hhigh⟩ := Char.isDigit_iff_toNat.mp h
  have hlow : 48 ≤ c.toNat := hlow
  have hhigh : c.toNat ≤ 57 := hhigh
  simp only [isBlank, Bool.or_eq_false_iff, Bool.and_eq_false_iff, decide_eq_false_iff_not, beq_eq_false_iff_ne]
  omega

theorem trimStart_of_head (h : ∀ c ∈ cs.head?, isBlank c = false) : trimStart cs = cs := by
  cases cs with
  | nil => rfl
  | cons c rest => rw [trimStart, List.dropWhile_cons_of_neg (by simp [h c rfl])]

theorem trimStart_cons (h : isBlank c = false) : trimStart (c :: cs) = c :: cs :=
  trimStart_of_head fun _ hd => Option.some.inj hd ▸ h

/-- Of a text that does not end with a blank, trimming leaves a character, whatever stands behind it. -/
theorem exists_trimStart (hne : cs ≠ []) (hlast : ∀ c ∈ cs.getLast?, isBlank c = false) (rest : List Char) :
    ∃ c more, trimStart (cs ++ rest) = c :: more ∧ c ∈ cs := by
  induction cs with
  | nil => exact absurd rfl hne
  | cons c cs ih =>
    by_cases hblank : isBlank c = true
    · have hmore : cs ≠ [] := by
        rintro rfl
        exact Bool.false_ne_true ((hlast c rfl).symm.trans hblank)
      obtain ⟨d, more, htrim, hd⟩ := ih hmore (by rwa [List.getLast?_cons_of_ne_nil hmore] at hlast)
      exact ⟨d, more, (List.dropWhile_cons_of_pos hblank).trans htrim, List.mem_cons_of_mem c hd⟩
    · exact ⟨c, cs ++ rest, trimStart_cons (Bool.eq_false_iff.mpr hblank), List.mem_cons_self⟩

/-- A text has no blanks. -/
def Solid (cs : List Char) : Prop := ∀ c ∈ cs, isBlank c = false

theorem solid_nil : Solid [] := nofun

theorem solid_cons : Solid (c :: cs) ↔ isBlank c = false ∧ Solid cs := List.forall_mem_cons

theorem solid_append : Solid (cs ++ rest) ↔ Solid cs ∧ Solid rest := List.forall_mem_append

theorem solid_digits (h : ∀ c ∈ ds, c.isDigit = true) : Solid ds := fun c hc => not_isBlank_of_isDigit (h c hc)

theorem solid_ofNat : Solid (Digits.ofNat n) := solid_digits fun _ => Digits.isDigit_of_mem_ofNat

theorem solid_padded : Solid (Digits.padded width n) := solid_digits fun _ => Digits.isDigit_of_mem_padded

theorem trimEnd_of_last (h : ∀ c ∈ cs.getLast?, isBlank c = false) : trimEnd cs = cs := by
  have hreverse : trimStart cs.reverse = cs.reverse := trimStart_of_head (List.head?_reverse ▸ h)
  rw [trimEnd]
  exact (congrArg List.reverse hreverse).trans cs.reverse_reverse

/-- There is nothing to trim from a text that neither begins nor ends with a blank. -/
theorem trim_of_ends (hhead : ∀ c ∈ cs.head?, isBlank c = false) (hlast : ∀ c ∈ cs.getLast?, isBlank c = false) :
    Text.trim cs = cs := by
  rw [Text.trim, trimStart_of_head hhead, trimEnd_of_last hlast]

/-- There is nothing to trim from a text without blanks. -/
theorem Solid.trim (h : Solid cs) : Text.trim cs = cs :=
  trim_of_ends (fun c hc => h c (List.mem_of_head? hc)) fun c hc => h c (List.mem_of_getLast? hc)

end Conform.Text

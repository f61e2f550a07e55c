import Conform.Proofs.Text.Blank
import Conform.Uuid
import Mathlib.Algebra.Order.Ring.Nat
import Mathlib.Tactic.IntervalCases
import Mathlib.Tactic.Ring

/-! Identifiers are read as they are written: their groups of digits make one run of 32, which spells the bits. -/

namespace Conform.Uuid

/-! ### Hexadecimal digits -/

theorem hexValue?_digitChar {d : Nat} (h : d < 16) : Digits.hexValue? (Nat.digitChar d) = some d := by
  interval_cases d <;> rfl

/-- A digit is neither a hyphen, nor the beginning of another notation, nor a blank. -/
theorem digitChar_ne {d : Nat} (h : d < 16) :
    Nat.digitChar d ≠ '-' ∧ Nat.digitChar d ≠ '\x7b' ∧ (Nat.digitChar d).toLower ≠ 'u' ∧
      Text.isBlank (Nat.digitChar d) = false := by
  interval_cases d <;> decide

/-- The digits of a number in base 16, `k` of them, behind those of another number. -/
theorem foldl_digits (n k acc : Nat) :
    ((List.range k).map fun i => n / 16 ^ (k - 1 - i) % 16).foldl (fun m v => 16 * m + v) acc = acc * 16 ^ k + n % 16 ^ k := by
  induction k generalizing acc with
  | zero => simp [Nat.mod_one]
  | succ k ih =>
    have hrest : ((List.range k).map Nat.succ).map (fun i => n / 16 ^ (k + 1 - 1 - i) % 16) =
        (List.range k).map fun i => n / 16 ^ (k - 1 - i) % 16 := by
      rw [List.map_map]
      refine List.map_congr_left fun i _ => ?_
      simp only [Function.comp_apply]
      congr 3
      omega
    rw [List.range_succ_eq_map, List.map_cons, List.foldl_cons, hrest, ih, Nat.mod_pow_succ]
    simp only [Nat.add_sub_cancel, Nat.sub_zero]
    ring

/-- The digit of an identifier at a place. -/
def place (u : Uuid) (i : Nat) : Nat := u.bits.toNat / 16 ^ (31 - i) % 16

theorem place_lt (u : Uuid) (i : Nat) : u.place i < 16 := Nat.mod_lt _ (by decide)

theorem digits_eq (u : Uuid) : u.digits = (List.range 32).map fun i => Nat.digitChar (u.place i) := by
  refine List.map_congr_left fun i _ => ?_
  have hpower : twoTo (4 * (31 - i)) = 16 ^ (31 - i) := Nat.pow_mul 2 4 (31 - i)
  rw [hpower, place]

/-- The digits spell the bits. -/
theorem ofDigits?_digits (u : Uuid) : ofDigits? u.digits = some u := by
  have hvalues : u.digits.mapM Digits.hexValue? = some ((List.range 32).map u.place) := by
    have hplace : Digits.hexValue? ∘ (fun i => Nat.digitChar (u.place i)) = fun i => pure (u.place i) :=
      funext fun i => hexValue?_digitChar (u.place_lt i)
    rw [digits_eq, List.mapM_map, hplace, List.mapM_pure]
    rfl
  have hbits : ((List.range 32).map u.place).foldl (fun n v => 16 * n + v) 0 = u.bits.toNat := by
    have hfold := foldl_digits u.bits.toNat 32 0
    rw [Nat.zero_mul, Nat.zero_add, Nat.mod_eq_of_lt (by exact u.bits.isLt)] at hfold
    exact hfold
  have hlength : u.digits.length = 32 := by simp [digits]
  simp [ofDigits?, hlength, hvalues, hbits, ofNat]

/-! ### Groups -/

/-- Hyphens between groups are all that is not a digit. -/
theorem filter_grouped {cs : List Char} (h : ∀ c ∈ cs, c ≠ '-') (sizes : List Nat) :
    (grouped sizes cs).filter (· != '-') = cs := by
  induction sizes generalizing cs with
  | nil => simpa [grouped] using h
  | cons n sizes ih =>
    have htake : (cs.take n).filter (· != '-') = cs.take n := by
      rw [List.filter_eq_self]
      intro c hc
      simpa using h c (List.mem_of_mem_take hc)
    rw [grouped, List.filter_append, htake, List.filter_cons_of_neg (by decide),
      ih fun c hc => h c (List.mem_of_mem_drop hc), List.take_append_drop]

theorem ofChars?_text (u : Uuid) : ofChars? u.text = some u := by
  have hdigits : ∀ c ∈ u.digits, c ≠ '-' := by
    rw [digits_eq]
    intro c hc
    obtain ⟨i, -, rfl⟩ := List.mem_map.mp hc
    exact (digitChar_ne (u.place_lt i)).1
  have hgroups : ofGroups? u.text = some u := by
    rw [ofGroups?, text, filter_grouped hdigits]
    exact (if_pos rfl).trans u.ofDigits?_digits
  have hhyphen : u.text.contains '-' = true := by simp [text, grouped]
  obtain ⟨tail, htext⟩ : ∃ tail, u.text = Nat.digitChar (u.place 0) :: tail := by
    rw [text, grouped, digits_eq, List.range_succ_eq_map]
    exact ⟨_, rfl⟩
  obtain ⟨-, hbrace, hname, -⟩ := digitChar_ne (u.place_lt 0)
  rw [htext] at hgroups hhyphen ⊢
  have hurn : ((Nat.digitChar (u.place 0) :: tail).take 9).map Char.toLower ≠ "urn:uuid:".toList :=
    fun heq => hname (List.cons_eq_cons.mp heq).1
  rw [ofChars?]
  · rw [if_neg hurn, if_pos hhyphen, hgroups]
  · rintro rest heq
    exact hbrace (List.cons_eq_cons.mp heq).1

theorem solid_grouped {cs : List Char} (h : Text.Solid cs) (sizes : List Nat) : Text.Solid (grouped sizes cs) := by
  induction sizes generalizing cs with
  | nil => exact h
  | cons n sizes ih =>
    rw [grouped, Text.solid_append, Text.solid_cons]
    exact ⟨fun c hc => h c (List.mem_of_mem_take hc), rfl, ih fun c hc => h c (List.mem_of_mem_drop hc)⟩

theorem solid_text (u : Uuid) : Text.Solid u.text := by
  refine solid_grouped (fun c hc => ?_) _
  rw [digits_eq] at hc
  obtain ⟨i, -, rfl⟩ := List.mem_map.mp hc
  exact (digitChar_ne (u.place_lt i)).2.2.2

end Conform.Uuid

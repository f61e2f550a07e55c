import Conform.Numeric.Binary64.Shortest
import Conform.Proofs.Numeric.Binary64

/-! The shortest digits of a float. They lie where decimals read back as the float, since a grid of seventeen digits is
    finer than that is wide, and floats that differ share no such decimal: what floats are written as is in their order.
    An integer of at most 53 bits is written as itself. -/

namespace Conform.Binary64

variable {tie : Tie} {m n d : Nat} {e f place : Int} {q : ℚ}

/-! ### Powers -/

theorem scaled_eq (n : Nat) (e : Int) : ((scaled n e).1 : ℚ) = n * 2 ^ e * (scaled n e).2 := by
  simp only [scaled, Nat.cast_mul, cast_twoTo]
  rw [zpow_eq_div two_ne_zero]
  field_simp

/-- Ten is a little more than `2 ^ (93 / 28)` and a little less than `2 ^ (196 / 59)`. -/
theorem two_pow_le_ten_pow {j l : Nat} (h : 28 * l ≤ 93 * j) : 2 ^ l ≤ 10 ^ j := by
  refine (Nat.pow_le_pow_iff_left (by decide : 93 ≠ 0)).mp ?_
  calc (2 ^ l) ^ 93 = (2 ^ 93) ^ l := by rw [← pow_mul, ← pow_mul, mul_comm]
    _ ≤ (10 ^ 28) ^ l := Nat.pow_le_pow_left (by decide) l
    _ = 10 ^ (28 * l) := (pow_mul ..).symm
    _ ≤ 10 ^ (93 * j) := Nat.pow_le_pow_right (by decide) h
    _ = (10 ^ j) ^ 93 := by rw [← pow_mul, mul_comm]

theorem ten_pow_le_two_pow {j l : Nat} (h : 196 * j ≤ 59 * l) : 10 ^ j ≤ 2 ^ l := by
  refine (Nat.pow_le_pow_iff_left (by decide : 59 ≠ 0)).mp ?_
  calc (10 ^ j) ^ 59 = (10 ^ 59) ^ j := by rw [← pow_mul, ← pow_mul, mul_comm]
    _ ≤ (2 ^ 196) ^ j := Nat.pow_le_pow_left (by decide) j
    _ = 2 ^ (196 * j) := (pow_mul ..).symm
    _ ≤ 2 ^ (59 * l) := Nat.pow_le_pow_right (by decide) h
    _ = (2 ^ l) ^ 59 := by rw [← pow_mul, mul_comm]

theorem two_zpow_le_ten_zpow {j l : Int} (hup : 0 ≤ j → 28 * l ≤ 93 * j) (hdown : j < 0 → 59 * l ≤ 196 * j) :
    (2 : ℚ) ^ l ≤ 10 ^ j := by
  obtain ⟨k, rfl | rfl⟩ := j.eq_nat_or_neg
  · rcases le_or_gt l 0 with hl | hl
    · exact (zpow_le_one_of_nonpos₀ one_le_two hl).trans (one_le_zpow₀ (by norm_num) (by omega))
    · obtain ⟨l, rfl⟩ := Int.eq_ofNat_of_zero_le hl.le
      rw [zpow_natCast, zpow_natCast]
      exact_mod_cast two_pow_le_ten_pow (by omega)
  · obtain rfl | hk := Nat.eq_zero_or_pos k
    · exact zpow_le_one_of_nonpos₀ one_le_two (by omega)
    · obtain ⟨l, rfl⟩ : ∃ n : Nat, l = -n := ⟨(-l).toNat, by omega⟩
      rw [zpow_neg, zpow_neg, zpow_natCast, zpow_natCast]
      refine inv_anti₀ (by positivity) ?_
      exact_mod_cast ten_pow_le_two_pow (by omega)

theorem ten_zpow_le_two_zpow {j l : Int} (hup : 0 ≤ j → 196 * j ≤ 59 * l) (hdown : j < 0 → 93 * j ≤ 28 * l) :
    (10 : ℚ) ^ j ≤ 2 ^ l := by
  obtain ⟨k, rfl | rfl⟩ := j.eq_nat_or_neg
  · obtain ⟨l, rfl⟩ := Int.eq_ofNat_of_zero_le (by omega : 0 ≤ l)
    rw [zpow_natCast, zpow_natCast]
    exact_mod_cast ten_pow_le_two_pow (by omega)
  · rcases le_or_gt 0 l with hl | hl
    · exact (zpow_le_one_of_nonpos₀ (by norm_num) (by omega)).trans (one_le_zpow₀ one_le_two hl)
    · obtain ⟨l, rfl⟩ : ∃ n : Nat, l = -n := ⟨(-l).toNat, by omega⟩
      rw [zpow_neg, zpow_neg, zpow_natCast, zpow_natCast]
      refine inv_anti₀ (by positivity) ?_
      exact_mod_cast two_pow_le_ten_pow (by omega)

/-! ### The decimal point -/

/-- A number is as large as its highest bit. -/
theorem le_log2 (hm : 0 < m) (e : Int) :
    (2 : ℚ) ^ ((Nat.log2 m : Int) + e) ≤ m * 2 ^ e ∧ (m : ℚ) * 2 ^ e < 2 ^ ((Nat.log2 m : Int) + e + 1) := by
  have hpos : (0 : ℚ) < 2 ^ e := by positivity
  have hlow : ((2 ^ m.log2 : Nat) : ℚ) ≤ m := by exact_mod_cast Nat.log2_self_le hm.ne'
  have hhigh : (m : ℚ) < ((2 ^ (m.log2 + 1) : Nat) : ℚ) := by exact_mod_cast Nat.lt_log2_self
  push_cast at hlow hhigh
  rw [zpow_add_one₀ two_ne_zero, zpow_add₀ two_ne_zero, zpow_natCast]
  refine ⟨mul_le_mul_of_nonneg_right hlow hpos.le, ?_⟩
  calc (m : ℚ) * 2 ^ e < 2 ^ (m.log2 + 1) * 2 ^ e := mul_lt_mul_of_pos_right hhigh hpos
    _ = 2 ^ m.log2 * 2 ^ e * 2 := by ring

theorem decimalPoint_spec (hm : 0 < m) (hleast : -1074 ≤ (Nat.log2 m : Int) + e) (hmost : (Nat.log2 m : Int) + e < 1024) :
    (10 : ℚ) ^ (decimalPoint m e - 1) ≤ m * 2 ^ e ∧ (m : ℚ) * 2 ^ e < 10 ^ decimalPoint m e := by
  have hbelow (p : Int) : (scaled m e).1 * tenTo (-p).toNat < (scaled m e).2 * tenTo p.toNat ↔ (m : ℚ) * 2 ^ e < 10 ^ p := by
    have hden : (0 : ℚ) < (scaled m e).2 := by
      rw [scaled, cast_twoTo]
      positivity
    rw [zpow_eq_div (by norm_num : (10 : ℚ) ≠ 0), lt_div_iff₀ (by positivity), ← Nat.cast_lt (α := ℚ), Nat.cast_mul, Nat.cast_mul,
      scaled_eq, Decimal.cast_tenTo, Decimal.cast_tenTo, mul_right_comm, mul_comm ((scaled m e).2 : ℚ), mul_lt_mul_iff_left₀ hden]
  obtain ⟨hlow, hhigh⟩ := le_log2 hm e
  unfold decimalPoint
  simp only [decide_eq_true_eq, hbelow]
  generalize hbits : (Nat.log2 m : Int) + e = bits at *
  -- The guess is at most one too high, and at most two too low.
  have hguess : (10 : ℚ) ^ (bits * 30103 / 100000 - 1) ≤ 2 ^ bits := ten_zpow_le_two_zpow (by omega) (by omega)
  have hlast : (2 : ℚ) ^ (bits + 1) ≤ 10 ^ (bits * 30103 / 100000 + 2) := two_zpow_le_ten_zpow (by omega) (by omega)
  split_ifs with hfirst hsecond
  · exact ⟨hguess.trans hlow, hfirst⟩
  · exact ⟨by rw [add_sub_cancel_right]; exact not_lt.mp hfirst, hsecond⟩
  · have heq : bits * 30103 / 100000 + 2 - 1 = bits * 30103 / 100000 + 1 := by omega
    exact ⟨by rw [heq]; exact not_lt.mp hsecond, hhigh.trans_le hlast⟩

/-! ### What reads back -/

/-- Whether a number lies where decimals read back as `m · 2 ^ e`: within a half of the unit, or a quarter of it below a
    power of two, and not at the ends for an odd mantissa. -/
structure Within (m : Nat) (e : Int) (q : ℚ) : Prop where
  low_le : ((4 * m - reachBelow m e : Nat) : ℚ) * 2 ^ (e - 2) ≤ q
  le_high : q ≤ ((4 * m + 2 : Nat) : ℚ) * 2 ^ (e - 2)
  low_ne : m % 2 = 1 → ((4 * m - reachBelow m e : Nat) : ℚ) * 2 ^ (e - 2) ≠ q
  ne_high : m % 2 = 1 → q ≠ ((4 * m + 2 : Nat) : ℚ) * 2 ^ (e - 2)

theorem within_of_lt (hlow : ((4 * m - reachBelow m e : Nat) : ℚ) * 2 ^ (e - 2) < q)
    (hhigh : q < ((4 * m + 2 : Nat) : ℚ) * 2 ^ (e - 2)) : Within m e q :=
  ⟨hlow.le, hhigh.le, fun _ => hlow.ne, fun _ => hhigh.ne⟩

theorem quarter_mul (m : Nat) (e : Int) : (m : ℚ) * 2 ^ e = (4 * m : Nat) * 2 ^ (e - 2) := by
  rw [zpow_sub₀ two_ne_zero]
  push_cast
  ring

/-- Quarters of the unit and steps of a grid are counted at one scale. -/
theorem cast_grid (e place : Int) : ∃ c : ℚ, 0 < c ∧
    (∀ k : Nat, ((k * (tenTo (-place).toNat * twoTo (e - 2).toNat) : Nat) : ℚ) = k * 2 ^ (e - 2) * c) ∧
      ∀ d : Nat, ((d * (tenTo place.toNat * twoTo (2 - e).toNat) : Nat) : ℚ) = d * 10 ^ place * c := by
  have hflip : (2 - e).toNat = (-(e - 2)).toNat := by omega
  refine ⟨10 ^ (-place).toNat * 2 ^ (-(e - 2)).toNat, by positivity, fun k => ?_, fun d => ?_⟩
  · rw [Nat.cast_mul, Nat.cast_mul, Decimal.cast_tenTo, cast_twoTo, zpow_eq_div two_ne_zero]
    field_simp
  · rw [Nat.cast_mul, Nat.cast_mul, Decimal.cast_tenTo, cast_twoTo, hflip, zpow_eq_div (by norm_num : (10 : ℚ) ≠ 0)]
    field_simp

open Classical in
/-- What is tested of a step of a grid is whether it lies where decimals read back. -/
theorem decide_within {num den : Nat} {c : ℚ} (hc : 0 < c) (hunits : ∀ k : Nat, ((k * den : Nat) : ℚ) = k * 2 ^ (e - 2) * c)
    (hsteps : ∀ d : Nat, ((d * num : Nat) : ℚ) = d * 10 ^ place * c) (d : Nat) :
    (if m % 2 = 0 then decide ((4 * m - reachBelow m e) * den ≤ d * num) && decide (d * num ≤ (4 * m + 2) * den)
      else decide ((4 * m - reachBelow m e) * den < d * num) && decide (d * num < (4 * m + 2) * den)) =
        decide (Within m e (d * 10 ^ place)) := by
  have hle (k d : Nat) : k * den ≤ d * num ↔ (k : ℚ) * 2 ^ (e - 2) ≤ d * 10 ^ place := by
    rw [← Nat.cast_le (α := ℚ), hunits, hsteps, mul_le_mul_iff_left₀ hc]
  have hge (k d : Nat) : d * num ≤ k * den ↔ (d : ℚ) * 10 ^ place ≤ k * 2 ^ (e - 2) := by
    rw [← Nat.cast_le (α := ℚ), hunits, hsteps, mul_le_mul_iff_left₀ hc]
  rw [Bool.eq_iff_iff, decide_eq_true_eq]
  split
  next heven =>
    rw [Bool.and_eq_true, decide_eq_true_eq, decide_eq_true_eq, hle, hge]
    exact ⟨fun h => ⟨h.1, h.2, fun hodd => by omega, fun hodd => by omega⟩, fun h => ⟨h.low_le, h.le_high⟩⟩
  next hodd =>
    have hodd : m % 2 = 1 := by omega
    rw [Bool.and_eq_true, decide_eq_true_eq, decide_eq_true_eq, ← not_le, ← not_le, hle, hge, not_le, not_le]
    exact ⟨fun h => within_of_lt h.1 h.2,
      fun h => ⟨lt_of_le_of_ne h.low_le (h.low_ne hodd), lt_of_le_of_ne h.le_high (h.ne_high hodd)⟩⟩

open Classical in
/-- The decimals of a grid that are next to a number, if they read back. -/
theorem onGrid?_spec (tie : Tie) (m : Nat) (e place : Int) : ∃ low : Nat,
    (low : ℚ) * 10 ^ place ≤ m * 2 ^ e ∧ (m : ℚ) * 2 ^ e < (low + 1 : Nat) * 10 ^ place ∧
      (∀ d, onGrid? tie m e place = some d → (d = low ∨ d = low + 1) ∧ Within m e (d * 10 ^ place)) ∧
        (onGrid? tie m e place = none → ¬Within m e (low * 10 ^ place) ∧ ¬Within m e ((low + 1 : Nat) * 10 ^ place)) := by
  obtain ⟨c, hc, hunits, hsteps⟩ := cast_grid e place
  have hnum : 0 < tenTo place.toNat * twoTo (2 - e).toNat := Nat.mul_pos (tenTo_pos _) (Nat.pow_pos (by decide))
  unfold onGrid?
  generalize tenTo place.toNat * twoTo (2 - e).toNat = num at hsteps hnum ⊢
  generalize tenTo (-place).toNat * twoTo (e - 2).toNat = den at hunits ⊢
  have hfloor : 4 * m * den / num * num ≤ 4 * m * den := Nat.div_mul_le_self _ _
  have hnext : 4 * m * den < (4 * m * den / num + 1) * num := by
    rw [Nat.add_mul, Nat.one_mul]
    exact Nat.lt_div_mul_add hnum
  dsimp only
  generalize 4 * m * den / num = low at hfloor hnext ⊢
  refine ⟨low, ?_, ?_, ?_⟩
  · rwa [quarter_mul, ← mul_le_mul_iff_left₀ hc, ← hsteps, ← hunits, Nat.cast_le]
  · rwa [quarter_mul, ← mul_lt_mul_iff_left₀ hc, ← hsteps, ← hunits, Nat.cast_lt]
  rw [decide_within hc hunits hsteps, decide_within hc hunits hsteps]
  by_cases hlow : Within m e (low * 10 ^ place) <;> by_cases hhigh : Within m e ((low + 1 : Nat) * 10 ^ place)
  · simp only [hlow, hhigh, decide_true]
    -- The nearer one is taken, and of two at one distance the one that the tie asks for.
    split_ifs
    · exact ⟨by rintro d ⟨⟩; exact ⟨.inl rfl, hlow⟩, nofun⟩
    · exact ⟨by rintro d ⟨⟩; exact ⟨.inr rfl, hhigh⟩, nofun⟩
    · cases tie with
      | up => exact ⟨by rintro d ⟨⟩; exact ⟨.inr rfl, hhigh⟩, nofun⟩
      | even =>
        obtain heven | hodd := Nat.mod_two_eq_zero_or_one low
        · simp only [heven]
          exact ⟨by rintro d ⟨⟩; exact ⟨.inl rfl, hlow⟩, nofun⟩
        · simp only [hodd]
          exact ⟨by rintro d ⟨⟩; exact ⟨.inr rfl, hhigh⟩, nofun⟩
  · simp only [hlow, hhigh, decide_true, decide_false]
    exact ⟨by rintro d ⟨⟩; exact ⟨.inl rfl, hlow⟩, nofun⟩
  · simp only [hlow, hhigh, decide_true, decide_false]
    exact ⟨by rintro d ⟨⟩; exact ⟨.inr rfl, hhigh⟩, nofun⟩
  · simp only [hlow, hhigh, decide_false]
    exact ⟨nofun, fun _ => ⟨nofun, nofun⟩⟩

/-! ### The search -/

/-- If one of its grids has a decimal that reads back, the search ends at the first of them. -/
theorem search_spec {point : Int} (fuel count : Nat) (hlow : point - (count + fuel) < place) (hhigh : place ≤ point - count)
    (h : onGrid? tie m e place ≠ none) :
    onGrid? tie m e (search tie m e point fuel count).exponent = some (search tie m e point fuel count).coefficient ∧
      place ≤ (search tie m e point fuel count).exponent ∧ (search tie m e point fuel count).exponent ≤ point - count := by
  induction fuel generalizing count with
  | zero => omega
  | succ fuel ih =>
    rw [search]
    cases hgrid : onGrid? tie m e (point - count) with
    | some d => exact ⟨hgrid, hhigh, le_rfl⟩
    | none =>
      have hne : place ≠ point - count := by
        rintro rfl
        exact h hgrid
      obtain ⟨hfound, hplace, hlast⟩ := ih (count + 1) (by push_cast; omega) (by push_cast; omega)
      exact ⟨hfound, hplace, hlast.trans (by push_cast; omega)⟩

theorem cast_reachBelow (hpos : 0 < m) (e : Int) : ((4 * m - reachBelow m e : Nat) : ℚ) = 4 * m - reachBelow m e := by
  have hle : reachBelow m e ≤ 4 * m := by
    unfold reachBelow
    split <;> omega
  rw [Nat.cast_sub hle]
  push_cast
  rfl

theorem Canonical.spec_decimalPoint (hm : Canonical m e) (hpos : 0 < m) :
    (10 : ℚ) ^ (decimalPoint m e - 1) ≤ m * 2 ^ e ∧ (m : ℚ) * 2 ^ e < 10 ^ decimalPoint m e := by
  have hbits : m.log2 < 53 := (Nat.log2_lt hpos.ne').mpr hm.mantissa_lt
  have hleast := hm.least_le
  have hmost := hm.le_most
  exact decimalPoint_spec hpos (by omega) (by omega)

theorem reachBelow_pos (m : Nat) (e : Int) : (0 : ℚ) < reachBelow m e := by
  unfold reachBelow
  split <;> norm_num

/-- Steps of a number's seventeenth digit are smaller than what reads back is wide. -/
theorem step_lt_width (hm : Canonical m e) {step quarter : ℚ} (hquarter : 0 < quarter)
    (hstep : step * 10 ^ 16 ≤ 4 * m * quarter) : step < (reachBelow m e + 2) * quarter := by
  have hmantissa : (m : ℚ) ≤ 9007199254740991 := by exact_mod_cast Nat.le_of_lt_succ (canonical_iff.mp hm).1
  unfold reachBelow
  split
  next hbinade =>
    have heq : (m : ℚ) = 4503599627370496 := by exact_mod_cast hbinade.1
    rw [heq] at hstep
    push_cast
    linarith
  next =>
    push_cast
    nlinarith

/-- Seventeen digits are enough: their grid is finer than what reads back is wide. -/
theorem onGrid?_seventeen (tie : Tie) (hm : Canonical m e) (hpos : 0 < m) : onGrid? tie m e (decimalPoint m e - 17) ≠ none := by
  intro hnone
  obtain ⟨low, hfloor, hnext, -, hfail⟩ := onGrid?_spec tie m e (decimalPoint m e - 17)
  obtain ⟨hlow, hhigh⟩ := hfail hnone
  have hpoint := (hm.spec_decimalPoint hpos).1
  have hstep : (10 : ℚ) ^ (decimalPoint m e - 1) = 10 ^ (decimalPoint m e - 17) * 10 ^ 16 := by
    rw [← zpow_natCast, ← zpow_add₀ (by norm_num)]
    congr 1
    omega
  rw [hstep] at hpoint
  rw [quarter_mul] at hpoint hfloor hnext
  have hunit : (0 : ℚ) < 2 ^ (e - 2) := by positivity
  push_cast at hpoint hfloor hnext hhigh
  generalize (10 : ℚ) ^ (decimalPoint m e - 17) = step at *
  generalize hquarter : (2 : ℚ) ^ (e - 2) = quarter at *
  have hfine := step_lt_width hm hunit hpoint
  have hbelow := reachBelow_pos m e
  by_cases hinside : ((4 * m - reachBelow m e : Nat) : ℚ) * 2 ^ (e - 2) < low * step
  · refine hlow (within_of_lt hinside ?_)
    rw [hquarter]
    push_cast
    linarith
  · rw [cast_reachBelow hpos, hquarter, not_lt] at hinside
    refine hhigh (within_of_lt ?_ ?_)
    · rw [cast_reachBelow hpos, hquarter]
      nlinarith
    · rw [hquarter]
      push_cast
      linarith

/-! ### The digits that are found -/

/-- The number that digits denote. -/
def Digits10.value (s : Digits10) : ℚ := s.coefficient * 10 ^ s.exponent

/-- Trailing zeros are dropped without loss. -/
theorem value_shortest (tie : Tie) (m : Nat) (e : Int) :
    (shortest tie m e).value = (search tie m e (decimalPoint m e) 17 1).value := by
  obtain ⟨hsplit, -⟩ := Decimal.dropZeros_spec 17 (search tie m e (decimalPoint m e) 17 1).coefficient
  rw [shortest]
  dsimp only [Digits10.value]
  generalize Digits.dropZeros 17 (search tie m e (decimalPoint m e) 17 1).coefficient = dropped at hsplit
  rw [hsplit, Nat.cast_mul, Decimal.cast_tenTo, zpow_add₀ (by norm_num), zpow_natCast]
  ring

/-- The digits are found among the first seventeen, where they denote one of the two neighbours on their grid. -/
theorem search_found (tie : Tie) (hm : Canonical m e) (hpos : 0 < m) :
    onGrid? tie m e (search tie m e (decimalPoint m e) 17 1).exponent =
        some (search tie m e (decimalPoint m e) 17 1).coefficient ∧
      decimalPoint m e - 17 ≤ (search tie m e (decimalPoint m e) 17 1).exponent := by
  have hfirst : decimalPoint m e - ((1 : Nat) + (17 : Nat)) < decimalPoint m e - 17 := by omega
  have hlast : decimalPoint m e - 17 ≤ decimalPoint m e - (1 : Nat) := by omega
  obtain ⟨hgrid, hplace, -⟩ := search_spec 17 1 hfirst hlast (onGrid?_seventeen tie hm hpos)
  exact ⟨hgrid, hplace⟩

/-- The shortest digits read back, and there are at most seventeen of them. -/
theorem shortest_spec (tie : Tie) (hm : Canonical m e) (hpos : 0 < m) :
    Within m e (shortest tie m e).value ∧ 0 < (shortest tie m e).value ∧ (shortest tie m e).coefficient ≤ 10 ^ 17 := by
  obtain ⟨hgrid, hplace⟩ := search_found tie hm hpos
  obtain ⟨low, hfloor, -, hsome, -⟩ := onGrid?_spec tie m e (search tie m e (decimalPoint m e) 17 1).exponent
  obtain ⟨hnear, hwithin⟩ := hsome _ hgrid
  have hvalue := value_shortest tie m e
  have hbelow : (reachBelow m e : ℚ) ≤ 2 := by
    unfold reachBelow
    split <;> norm_num
  refine ⟨hvalue ▸ hwithin, hvalue ▸ lt_of_lt_of_le ?_ hwithin.low_le, ?_⟩
  · have hm : (1 : ℚ) ≤ m := by exact_mod_cast hpos
    rw [cast_reachBelow hpos]
    exact mul_pos (by linarith) (by positivity)
  · have hlow : low < 10 ^ 17 := by
      have hlt : (low : ℚ) * 10 ^ (search tie m e (decimalPoint m e) 17 1).exponent < 10 ^ decimalPoint m e :=
        hfloor.trans_lt (hm.spec_decimalPoint hpos).2
      have hstep : (10 : ℚ) ^ decimalPoint m e ≤ 10 ^ 17 * 10 ^ (search tie m e (decimalPoint m e) 17 1).exponent := by
        rw [← zpow_natCast, ← zpow_add₀ (by norm_num)]
        exact zpow_le_zpow_right₀ (by norm_num) (by push_cast; omega)
      have hlt : (low : ℚ) < 10 ^ 17 := lt_of_mul_lt_mul_right (hlt.trans_le hstep) (by positivity)
      exact_mod_cast hlt
    have hdropped : (shortest tie m e).coefficient ≤ (search tie m e (decimalPoint m e) 17 1).coefficient := by
      obtain ⟨hsplit, -⟩ := Decimal.dropZeros_spec 17 (search tie m e (decimalPoint m e) 17 1).coefficient
      have hle := Nat.le_mul_of_pos_right (Digits.dropZeros 17 (search tie m e (decimalPoint m e) 17 1).coefficient).1
        (tenTo_pos (Digits.dropZeros 17 (search tie m e (decimalPoint m e) 17 1).coefficient).2)
      exact hle.trans hsplit.ge
    omega

/-! ### Order -/

theorem reachBelow_mem (m : Nat) (e : Int) :
    reachBelow m e = 1 ∧ m = 4503599627370496 ∧ -1074 < e ∨ reachBelow m e = 2 ∧ ¬(m = 4503599627370496 ∧ -1074 < e) := by
  have hpower : twoTo 52 = 4503599627370496 := rfl
  unfold reachBelow
  split
  next h => exact .inl ⟨rfl, hpower ▸ h⟩
  next h => exact .inr ⟨rfl, hpower ▸ h⟩

/-- What reads back as the lesser number ends where that of the greater one begins, if not before; they meet only where one
    of the mantissas is odd. -/
theorem Canonical.high_le_low (hm : Canonical m e) (hn : Canonical n f) (h : (m : ℚ) * 2 ^ e < n * 2 ^ f) :
    ((4 * m + 2 : Nat) : ℚ) * 2 ^ (e - 2) ≤ ((4 * n - reachBelow n f : Nat) : ℚ) * 2 ^ (f - 2) ∧
      (m % 2 = 0 → n % 2 = 0 → ((4 * m + 2 : Nat) : ℚ) * 2 ^ (e - 2) < ((4 * n - reachBelow n f : Nat) : ℚ) * 2 ^ (f - 2)) := by
  have hunit : (0 : ℚ) < 2 ^ (e - 2) := by positivity
  have hreach := reachBelow_mem n f
  obtain ⟨hmlt, hmleast, -, -⟩ := canonical_iff.mp hm
  obtain ⟨hnlt, hnleast, -, hnfull⟩ := canonical_iff.mp hn
  obtain hlt | rfl | hgt := lt_trichotomy e f
  · have hdouble : 2 * (2 : ℚ) ^ (e - 2) ≤ 2 ^ (f - 2) := by
      rw [← zpow_one_add₀ two_ne_zero]
      exact zpow_le_zpow_right₀ one_le_two (by omega)
    have hle : ((4 * n - reachBelow n f : Nat) : ℚ) * (2 * 2 ^ (e - 2)) ≤ ((4 * n - reachBelow n f : Nat) : ℚ) * 2 ^ (f - 2) :=
      mul_le_mul_of_nonneg_left hdouble (Nat.cast_nonneg _)
    have hcount (k : Nat) (hk : k ≤ (4 * n - reachBelow n f) * 2) :
        (k : ℚ) * 2 ^ (e - 2) ≤ ((4 * n - reachBelow n f : Nat) : ℚ) * (2 * 2 ^ (e - 2)) := by
      rw [← mul_assoc]
      exact mul_le_mul_of_nonneg_right (by exact_mod_cast hk) hunit.le
    refine ⟨(hcount _ (by omega)).trans hle, fun hmeven _ => ?_⟩
    refine lt_of_lt_of_le ?_ ((hcount (4 * m + 3) (by omega)).trans hle)
    exact mul_lt_mul_of_pos_right (by push_cast; linarith) hunit
  · have hlt : m < n := by exact_mod_cast lt_of_mul_lt_mul_right h (by positivity)
    refine ⟨mul_le_mul_of_nonneg_right (by exact_mod_cast (by omega : 4 * m + 2 ≤ 4 * n - reachBelow n e)) hunit.le,
      fun hmeven hneven => mul_lt_mul_of_pos_right ?_ hunit⟩
    exact_mod_cast (by omega : 4 * m + 2 < 4 * n - reachBelow n e)
  · exact absurd h (hn.lt_of_exponent_lt hm hgt).not_gt

/-- Decimals that read back as two numbers are in the order of the numbers. -/
theorem Within.lt {p q : ℚ} (hm : Canonical m e) (hn : Canonical n f) (h : (m : ℚ) * 2 ^ e < n * 2 ^ f) (hp : Within m e p)
    (hq : Within n f q) : p < q := by
  obtain ⟨hle, hlt⟩ := hm.high_le_low hn h
  obtain hmeven | hmodd := Nat.mod_two_eq_zero_or_one m
  · obtain hneven | hnodd := Nat.mod_two_eq_zero_or_one n
    · exact hp.le_high.trans_lt ((hlt hmeven hneven).trans_le hq.low_le)
    · exact (hp.le_high.trans hle).trans_lt (lt_of_le_of_ne hq.low_le (hq.low_ne hnodd))
  · exact (lt_of_le_of_ne hp.le_high (hp.ne_high hmodd)).trans_le (hle.trans hq.low_le)

/-! ### Integers -/

theorem within_self (hpos : 0 < m) (e : Int) : Within m e (m * 2 ^ e) := by
  have hunit : (0 : ℚ) < 2 ^ (e - 2) := by positivity
  rw [quarter_mul]
  refine within_of_lt (mul_lt_mul_of_pos_right ?_ hunit) (mul_lt_mul_of_pos_right ?_ hunit)
  · have hreach := reachBelow_mem m e
    exact_mod_cast (by omega : 4 * m - reachBelow m e < 4 * m)
  · exact_mod_cast (by omega : 4 * m < 4 * m + 2)

/-- The unit of a number of less than 54 bits is at most one. -/
theorem Canonical.exponent_nonpos (hm : Canonical m e) (h : (m : ℚ) * 2 ^ e < 9007199254740992) : e ≤ 0 := by
  by_contra hexponent
  have hfull : ((4503599627370496 : Nat) : ℚ) ≤ m := by exact_mod_cast (canonical_iff.mp hm).2.2.2 (by omega)
  have htwo : (2 : ℚ) ≤ 2 ^ e := by
    calc (2 : ℚ) = 2 ^ (1 : Int) := (zpow_one 2).symm
      _ ≤ 2 ^ e := zpow_le_zpow_right₀ one_le_two (by omega)
  push_cast at hfull
  nlinarith

/-- Where the unit is no more than one, what reads back as a number is less than one away from it. -/
theorem Within.near (hpos : 0 < m) (he : e ≤ 0) (h : Within m e q) : (m : ℚ) * 2 ^ e - 1 < q ∧ q < m * 2 ^ e + 1 := by
  have hquarter : (2 : ℚ) ^ (e - 2) ≤ 1 / 4 := by
    calc (2 : ℚ) ^ (e - 2) ≤ 2 ^ (-2 : Int) := zpow_le_zpow_right₀ one_le_two (by omega)
      _ = 1 / 4 := by norm_num
  have hreach : (reachBelow m e : ℚ) ≤ 2 := by
    unfold reachBelow
    split <;> norm_num
  have hunit : (0 : ℚ) < 2 ^ (e - 2) := by positivity
  have hle := h.low_le
  have hge := h.le_high
  rw [cast_reachBelow hpos] at hle
  rw [quarter_mul]
  push_cast at hge ⊢
  constructor <;> nlinarith

section Integers

variable (hm : Canonical m e) (hvalue : (m : ℚ) * 2 ^ e = n) (hpos : 0 < n)

include hvalue hpos

theorem mantissa_pos_of_natCast : 0 < m := by
  refine Nat.pos_of_ne_zero fun hzero => hpos.ne ?_
  rw [hzero, Nat.cast_zero, zero_mul] at hvalue
  exact_mod_cast hvalue

/-- An integer is on the grid of the integers. -/
theorem onGrid?_of_natCast (tie : Tie) : onGrid? tie m e 0 ≠ none := by
  intro hnone
  obtain ⟨low, hfloor, hnext, -, hfail⟩ := onGrid?_spec tie m e 0
  rw [hvalue, zpow_zero, mul_one] at hfloor hnext
  have hlow : low = n := by
    have hle : low ≤ n := by exact_mod_cast hfloor
    have hgt : n < low + 1 := by exact_mod_cast hnext
    omega
  refine (hfail hnone).1 ?_
  rw [hlow, zpow_zero, mul_one, ← hvalue]
  exact within_self (mantissa_pos_of_natCast hvalue hpos) e

include hm

theorem decimalPoint_of_natCast (hlt : n < 9007199254740992) : 1 ≤ decimalPoint m e ∧ decimalPoint m e ≤ 16 := by
  have hone : (1 : ℚ) ≤ n := by exact_mod_cast hpos
  have hlimit : (n : ℚ) < 9007199254740992 := by exact_mod_cast hlt
  obtain ⟨hleast, hmost⟩ := hm.spec_decimalPoint (mantissa_pos_of_natCast hvalue hpos)
  rw [hvalue] at hleast hmost
  constructor
  · by_contra hlow
    have hle : (10 : ℚ) ^ decimalPoint m e ≤ 1 := zpow_le_one_of_nonpos₀ (by norm_num) (by omega)
    linarith
  · by_contra hhigh
    have hle : (10 : ℚ) ^ (16 : Int) ≤ 10 ^ (decimalPoint m e - 1) := zpow_le_zpow_right₀ (by norm_num) (by omega)
    norm_num at hle
    linarith

/-- The digits of an integer end before the point. -/
theorem exists_value_shortest (tie : Tie) (hlt : n < 9007199254740992) : ∃ z : Nat, (shortest tie m e).value = z := by
  have hpoint := decimalPoint_of_natCast hm hvalue hpos hlt
  have hfirst : decimalPoint m e - ((1 : Nat) + (17 : Nat)) < 0 := by omega
  have hlast : 0 ≤ decimalPoint m e - (1 : Nat) := by omega
  obtain ⟨-, hplace, -⟩ := search_spec 17 1 hfirst hlast (onGrid?_of_natCast hvalue hpos tie)
  obtain ⟨k, hk⟩ := Int.eq_ofNat_of_zero_le hplace
  refine ⟨(search tie m e (decimalPoint m e) 17 1).coefficient * 10 ^ k, ?_⟩
  rw [value_shortest, Digits10.value, hk, zpow_natCast]
  push_cast
  rfl

/-- An integer of less than 54 bits is written as itself: what is written is an integer, and no other reads back. -/
theorem value_shortest_of_lt (tie : Tie) (hlt : n < 9007199254740992) : (shortest tie m e).value = n := by
  have hmpos := mantissa_pos_of_natCast hvalue hpos
  have hlimit : (n : ℚ) < 9007199254740992 := by exact_mod_cast hlt
  obtain ⟨z, hz⟩ := exists_value_shortest hm hvalue hpos tie hlt
  obtain ⟨hlow, hhigh⟩ := (shortest_spec tie hm hmpos).1.near hmpos (hm.exponent_nonpos (hvalue ▸ hlimit))
  rw [hz, hvalue] at hlow hhigh
  have hsame : z = n := by
    have hlow : n < z + 1 := by
      have hlow : (n : ℚ) < z + 1 := by linarith
      exact_mod_cast hlow
    have hhigh : z < n + 1 := by exact_mod_cast hhigh
    omega
  rw [hz, hsame]

end Integers

theorem canonical_natCast : Canonical 4503599627370496 1 := canonical_iff.mpr (by decide)

/-- So is the first integer of 54 bits. -/
theorem value_shortest_of_natCast (tie : Tie) (hm : Canonical m e) (hvalue : (m : ℚ) * 2 ^ e = n) (hpos : 0 < n)
    (hle : n ≤ 9007199254740992) : (shortest tie m e).value = n := by
  obtain hlt | rfl := Nat.lt_or_eq_of_le hle
  · exact value_shortest_of_lt hm hvalue hpos tie hlt
  · obtain ⟨rfl, rfl⟩ := hm.eq_of_value canonical_natCast (by rw [hvalue]; norm_num)
    have hdigits : shortest tie 4503599627370496 1 = ⟨9007199254740992, 0⟩ := by
      cases tie <;> decide
    rw [hdigits, Digits10.value]
    norm_num

end Conform.Binary64

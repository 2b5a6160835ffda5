import Mathlib
import InvariantMachine.Number.Shortest
import InvariantMachine.Proofs.Rounding

/-!
# Shortest decimals

The search for the digits of a number ends at a decimal that is rounded to the number. It does not
fail, since twenty grids suffice, and the digits that it finds are few enough for a word.
-/

namespace InvariantMachine

namespace Binary64

variable {x : Binary64} {i : RoundingInterval} {tie : Tie} {d steps : Nat} {k : Int} {dec : Decimal}

/-! ## Points of a grid -/

namespace RoundingInterval

theorem contains_iff : i.contains d ↔
    if i.closed then i.lower ≤ d * i.den ∧ d * i.den ≤ i.upper
    else i.lower < d * i.den ∧ d * i.den < i.upper := by
  unfold contains
  split_ifs <;> rw [Bool.and_eq_true, decide_eq_true_eq, decide_eq_true_eq]

theorem contains_of_nearestInside (h : i.nearestInside tie = some d) : i.contains d := by
  unfold nearestInside at h
  dsimp only at h
  split at h
  · cases h
    assumption
  · cases h
    assumption
  · cases h
  · rename_i hlower hupper
    split_ifs at h
    · cases h
      exact hlower
    · cases h
      exact hupper
    · cases tie with
      | away => cases h; exact hupper
      | toEven =>
        cases h
        rcases Nat.mod_two_eq_zero_or_one (i.middle / i.den) with hparity | hparity <;> rw [hparity]
        · exact hlower
        · exact hupper

theorem exists_nearestInside (h : i.contains (i.middle / i.den + 1)) :
    ∃ d, i.nearestInside tie = some d := by
  unfold nearestInside
  dsimp only
  rw [h]
  cases i.contains (i.middle / i.den) with
  | false => exact ⟨_, rfl⟩
  | true =>
    dsimp only
    split_ifs
    · exact ⟨_, rfl⟩
    · exact ⟨_, rfl⟩
    · cases tie <;> exact ⟨_, rfl⟩

/-- If the last grid has a point, then the search stops at a grid with one, which is the first or
follows a grid without. -/
theorem search_spec (h : ∃ d, (i.inGrid (k - steps)).nearestInside tie = some (d + 1)) :
    ∃ d k', i.search tie (steps + 1) k = ⟨d + 1, k'⟩ ∧
      (i.inGrid k').nearestInside tie = some (d + 1) ∧
      (k' = k ∨ ∀ d, (i.inGrid (k' + 1)).nearestInside tie ≠ some (d + 1)) := by
  induction steps generalizing k with
  | zero =>
    obtain ⟨d, hd⟩ := h
    rw [Nat.cast_zero, sub_zero] at hd
    exact ⟨d, k, by rw [search, hd], hd, .inl rfl⟩
  | succ steps ih =>
    by_cases hfirst : ∃ d, (i.inGrid k).nearestInside tie = some (d + 1)
    · obtain ⟨d, hd⟩ := hfirst
      exact ⟨d, k, by rw [search, hd], hd, .inl rfl⟩
    · have hskip : i.search tie (steps + 2) k = i.search tie (steps + 1) (k - 1) := by
        rw [search]
        split
        · rename_i d hd
          exact absurd ⟨d, hd⟩ hfirst
        · rfl
      have hlast : k - (steps + 1 : Nat) = k - 1 - steps := by
        push_cast
        ring
      obtain ⟨d, k', hsearch, hd, hbefore⟩ := ih (hlast ▸ h)
      refine ⟨d, k', hskip.trans hsearch, hd, .inr ?_⟩
      rcases hbefore with rfl | hbefore
      · rw [sub_add_cancel]
        exact not_exists.mp hfirst
      · exact hbefore

end RoundingInterval

/-! ## The interval of a number -/

theorem ten_pow_toNat_div (k : Int) : (10 : ℚ) ^ k.toNat / 10 ^ (-k).toNat = 10 ^ k := by
  rw [← zpow_natCast, ← zpow_natCast, ← zpow_sub₀ (by norm_num)]
  congr 1
  omega

theorem cast_tenTo (n : Nat) : (tenTo n : ℚ) = 10 ^ n := by
  exact_mod_cast rfl

section Comparison

variable {a D : Nat}

theorem cast_end_and_point (hD : 0 < D) (a d : Nat) (k : Int) :
    ((a * tenTo (-k).toNat : Nat) : ℚ) = a / D * (D * 10 ^ (-k).toNat) ∧
      ((d * (D * tenTo k.toNat) : Nat) : ℚ) = d * 10 ^ k * (D * 10 ^ (-k).toNat) := by
  have hD' : (D : ℚ) ≠ 0 := by exact_mod_cast hD.ne'
  rw [Nat.cast_mul, Nat.cast_mul, Nat.cast_mul, cast_tenTo, cast_tenTo, ← ten_pow_toNat_div k]
  constructor <;> field_simp

theorem end_le_point_iff (hD : 0 < D) :
    a * tenTo (-k).toNat ≤ d * (D * tenTo k.toNat) ↔ (a : ℚ) / D ≤ d * 10 ^ k := by
  obtain ⟨hend, hpoint⟩ := cast_end_and_point hD a d k
  have hfactor : (0 : ℚ) < D * 10 ^ (-k).toNat := by positivity
  rw [← @Nat.cast_le ℚ, hend, hpoint, mul_le_mul_iff_of_pos_right hfactor]

theorem point_le_end_iff (hD : 0 < D) :
    d * (D * tenTo k.toNat) ≤ a * tenTo (-k).toNat ↔ (d : ℚ) * 10 ^ k ≤ a / D := by
  obtain ⟨hend, hpoint⟩ := cast_end_and_point hD a d k
  have hfactor : (0 : ℚ) < D * 10 ^ (-k).toNat := by positivity
  rw [← @Nat.cast_le ℚ, hend, hpoint, mul_le_mul_iff_of_pos_right hfactor]

end Comparison

theorem ends_roundingInterval (hm : 0 < x.mantissa) :
    (x.roundingInterval.lower : ℚ) / x.roundingInterval.den = lowerEnd x.mantissa x.exponent ∧
      (x.roundingInterval.middle : ℚ) / x.roundingInterval.den = x.mantissa * 2 ^ x.exponent ∧
      (x.roundingInterval.upper : ℚ) / x.roundingInterval.den = upperEnd x.mantissa x.exponent := by
  have hbelow : (x.fraction = 0 ∧ 1 < x.exponentField) ↔
      (x.mantissa = 2 ^ 52 ∧ -1074 < x.exponent) := by
    have hfraction : x.fraction < 2 ^ 52 := Nat.mod_lt _ (by decide)
    rw [mantissa, exponent]
    split_ifs <;> omega
  have hunit : (2 : ℚ) ^ (x.exponent - 2).toNat / 2 ^ (-(x.exponent - 2)).toNat =
      2 ^ x.exponent / 4 := by
    rw [two_pow_toNat_div, zpow_sub₀ two_ne_zero]
    norm_num
  have hscaled (n : Nat) : ((n <<< (x.exponent - 2).toNat : Nat) : ℚ) /
      (1 <<< (-(x.exponent - 2)).toNat : Nat) = n / 4 * 2 ^ x.exponent := by
    rw [Nat.shiftLeft_eq, Nat.shiftLeft_eq, one_mul]
    push_cast
    rw [mul_div_assoc, hunit]
    ring
  have hle : (if x.fraction = 0 ∧ 1 < x.exponentField then 1 else 2) ≤ 4 * x.mantissa := by
    split_ifs <;> omega
  refine ⟨?_, ?_, ?_⟩
  · refine (hscaled _).trans ?_
    rw [lowerEnd, Nat.cast_sub hle]
    simp only [hbelow]
    split_ifs <;> push_cast <;> ring
  · refine (hscaled _).trans ?_
    push_cast
    ring
  · refine (hscaled _).trans ?_
    rw [upperEnd]
    push_cast
    ring

theorem den_roundingInterval_pos (x : Binary64) : 0 < x.roundingInterval.den := by
  simp [roundingInterval, Nat.shiftLeft_eq]

/-- A point of a grid lies in the interval of a number exactly when it is rounded to it. -/
theorem contains_inGrid_iff (hm : 0 < x.mantissa) : (x.roundingInterval.inGrid k).contains d ↔
    RoundsTo (d * 10 ^ k) x.mantissa x.exponent := by
  obtain ⟨hlower, -, hupper⟩ := ends_roundingInterval hm
  have hden := x.den_roundingInterval_pos
  have hclosed : x.roundingInterval.closed = true ↔ x.mantissa % 2 = 0 := beq_iff_eq
  rw [RoundingInterval.contains_iff, RoundsTo, ← hlower, ← hupper]
  simp only [RoundingInterval.inGrid, hclosed]
  split_ifs
  · rw [end_le_point_iff hden, point_le_end_iff hden]
  · rw [← not_le, ← not_le, end_le_point_iff hden, point_le_end_iff hden, not_le, not_le]

theorem contains_after_middle (hm : 0 < x.mantissa) (hk : (10 : ℚ) ^ k < 2 ^ (x.exponent - 1)) :
    (x.roundingInterval.inGrid k).contains
      ((x.roundingInterval.inGrid k).middle / (x.roundingInterval.inGrid k).den + 1) := by
  obtain ⟨-, hmiddle, -⟩ := ends_roundingInterval hm
  have hden := x.den_roundingInterval_pos
  have hpos : 0 < (x.roundingInterval.inGrid k).den :=
    Nat.mul_pos hden (pow_pos (by decide) k.toNat)
  have hbefore := Nat.div_mul_le_self (x.roundingInterval.inGrid k).middle
    (x.roundingInterval.inGrid k).den
  have hafter := (Nat.div_lt_iff_lt_mul hpos).mp (Nat.lt_succ_self
    ((x.roundingInterval.inGrid k).middle / (x.roundingInterval.inGrid k).den))
  generalize (x.roundingInterval.inGrid k).middle / (x.roundingInterval.inGrid k).den = q
    at hbefore hafter ⊢
  have hle : (q : ℚ) * 10 ^ k ≤ x.mantissa * 2 ^ x.exponent :=
    hmiddle ▸ (point_le_end_iff hden).mp hbefore
  have hlt : (x.mantissa : ℚ) * 2 ^ x.exponent < (q + 1 : Nat) * 10 ^ k := by
    rw [← hmiddle, ← not_le, ← point_le_end_iff hden]
    exact not_le.mpr hafter
  have hhalf : upperEnd x.mantissa x.exponent =
      x.mantissa * 2 ^ x.exponent + 2 ^ (x.exponent - 1) := by
    rw [upperEnd, zpow_sub_one₀ two_ne_zero]
    ring
  refine (contains_inGrid_iff hm).mpr (.of_between ((lowerEnd_lt _ _).trans hlt) ?_)
  rw [hhalf]
  push_cast
  linarith

theorem not_roundsTo_zero (hm : 0 < x.mantissa) : ¬ RoundsTo 0 x.mantissa x.exponent := by
  intro h
  have hunit : (0 : ℚ) < 2 ^ x.exponent := by positivity
  have hone : (1 : ℚ) ≤ x.mantissa := by exact_mod_cast hm
  have hhalf : (0 : ℚ) < (x.mantissa - 1 / 2) * 2 ^ x.exponent := mul_pos (by linarith) hunit
  exact (hhalf.trans_le h.half_le).false

theorem exists_point (hm : 0 < x.mantissa) (hk : (10 : ℚ) ^ k < 2 ^ (x.exponent - 1)) :
    ∃ d, (x.roundingInterval.inGrid k).nearestInside tie = some (d + 1) := by
  obtain ⟨d, hd⟩ : ∃ d, (x.roundingInterval.inGrid k).nearestInside tie = some d :=
    RoundingInterval.exists_nearestInside (contains_after_middle hm hk)
  have hrounds := (contains_inGrid_iff hm).mp (RoundingInterval.contains_of_nearestInside hd)
  cases d with
  | zero => exact absurd (by simpa using hrounds) (not_roundsTo_zero hm)
  | succ d => exact ⟨d, hd⟩

/-! ## Powers of ten and of two -/

theorem ten_pow_lt_two_pow {n s : Nat} (h : 10 * n < 3 * s) : 10 ^ n < 2 ^ s := by
  refine lt_of_pow_lt_pow_left₀ 3 (Nat.zero_le _) ?_
  calc (10 ^ n) ^ 3 = (10 ^ 3) ^ n := pow_right_comm 10 n 3
    _ ≤ (2 ^ 10) ^ n := Nat.pow_le_pow_left (by decide) n
    _ = 2 ^ (10 * n) := (pow_mul 2 10 n).symm
    _ < 2 ^ (3 * s) := Nat.pow_lt_pow_right (by decide) h
    _ = (2 ^ s) ^ 3 := by rw [mul_comm, pow_mul]

theorem two_pow_lt_ten_pow {n s : Nat} (h : 28 * s < 93 * n) : 2 ^ s < 10 ^ n := by
  refine lt_of_pow_lt_pow_left₀ 28 (Nat.zero_le _) ?_
  calc (2 ^ s) ^ 28 = 2 ^ (28 * s) := by rw [mul_comm, pow_mul]
    _ < 2 ^ (93 * n) := Nat.pow_lt_pow_right (by decide) h
    _ = (2 ^ 93) ^ n := pow_mul 2 93 n
    _ ≤ (10 ^ 28) ^ n := Nat.pow_le_pow_left (by decide) n
    _ = (10 ^ n) ^ 28 := pow_right_comm 10 28 n

/-- `30103 / 100000` is so close to the decimal logarithm of two that for the exponents of numbers
it errs by less than the slack. -/
theorem ten_zpow_lt_two_zpow {j t : Int} (h : 100000 * j + 174438 ≤ 30103 * t)
    (ht : -1500 < t ∧ t < 1500) : (10 : ℚ) ^ j < 2 ^ t := by
  rcases le_or_gt 0 j with hj | hj
  · obtain ⟨n, rfl⟩ := Int.eq_ofNat_of_zero_le hj
    obtain ⟨s, rfl⟩ := Int.eq_ofNat_of_zero_le (show 0 ≤ t by omega)
    rw [zpow_natCast, zpow_natCast]
    exact_mod_cast ten_pow_lt_two_pow (by omega)
  · obtain ⟨n, hn⟩ := Int.eq_ofNat_of_zero_le (show 0 ≤ -j by omega)
    obtain rfl : j = -(n : Int) := by omega
    have hlt : (2 : ℚ) ^ (-t).toNat < 10 ^ n := by
      exact_mod_cast two_pow_lt_ten_pow (by omega)
    calc (10 : ℚ) ^ (-(n : Int)) = (10 ^ n)⁻¹ := by rw [zpow_neg, zpow_natCast]
      _ < (2 ^ (-t).toNat)⁻¹ := inv_strictAnti₀ (by positivity) hlt
      _ = 2 ^ (-((-t).toNat : Int)) := by rw [zpow_neg, zpow_natCast]
      _ ≤ 2 ^ t := zpow_le_zpow_right₀ one_le_two (by omega)

theorem two_zpow_lt_ten_zpow {j t : Int} (h : 30103 * t + 174438 ≤ 100000 * j)
    (ht : -1500 < t ∧ t < 1500) : (2 : ℚ) ^ t < 10 ^ j := by
  have hneg : (10 : ℚ) ^ (-j) < 2 ^ (-t) := ten_zpow_lt_two_zpow (by omega) (by omega)
  rw [zpow_neg, zpow_neg] at hneg
  exact (inv_lt_inv₀ (by positivity) (by positivity)).mp hneg

/-! ## The decimal of a number -/

theorem ten_zpow_last_lt (hx : x.isFinite) (hm : 0 < x.mantissa) :
    (10 : ℚ) ^ (x.decadeAbove - 19) < 2 ^ (x.exponent - 1) := by
  obtain ⟨hlt, hleast, hmost, -⟩ := isScaled_of_isFinite hx
  have hlog : x.mantissa.log2 < 53 := (Nat.log2_lt hm.ne').mpr hlt
  refine ten_zpow_lt_two_zpow ?_ (by omega)
  rw [decadeAbove]
  omega

theorem lt_ten_zpow_decadeAbove (hx : x.isFinite) :
    (2 : ℚ) ^ (x.exponent - 5) < 10 ^ x.decadeAbove := by
  obtain ⟨hlt, hleast, hmost, -⟩ := isScaled_of_isFinite hx
  refine two_zpow_lt_ten_zpow ?_ (by omega)
  rw [decadeAbove]
  omega

/-- The digits of a number are those of a decimal that is rounded to it, and fit in a word. -/
theorem exists_shortest (hx : x.isFinite) (hm : 0 < x.mantissa) (tie : Tie) :
    ∃ d k, x.shortest tie = ⟨d, k⟩ ∧ 0 < d ∧ d < 2 ^ 58 ∧
      RoundsTo (d * 10 ^ k) x.mantissa x.exponent := by
  have hlast : ∃ d, (x.roundingInterval.inGrid (x.decadeAbove - (19 : Nat))).nearestInside tie =
      some (d + 1) := exists_point hm (ten_zpow_last_lt hx hm)
  obtain ⟨d, k, hsearch, hd, hbefore⟩ := RoundingInterval.search_spec hlast
  have hrounds := (contains_inGrid_iff hm).mp (RoundingInterval.contains_of_nearestInside hd)
  have hgrid : (2 : ℚ) ^ (x.exponent - 5) < 10 ^ k := by
    rcases hbefore with rfl | hbefore
    · exact lt_ten_zpow_decadeAbove hx
    · -- the grid before would have had a point if it were fine enough
      have hcoarse : (2 : ℚ) ^ (x.exponent - 1) ≤ 10 ^ (k + 1) := by
        refine not_lt.mp fun hfine => ?_
        obtain ⟨d', hd'⟩ := exists_point hm hfine
        exact hbefore d' hd'
      have hunit : (0 : ℚ) < 2 ^ x.exponent := by positivity
      rw [zpow_add_one₀ (by norm_num), zpow_sub₀ two_ne_zero] at hcoarse
      rw [zpow_sub₀ two_ne_zero]
      linarith
  refine ⟨d + 1, k, hsearch, Nat.succ_pos d, ?_, hrounds⟩
  have hunit : (0 : ℚ) < 2 ^ (x.exponent - 5) := by positivity
  have hdigits : ((d + 1 : Nat) : ℚ) * 2 ^ (x.exponent - 5) < 2 ^ 58 * 2 ^ (x.exponent - 5) :=
    calc ((d + 1 : Nat) : ℚ) * 2 ^ (x.exponent - 5) ≤ (d + 1 : Nat) * 10 ^ k := by gcongr
      _ ≤ upperEnd x.mantissa x.exponent := hrounds.le_upper
      _ < 2 ^ 53 * 2 ^ x.exponent := upperEnd_lt (isScaled_of_isFinite hx).lt _
      _ = 2 ^ 58 * 2 ^ (x.exponent - 5) := by
        rw [zpow_sub₀ two_ne_zero]
        ring
  exact_mod_cast lt_of_mul_lt_mul_right hdigits hunit.le

theorem RoundsTo.exponent_bounds (hx : x.isFinite) (hm : 0 < x.mantissa) (hd : 0 < d)
    (hd' : d < 2 ^ 58) (h : RoundsTo (d * 10 ^ k) x.mantissa x.exponent) : -342 ≤ k ∧ k ≤ 308 := by
  obtain ⟨hlt, hleast, hmost, -⟩ := isScaled_of_isFinite hx
  have hten : (0 : ℚ) < 10 ^ k := by positivity
  constructor
  · by_contra hk
    have hone : (1 : ℚ) ≤ x.mantissa := by exact_mod_cast hm
    have hfew : (d : ℚ) < 2 ^ 58 := by exact_mod_cast hd'
    have hsmall : (d : ℚ) * 10 ^ k < 1 / 2 * 2 ^ x.exponent :=
      calc (d : ℚ) * 10 ^ k < 2 ^ 58 * 2 ^ (-1133 : Int) := by
            gcongr
            exact ten_zpow_lt_two_zpow (by omega) (by decide)
        _ = 1 / 2 * 2 ^ (-1074 : Int) := by
            rw [show (-1074 : Int) = -1133 + (59 : Nat) by rfl, zpow_add_nat]
            ring
        _ ≤ 1 / 2 * 2 ^ x.exponent := by
            gcongr
            exact one_le_two
    have hlow : (1 / 2 : ℚ) * 2 ^ x.exponent ≤ (x.mantissa - 1 / 2) * 2 ^ x.exponent := by
      gcongr
      linarith
    linarith [h.half_le]
  · by_contra hk
    have hone : (1 : ℚ) ≤ d := by exact_mod_cast hd
    refine lt_irrefl ((10 : ℚ) ^ k) ?_
    calc (10 : ℚ) ^ k ≤ d * 10 ^ k := le_mul_of_one_le_left hten.le hone
      _ ≤ upperEnd x.mantissa x.exponent := h.le_upper
      _ < 2 ^ 53 * 2 ^ x.exponent := upperEnd_lt hlt _
      _ ≤ 2 ^ 53 * 2 ^ ((971 : Nat) : Int) := by
          gcongr
          · exact one_le_two
          · exact hmost
      _ = 2 ^ 1024 := by rw [zpow_natCast, ← pow_add]
      _ < 10 ^ 309 := by exact_mod_cast two_pow_lt_ten_pow (by decide)
      _ = 10 ^ ((309 : Nat) : Int) := (zpow_natCast 10 309).symm
      _ ≤ 10 ^ k := zpow_le_zpow_right₀ (by norm_num) (by omega)

end Binary64

end InvariantMachine

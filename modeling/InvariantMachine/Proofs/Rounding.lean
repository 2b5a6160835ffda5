import Mathlib
import InvariantMachine.Number.Layout

/-!
# Rounding to binary64

A finite number is a sign with a mantissa and an exponent. The quotients that are rounded to it are
those between the midpoints to its neighbours, and the midpoints too when the mantissa is even.
Products and quotients of finite numbers are rounded from their exact values.
-/

namespace InvariantMachine.Binary64

/-- The mantissa and the exponent of a finite number: a mantissa without the hidden bit comes with
the least exponent. -/
structure IsScaled (m : Nat) (e : Int) : Prop where
  lt : m < 2 ^ 53
  least : -1074 ≤ e
  most : e ≤ 971
  full : e = -1074 ∨ 2 ^ 52 ≤ m

def packed (negative : Bool) (m : Nat) (e : Int) : Binary64 :=
  ⟨UInt64.ofNat ((e + 1074).toNat <<< 52 + m) ||| signBit negative⟩

variable {m num den : Nat} {e : Int} {x y : Binary64} {negative : Bool}

namespace IsScaled

theorem word_lt (h : IsScaled m e) : (e + 1074).toNat <<< 52 + m < 0x7ff0000000000000 := by
  obtain ⟨hlt, hleast, hmost, -⟩ := h
  rw [Nat.shiftLeft_eq]
  omega

theorem toNat_packed (h : IsScaled m e) (negative : Bool) :
    (packed negative m e).bits.toNat =
      (e + 1074).toNat * 2 ^ 52 + m + if negative then 2 ^ 63 else 0 := by
  obtain ⟨hlt, hleast, hmost, -⟩ := h
  have hword : (e + 1074).toNat * 2 ^ 52 + m < 2 ^ 63 := by omega
  have hbits : (UInt64.ofNat ((e + 1074).toNat <<< 52 + m)).toNat =
      (e + 1074).toNat * 2 ^ 52 + m := by
    rw [Nat.shiftLeft_eq, UInt64.toNat_ofNat', Nat.mod_eq_of_lt (hword.trans (by decide))]
  rw [packed, UInt64.toNat_or, hbits]
  cases negative with
  | false => simp [signBit]
  | true =>
    have hor := Nat.two_pow_add_eq_or_of_lt hword 1
    rw [mul_one] at hor
    rw [Nat.lor_comm, if_pos rfl, add_comm _ (2 ^ 63), hor]
    rfl

theorem exponentField_packed (h : IsScaled m e) : (packed negative m e).exponentField =
    if 2 ^ 52 ≤ m then (e + 1074).toNat + 1 else 0 := by
  rw [exponentField, h.toNat_packed]
  obtain ⟨hlt, hleast, hmost, hfull⟩ := h
  split_ifs <;> omega

theorem fraction_packed (h : IsScaled m e) : (packed negative m e).fraction = m % 2 ^ 52 := by
  rw [fraction, h.toNat_packed]
  split_ifs <;> omega

theorem mantissa_packed (h : IsScaled m e) : (packed negative m e).mantissa = m := by
  rw [mantissa, h.exponentField_packed, h.fraction_packed]
  have hlt := h.lt
  by_cases hfull : 2 ^ 52 ≤ m
  · rw [if_pos hfull, if_neg (Nat.succ_ne_zero _)]
    omega
  · rw [if_neg hfull, if_pos rfl]
    omega

theorem exponent_packed (h : IsScaled m e) : (packed negative m e).exponent = e := by
  rw [exponent, h.exponentField_packed]
  obtain ⟨hlt, hleast, hmost, hfull⟩ := h
  split_ifs <;> omega

theorem isNegative_packed (h : IsScaled m e) : (packed negative m e).isNegative = negative := by
  rw [isNegative, h.toNat_packed]
  obtain ⟨hlt, hleast, hmost, -⟩ := h
  cases negative with
  | false => simpa using (by omega : (e + 1074).toNat * 2 ^ 52 + m < 2 ^ 63)
  | true => simp

theorem isFinite_packed (h : IsScaled m e) : (packed negative m e).isFinite := by
  rw [isFinite, h.exponentField_packed, bne_iff_ne]
  obtain ⟨hlt, hleast, hmost, -⟩ := h
  split_ifs <;> omega

end IsScaled

theorem isScaled_of_isFinite (h : x.isFinite) : IsScaled x.mantissa x.exponent := by
  have hfield : x.exponentField ≠ 2047 := by simpa [isFinite] using h
  have hbound : x.exponentField < 2048 := Nat.mod_lt _ (by decide)
  have hfraction : x.fraction < 2 ^ 52 := Nat.mod_lt _ (by decide)
  rw [mantissa, exponent]
  split_ifs <;> constructor <;> omega

theorem packed_of_isFinite (h : x.isFinite) : packed x.isNegative x.mantissa x.exponent = x := by
  have hword : x.bits.toNat < 2 ^ 64 := x.bits.toNat_lt
  have hbits : (packed x.isNegative x.mantissa x.exponent).bits.toNat = x.bits.toNat := by
    rw [(isScaled_of_isFinite h).toNat_packed, mantissa, exponent]
    have hsign : (if x.isNegative then 2 ^ 63 else 0) = x.bits.toNat / 2 ^ 63 * 2 ^ 63 := by
      rw [isNegative]
      split_ifs with hsign <;> simp at hsign <;> omega
    rw [hsign]
    by_cases hfield : x.exponentField = 0
    · rw [if_pos hfield]
      simp only [exponentField, fraction] at hfield ⊢
      omega
    · rw [if_neg hfield]
      simp only [exponentField, fraction] at hfield ⊢
      omega
  cases x
  exact congrArg mk (UInt64.toNat_inj.mp hbits)

/-! ## What is rounded to a number -/

/-- The least that is rounded to a number. Below a power of two the numbers lie closer. -/
def lowerEnd (m : Nat) (e : Int) : ℚ :=
  (m - if m = 2 ^ 52 ∧ -1074 < e then 1 / 4 else 1 / 2) * 2 ^ e

def upperEnd (m : Nat) (e : Int) : ℚ := (m + 1 / 2) * 2 ^ e

theorem lowerEnd_lt (m : Nat) (e : Int) : lowerEnd m e < m * 2 ^ e := by
  have hunit : (0 : ℚ) < 2 ^ e := by positivity
  refine mul_lt_mul_of_pos_right ?_ hunit
  split_ifs <;> norm_num

theorem lt_upperEnd (m : Nat) (e : Int) : m * 2 ^ e < upperEnd m e := by
  have hunit : (0 : ℚ) < 2 ^ e := by positivity
  exact mul_lt_mul_of_pos_right (by norm_num) hunit

theorem upperEnd_lt (hm : m < 2 ^ 53) (e : Int) : upperEnd m e < 2 ^ 53 * 2 ^ e := by
  have hunit : (0 : ℚ) < 2 ^ e := by positivity
  have hle : (m : ℚ) + 1 ≤ 2 ^ 53 := by exact_mod_cast hm
  exact mul_lt_mul_of_pos_right (by linarith) hunit

/-- What lies between the midpoints to the neighbours, or at one when the mantissa is even. -/
def RoundsTo (v : ℚ) (m : Nat) (e : Int) : Prop :=
  if m % 2 = 0 then lowerEnd m e ≤ v ∧ v ≤ upperEnd m e else lowerEnd m e < v ∧ v < upperEnd m e

namespace RoundsTo

variable {v : ℚ}

theorem lower_le (h : RoundsTo v m e) : lowerEnd m e ≤ v := by
  unfold RoundsTo at h
  split_ifs at h
  · exact h.1
  · exact h.1.le

theorem le_upper (h : RoundsTo v m e) : v ≤ upperEnd m e := by
  unfold RoundsTo at h
  split_ifs at h
  · exact h.2
  · exact h.2.le

theorem half_le (h : RoundsTo v m e) : (m - 1 / 2) * 2 ^ e ≤ v := by
  refine le_trans ?_ h.lower_le
  unfold lowerEnd
  gcongr
  split_ifs <;> norm_num

theorem of_odd (h : RoundsTo v m e) (hodd : m % 2 = 1) :
    (m - 1 / 2) * 2 ^ e < v ∧ v < (m + 1 / 2) * 2 ^ e := by
  have hm : ¬ (m = 2 ^ 52 ∧ -1074 < e) := by omega
  rwa [RoundsTo, if_neg (by omega), lowerEnd, if_neg hm] at h

theorem of_between (hlower : lowerEnd m e < v) (hupper : v < upperEnd m e) : RoundsTo v m e := by
  unfold RoundsTo
  split_ifs
  · exact ⟨hlower.le, hupper.le⟩
  · exact ⟨hlower, hupper⟩

theorem exact (m : Nat) (e : Int) : RoundsTo (m * 2 ^ e) m e :=
  of_between (lowerEnd_lt m e) (lt_upperEnd m e)

end RoundsTo

/-! ## Rounding of quotients -/

/-- The multiple is at most half the divisor away, and less if it is odd. -/
structure IsNearest (n d r : Nat) : Prop where
  lower : 2 * (d * r) ≤ 2 * n + d
  upper : 2 * n ≤ 2 * (d * r) + d
  odd : r % 2 = 1 → 2 * (d * r) < 2 * n + d ∧ 2 * n < 2 * (d * r) + d

section Quotients

variable {n d r : Nat}

theorem isNearest_roundQuotient (n : Nat) (hd : 0 < d) : IsNearest n d (roundQuotient n d) := by
  have hn : d * (n / d) + n % d = n := Nat.div_add_mod n d
  have hrest : n % d < d := Nat.mod_lt n hd
  have hnext : d * (n / d + 1) = d * (n / d) + d := Nat.mul_succ d (n / d)
  unfold roundQuotient
  dsimp only
  split_ifs with hbelow habove
  · constructor <;> omega
  · constructor <;> omega
  · rcases Nat.mod_two_eq_zero_or_one (n / d) with hparity | hparity <;> rw [hparity]
    · rw [Nat.add_zero]
      constructor <;> omega
    · constructor <;> omega

/-- Two neighbours would both be half the divisor away, but one of them is odd. -/
theorem IsNearest.le {r' : Nat} (h : IsNearest n d r) (h' : IsNearest n d r') (hd : 0 < d) :
    r ≤ r' := by
  by_contra hlt
  have hmul : d * (r' + 1) ≤ d * r := Nat.mul_le_mul_left d (Nat.not_le.mp hlt)
  rw [Nat.mul_succ] at hmul
  have hlower := h.lower
  have hupper := h'.upper
  have hnext : r = r' + 1 := by
    refine Nat.eq_of_mul_eq_mul_left hd ?_
    rw [Nat.mul_succ]
    omega
  rcases Nat.mod_two_eq_zero_or_one r with hparity | hparity
  · have := h'.odd (by omega)
    omega
  · have := h.odd hparity
    omega

theorem isNearest_iff (hd : 0 < d) : IsNearest n d r ↔
    (r : ℚ) - 1 / 2 ≤ n / d ∧ (n : ℚ) / d ≤ r + 1 / 2 ∧
      (r % 2 = 1 → (r : ℚ) - 1 / 2 < n / d ∧ (n : ℚ) / d < r + 1 / 2) := by
  have hd' : (0 : ℚ) < d := by exact_mod_cast hd
  have hlower : (2 * (d * r) ≤ 2 * n + d) ↔ ((r : ℚ) - 1 / 2 ≤ n / d) := by
    rw [le_div_iff₀ hd', ← @Nat.cast_le ℚ]
    push_cast
    constructor <;> intro <;> linarith
  have hupper : (2 * n ≤ 2 * (d * r) + d) ↔ ((n : ℚ) / d ≤ r + 1 / 2) := by
    rw [div_le_iff₀ hd', ← @Nat.cast_le ℚ]
    push_cast
    constructor <;> intro <;> linarith
  have hlower' : (2 * (d * r) < 2 * n + d) ↔ ((r : ℚ) - 1 / 2 < n / d) := by
    rw [lt_div_iff₀ hd', ← @Nat.cast_lt ℚ]
    push_cast
    constructor <;> intro <;> linarith
  have hupper' : (2 * n < 2 * (d * r) + d) ↔ ((n : ℚ) / d < r + 1 / 2) := by
    rw [div_lt_iff₀ hd', ← @Nat.cast_lt ℚ]
    push_cast
    constructor <;> intro <;> linarith
  rw [← hlower, ← hupper, ← hlower', ← hupper']
  exact ⟨fun h => ⟨h.lower, h.upper, h.odd⟩, fun h => ⟨h.1, h.2.1, h.2.2⟩⟩

theorem IsNearest.roundQuotient_eq (h : IsNearest n d r) (hd : 0 < d) : roundQuotient n d = r :=
  le_antisymm ((isNearest_roundQuotient n hd).le h hd) (h.le (isNearest_roundQuotient n hd) hd)

end Quotients

def inUnits (num den : Nat) (e : Int) : Nat × Nat :=
  if 0 ≤ e then (num, den <<< e.toNat) else (num <<< (-e).toNat, den)

/-- The power of two in which a quotient has fifty-three binary digits. -/
def unitOf (num den : Nat) : Int :=
  let lower : Int := (num.log2 : Int) - den.log2 - 53
  let (n, d) := inUnits num den lower
  if d <<< 53 ≤ n then lower + 1 else lower

theorem inUnits_pos (hden : 0 < den) (e : Int) : 0 < (inUnits num den e).2 := by
  unfold inUnits
  split
  · rw [Nat.shiftLeft_eq]
    positivity
  · exact hden

theorem inUnits_div (num den : Nat) (e : Int) :
    ((inUnits num den e).1 : ℚ) / (inUnits num den e).2 = num / den / 2 ^ e := by
  unfold inUnits
  split_ifs with he
  · obtain ⟨k, rfl⟩ := Int.eq_ofNat_of_zero_le he
    simp [Nat.shiftLeft_eq, div_div]
  · obtain ⟨k, hk⟩ := Int.eq_ofNat_of_zero_le (show 0 ≤ -e by omega)
    obtain rfl : e = -(k : Int) := by omega
    simp [Nat.shiftLeft_eq]
    ring

theorem two_zpow_log2_le {n : Nat} (hn : n ≠ 0) : (2 : ℚ) ^ (n.log2 : Int) ≤ n := by
  rw [zpow_natCast]
  exact_mod_cast Nat.log2_self_le hn

theorem lt_two_zpow_log2 (n : Nat) : (n : ℚ) < 2 ^ (n.log2 + 1 : Int) := by
  have hlt : (n : ℚ) < 2 ^ (n.log2 + 1) := by exact_mod_cast Nat.lt_log2_self
  exact_mod_cast hlt

theorem log2_bounds (hnum : 0 < num) (hden : 0 < den) :
    (2 : ℚ) ^ ((num.log2 : Int) - den.log2 - 1) ≤ num / den ∧
      (num : ℚ) / den < 2 ^ ((num.log2 : Int) - den.log2 + 1) := by
  have hden' : (0 : ℚ) < den := by exact_mod_cast hden
  rw [le_div_iff₀ hden', div_lt_iff₀ hden']
  constructor
  · calc (2 : ℚ) ^ ((num.log2 : Int) - den.log2 - 1) * den
        ≤ 2 ^ ((num.log2 : Int) - den.log2 - 1) * 2 ^ (den.log2 + 1 : Int) := by
          gcongr
          exact (lt_two_zpow_log2 den).le
      _ = 2 ^ (num.log2 : Int) := by
          rw [← zpow_add₀ two_ne_zero]
          congr 1
          ring
      _ ≤ num := two_zpow_log2_le hnum.ne'
  · calc (num : ℚ) < 2 ^ (num.log2 + 1 : Int) := lt_two_zpow_log2 num
      _ = 2 ^ ((num.log2 : Int) - den.log2 + 1) * 2 ^ (den.log2 : Int) := by
          rw [← zpow_add₀ two_ne_zero]
          congr 1
          ring
      _ ≤ 2 ^ ((num.log2 : Int) - den.log2 + 1) * den := by
          gcongr
          exact two_zpow_log2_le hden.ne'

theorem shiftLeft_le_inUnits_iff (hden : 0 < den) (k : Nat) :
    (inUnits num den e).2 <<< k ≤ (inUnits num den e).1 ↔ (2 : ℚ) ^ (e + k) ≤ num / den := by
  have hpos : (0 : ℚ) < (inUnits num den e).2 := by exact_mod_cast inUnits_pos hden e
  have hunit : (0 : ℚ) < 2 ^ e := by positivity
  rw [zpow_add₀ two_ne_zero, mul_comm, ← le_div_iff₀ hunit, ← inUnits_div, le_div_iff₀ hpos,
    Nat.shiftLeft_eq, mul_comm, zpow_natCast]
  exact_mod_cast Iff.rfl

theorem unitOf_bounds (hnum : 0 < num) (hden : 0 < den) :
    (2 : ℚ) ^ (unitOf num den + 52) ≤ num / den ∧ (num : ℚ) / den < 2 ^ (unitOf num den + 53) := by
  obtain ⟨hlow, hhigh⟩ := log2_bounds hnum hden
  unfold unitOf
  dsimp only
  simp only [shiftLeft_le_inUnits_iff hden]
  generalize (num.log2 : Int) - den.log2 = l at hlow hhigh ⊢
  split_ifs with hdigit
  · refine ⟨?_, ?_⟩
    · convert hdigit using 2
      push_cast
      ring
    · convert hhigh using 2
      ring
  · refine ⟨?_, ?_⟩
    · convert hlow using 2
      ring
    · exact_mod_cast not_le.mp hdigit

theorem zpow_add_nat (e : Int) (k : Nat) : (2 : ℚ) ^ (e + k) = 2 ^ k * 2 ^ e := by
  rw [zpow_add₀ two_ne_zero, zpow_natCast, mul_comm]

/-- The unit that a quotient is rounded in. -/
def roundingUnit (num den : Nat) : Int := max (unitOf num den) (-1074)

/-- The mantissa that a quotient is rounded to; it may be the power of two above all mantissas. -/
def rounded (num den : Nat) : Nat :=
  roundQuotient (inUnits num den (roundingUnit num den)).1
    (inUnits num den (roundingUnit num den)).2

theorem nearest_eq (hnum : num ≠ 0) : nearest negative num den =
    let word := (roundingUnit num den + 1074).toNat <<< 52 + rounded num den
    if 0x7ff0000000000000 ≤ word then infinity negative
    else ⟨UInt64.ofNat word ||| signBit negative⟩ := by
  unfold nearest rounded roundingUnit unitOf inUnits
  rw [if_neg hnum]

theorem least_le_roundingUnit (num den : Nat) : -1074 ≤ roundingUnit num den := le_max_right _ _

theorem roundingUnit_bounds (hnum : 0 < num) (hden : 0 < den) :
    (roundingUnit num den = -1074 ∨ 2 ^ 52 * (2 : ℚ) ^ roundingUnit num den ≤ num / den) ∧
      (num : ℚ) / den < 2 ^ 53 * 2 ^ roundingUnit num den := by
  obtain ⟨hlow, hhigh⟩ := unitOf_bounds hnum hden
  rw [← zpow_add_nat, ← zpow_add_nat]
  constructor
  · rcases le_total (unitOf num den) (-1074) with hunit | hunit
    · exact .inl (max_eq_right hunit)
    · refine .inr ?_
      rw [roundingUnit, max_eq_left hunit]
      exact hlow
  · refine hhigh.trans_le (zpow_le_zpow_right₀ one_le_two ?_)
    exact Int.add_le_add_right (le_max_left _ _) 53

theorem isNearest_inUnits_iff {r : Nat} (hden : 0 < den) (k : Int) :
    IsNearest (inUnits num den k).1 (inUnits num den k).2 r ↔
      (r - 1 / 2) * (2 : ℚ) ^ k ≤ num / den ∧ (num : ℚ) / den ≤ (r + 1 / 2) * 2 ^ k ∧
        (r % 2 = 1 →
          (r - 1 / 2) * (2 : ℚ) ^ k < num / den ∧ (num : ℚ) / den < (r + 1 / 2) * 2 ^ k) := by
  have hunit : (0 : ℚ) < 2 ^ k := by positivity
  rw [isNearest_iff (inUnits_pos hden k), inUnits_div, le_div_iff₀ hunit, div_le_iff₀ hunit,
    lt_div_iff₀ hunit, div_lt_iff₀ hunit]

theorem isNearest_rounded (num : Nat) (hden : 0 < den) :
    IsNearest (inUnits num den (roundingUnit num den)).1
      (inUnits num den (roundingUnit num den)).2 (rounded num den) := by
  rw [rounded]
  exact isNearest_roundQuotient _ (inUnits_pos hden _)

/-- The unit of a quotient is that of the number which it is rounded to, unless the quotient lies
below a power of two that it is rounded up to. -/
theorem RoundsTo.unit_cases (hnum : 0 < num) (hden : 0 < den) (hme : IsScaled m e)
    (h : RoundsTo (num / den) m e) : roundingUnit num den = e ∨
      roundingUnit num den = e - 1 ∧ m = 2 ^ 52 ∧ -1074 < e ∧ (num : ℚ) / den < 2 ^ 52 * 2 ^ e := by
  obtain ⟨hlow, hhigh⟩ := roundingUnit_bounds hnum hden
  have hleast := least_le_roundingUnit num den
  generalize roundingUnit num den = u at hlow hhigh hleast ⊢
  have hunit : (0 : ℚ) < 2 ^ e := by positivity
  have hle : u ≤ e := by
    rcases hlow with rfl | hlow
    · exact hme.least
    · have hlt : (2 : ℚ) ^ (u + (52 : Nat)) < 2 ^ (e + (53 : Nat)) := by
        rw [zpow_add_nat, zpow_add_nat]
        exact hlow.trans_lt (h.le_upper.trans_lt (upperEnd_lt hme.lt e))
      have hlt' := (zpow_lt_zpow_iff_right₀ one_lt_two).mp hlt
      push_cast at hlt'
      omega
  rcases hle.eq_or_lt with rfl | hlt
  · exact .inl rfl
  · have hfull : 2 ^ 52 ≤ m := hme.full.resolve_left (by omega)
    have hfull' : (2 : ℚ) ^ 52 ≤ m := by exact_mod_cast hfull
    have hge : e - 1 ≤ u := by
      have hv : (2 : ℚ) ^ (e + (51 : Nat)) < 2 ^ (u + (53 : Nat)) := by
        rw [zpow_add_nat, zpow_add_nat]
        calc (2 : ℚ) ^ 51 * 2 ^ e < (m - 1 / 2) * 2 ^ e := by
              gcongr
              linarith
          _ ≤ num / den := h.half_le
          _ < 2 ^ 53 * 2 ^ u := hhigh
      have hlt' := (zpow_lt_zpow_iff_right₀ one_lt_two).mp hv
      push_cast at hlt'
      omega
    obtain rfl : u = e - 1 := by omega
    have hv : (num : ℚ) / den < 2 ^ 52 * 2 ^ e := by
      rw [zpow_sub_one₀ two_ne_zero] at hhigh
      linarith
    have hm : (m : ℚ) - 1 / 2 < 2 ^ 52 :=
      lt_of_mul_lt_mul_right (h.half_le.trans_lt hv) hunit.le
    have hm' : m < 2 ^ 52 + 1 := by
      have : (m : ℚ) < 2 ^ 52 + 1 := by linarith
      exact_mod_cast this
    exact .inr ⟨rfl, by omega, by omega, hv⟩

theorem word_of_roundsTo (hnum : 0 < num) (hden : 0 < den) (hme : IsScaled m e)
    (h : RoundsTo (num / den) m e) :
    (roundingUnit num den + 1074).toNat <<< 52 + rounded num den = (e + 1074).toNat <<< 52 + m := by
  have heq {r : Nat} (hr : IsNearest (inUnits num den (roundingUnit num den)).1
      (inUnits num den (roundingUnit num den)).2 r) : rounded num den = r := by
    rw [rounded]
    exact hr.roundQuotient_eq (inUnits_pos hden _)
  simp only [isNearest_inUnits_iff hden] at heq
  rcases h.unit_cases hnum hden hme with hu | ⟨hu, rfl, he, hlt⟩ <;> rw [hu] at heq ⊢
  · rw [heq ⟨h.half_le, h.le_upper, h.of_odd⟩]
  · have hround : rounded num den = 2 ^ 53 := by
      have hlower := h.lower_le
      rw [lowerEnd, if_pos ⟨rfl, he⟩] at hlower
      push_cast at hlower
      rw [zpow_sub_one₀ two_ne_zero] at heq
      refine heq ⟨?_, ?_, fun hodd => absurd hodd (by decide)⟩
      · push_cast
        linarith
      · push_cast
        have hunit : (0 : ℚ) < 2 ^ e := by positivity
        linarith
    rw [hround, Nat.shiftLeft_eq, Nat.shiftLeft_eq]
    omega

theorem nearest_eq_packed (negative : Bool) (hnum : 0 < num) (hden : 0 < den) (hme : IsScaled m e)
    (h : RoundsTo (num / den) m e) : nearest negative num den = packed negative m e := by
  rw [nearest_eq hnum.ne']
  dsimp only
  rw [word_of_roundsTo hnum hden hme h, if_neg (Nat.not_le.mpr hme.word_lt)]
  rfl

/-! ## Values -/

/-- The number is finite, has no sign, and denotes the value. -/
structure HasValue (x : Binary64) (v : ℚ) : Prop where
  isFinite : x.isFinite
  isNegative : x.isNegative = false
  value : x.mantissa * 2 ^ x.exponent = v

theorem IsScaled.hasValue (h : IsScaled m e) : HasValue (packed false m e) (m * 2 ^ e) :=
  ⟨h.isFinite_packed, h.isNegative_packed, by rw [h.mantissa_packed, h.exponent_packed]⟩

theorem exists_isScaled {a j : Nat} (ha : 0 < a) (hlt : a < 2 ^ 53) (hj : j ≤ 971) :
    ∃ m e, IsScaled m e ∧ (m : ℚ) * 2 ^ e = a * 2 ^ j := by
  have hlog : a.log2 < 53 := (Nat.log2_lt ha.ne').mpr hlt
  have hle : 2 ^ a.log2 ≤ a := Nat.log2_self_le ha.ne'
  have hgt : a < 2 ^ (a.log2 + 1) := Nat.lt_log2_self
  refine ⟨a * 2 ^ (52 - a.log2), j - (52 - a.log2 : Nat), ⟨?_, by omega, by omega, .inr ?_⟩, ?_⟩
  · calc a * 2 ^ (52 - a.log2) < 2 ^ (a.log2 + 1) * 2 ^ (52 - a.log2) := by gcongr
      _ = 2 ^ 53 := by
        rw [← pow_add]
        congr 1
        omega
  · calc 2 ^ 52 = 2 ^ a.log2 * 2 ^ (52 - a.log2) := by
          rw [← pow_add]
          congr 1
          omega
      _ ≤ a * 2 ^ (52 - a.log2) := by gcongr
  · push_cast
    rw [zpow_sub₀ two_ne_zero, zpow_natCast, zpow_natCast]
    field_simp

theorem hasValue_nearest {a j : Nat} (ha : 0 < a) (hlt : a < 2 ^ 53) (hj : j ≤ 971) :
    HasValue (nearest false (a * 2 ^ j) 1) (a * 2 ^ j) := by
  obtain ⟨m, e, hme, hvalue⟩ := exists_isScaled ha hlt hj
  have hrounds : RoundsTo (((a * 2 ^ j : Nat) : ℚ) / (1 : Nat)) m e := by
    push_cast
    rw [div_one, ← hvalue]
    exact .exact m e
  rw [nearest_eq_packed false (by positivity) one_pos hme hrounds, ← hvalue]
  exact hme.hasValue

theorem hasValue_ofNat {n : Nat} (hn : 0 < n) (hlt : n < 2 ^ 53) : HasValue (ofNat n) n := by
  simpa [ofNat] using hasValue_nearest (j := 0) hn hlt (by decide)

theorem hasValue_tenTo {n : Nat} (hn : n ≤ 22) : HasValue (ofDecimal false 1 n) (10 ^ n) := by
  have hfive : 5 ^ n < 2 ^ 53 := (Nat.pow_le_pow_right (by decide) hn).trans_lt (by decide)
  have hten : 1 * tenTo n = 5 ^ n * 2 ^ n := by
    rw [one_mul, ← mul_pow]
    rfl
  have hvalue := hasValue_nearest (j := n) (pow_pos (by decide) n) hfive (by omega)
  rw [ofDecimal, if_pos (Int.natCast_nonneg n), Int.toNat_natCast, hten]
  convert hvalue using 1
  push_cast
  rw [← mul_pow]
  norm_num

/-! ## Products and quotients -/

theorem ofScaled_eq_nearest (negative : Bool) (n : Nat) (k : Int) : ∃ num den,
    ofScaled negative n k = nearest negative num den ∧ 0 < den ∧ (0 < n → 0 < num) ∧
      (num : ℚ) / den = n * 2 ^ k := by
  unfold ofScaled
  split_ifs with hk
  · obtain ⟨k, rfl⟩ := Int.eq_ofNat_of_zero_le hk
    exact ⟨_, _, rfl, one_pos, by simp [Nat.shiftLeft_eq], by simp [Nat.shiftLeft_eq]⟩
  · obtain ⟨j, hj⟩ := Int.eq_ofNat_of_zero_le (show 0 ≤ -k by omega)
    obtain rfl : k = -(j : Int) := by omega
    exact ⟨_, _, rfl, by simp [Nat.shiftLeft_eq], id, by simp [Nat.shiftLeft_eq, div_eq_mul_inv]⟩

theorem ofScaled_eq_packed (negative : Bool) {n : Nat} {k : Int} (hn : 0 < n) (hme : IsScaled m e)
    (h : RoundsTo (n * 2 ^ k) m e) : ofScaled negative n k = packed negative m e := by
  obtain ⟨num, den, hnearest, hden, hnum, hvalue⟩ := ofScaled_eq_nearest negative n k
  rw [hnearest]
  exact nearest_eq_packed negative (hnum hn) hden hme (hvalue ▸ h)

theorem isNaN_of_isFinite (h : x.isFinite) : x.isNaN = false := by
  simp_all [isNaN, isFinite]

theorem isInfinite_of_isFinite (h : x.isFinite) : x.isInfinite = false := by
  simp_all [isInfinite, isFinite]

variable {v w : ℚ}

theorem HasValue.mantissa_pos (h : HasValue x v) (hv : 0 < v) : 0 < x.mantissa := by
  refine Nat.pos_of_ne_zero fun hzero => hv.ne ?_
  rw [← h.value, hzero]
  simp

theorem isZero_of_mantissa_pos (h : 0 < x.mantissa) : x.isZero = false := by
  by_contra hzero
  simp only [isZero, Bool.not_eq_false, Bool.and_eq_true, beq_iff_eq] at hzero
  rw [mantissa, if_pos hzero.1, hzero.2] at h
  exact lt_irrefl 0 h

theorem HasValue.value_mul (hx : HasValue x v) (hy : HasValue y w) :
    ((x.mantissa * y.mantissa : Nat) : ℚ) * 2 ^ (x.exponent + y.exponent) = v * w := by
  rw [← hx.value, ← hy.value, zpow_add₀ two_ne_zero]
  push_cast
  ring

theorem HasValue.mul_eq_ofScaled (hx : HasValue x v) (hy : HasValue y w) :
    x * y = ofScaled false (x.mantissa * y.mantissa) (x.exponent + y.exponent) := by
  change mul x y = _
  simp only [mul, isNaN_of_isFinite hx.isFinite, isNaN_of_isFinite hy.isFinite,
    isInfinite_of_isFinite hx.isFinite, isInfinite_of_isFinite hy.isFinite, hx.isNegative,
    hy.isNegative, Bool.or_false, Bool.false_eq_true, if_false, bne_self_eq_false]

theorem HasValue.mul_eq (hx : HasValue x v) (hy : HasValue y w) (hv : 0 < v) (hw : 0 < w)
    (hme : IsScaled m e) (h : RoundsTo (v * w) m e) : x * y = packed false m e := by
  rw [hx.mul_eq_ofScaled hy]
  refine ofScaled_eq_packed false ?_ hme ?_
  · exact Nat.mul_pos (hx.mantissa_pos hv) (hy.mantissa_pos hw)
  · rw [hx.value_mul hy]
    exact h

theorem two_pow_toNat_div (k : Int) : (2 : ℚ) ^ k.toNat / 2 ^ (-k).toNat = 2 ^ k := by
  rw [← zpow_natCast, ← zpow_natCast, ← zpow_sub₀ two_ne_zero]
  congr 1
  omega

theorem HasValue.div_eq (hx : HasValue x v) (hy : HasValue y w) (hv : 0 < v) (hw : 0 < w)
    (hme : IsScaled m e) (h : RoundsTo (v / w) m e) : x / y = packed false m e := by
  have hxpos := hx.mantissa_pos hv
  have hypos := hy.mantissa_pos hw
  have hquotient : ((x.mantissa <<< (x.exponent - y.exponent).toNat : Nat) : ℚ) /
      (y.mantissa <<< (-(x.exponent - y.exponent)).toNat : Nat) = v / w := by
    rw [← hx.value, ← hy.value, Nat.shiftLeft_eq, Nat.shiftLeft_eq]
    push_cast
    rw [mul_div_mul_comm, two_pow_toNat_div, zpow_sub₀ two_ne_zero, mul_div_mul_comm]
  rw [← hquotient] at h
  change div x y = _
  simp only [div, isNaN_of_isFinite hx.isFinite, isNaN_of_isFinite hy.isFinite,
    isInfinite_of_isFinite hx.isFinite, isInfinite_of_isFinite hy.isFinite, hx.isNegative,
    hy.isNegative, isZero_of_mantissa_pos hypos, Bool.or_false, Bool.false_eq_true, if_false,
    bne_self_eq_false]
  refine nearest_eq_packed false ?_ ?_ hme h
  · rw [Nat.shiftLeft_eq]
    positivity
  · rw [Nat.shiftLeft_eq]
    positivity

/-! ## Rounding errors -/

/-- The least that is rounded to an infinity. -/
def overflowEnd : ℚ := (2 ^ 53 - 1 / 2) * 2 ^ (971 : Int)

/-- The word of a mantissa that may have been rounded up to a power of two. -/
theorem exists_isScaled_of_rounded {r : Nat} {k : Int} (hr : r ≤ 2 ^ 53)
    (hk : -1074 ≤ k ∧ k ≤ 971) (hlast : k = 971 → r < 2 ^ 53) (hfull : k = -1074 ∨ 2 ^ 52 ≤ r) :
    ∃ m e, IsScaled m e ∧ (k + 1074).toNat <<< 52 + r = (e + 1074).toNat <<< 52 + m ∧
      (m : ℚ) * 2 ^ e = r * 2 ^ k := by
  rcases hr.lt_or_eq with hlt | rfl
  · exact ⟨r, k, ⟨hlt, hk.1, hk.2, hfull⟩, rfl, rfl⟩
  · refine ⟨2 ^ 52, k + 1, ⟨by decide, by omega, by omega, .inr le_rfl⟩, ?_, ?_⟩
    · rw [Nat.shiftLeft_eq, Nat.shiftLeft_eq]
      omega
    · rw [zpow_add_one₀ two_ne_zero]
      push_cast
      ring

theorem roundingUnit_le (hnum : 0 < num) (hden : 0 < den) (hv : (num : ℚ) / den < overflowEnd) :
    roundingUnit num den ≤ 971 := by
  rcases (roundingUnit_bounds hnum hden).1 with hleast | hlow
  · omega
  · have hlt : (2 : ℚ) ^ (roundingUnit num den + (52 : Nat)) < 2 ^ ((971 : Int) + (53 : Nat)) := by
      rw [zpow_add_nat, zpow_add_nat]
      refine (hlow.trans_lt hv).trans ?_
      exact mul_lt_mul_of_pos_right (by norm_num) (by positivity)
    have hlt' := (zpow_lt_zpow_iff_right₀ one_lt_two).mp hlt
    push_cast at hlt'
    omega

theorem rounded_le (hnum : 0 < num) (hden : 0 < den) : rounded num den ≤ 2 ^ 53 := by
  have hunit : (0 : ℚ) < 2 ^ roundingUnit num den := by positivity
  obtain ⟨hlower, -, -⟩ := (isNearest_inUnits_iff hden _).mp (isNearest_rounded num hden)
  have hlt : (rounded num den : ℚ) - 1 / 2 < 2 ^ 53 :=
    lt_of_mul_lt_mul_right (hlower.trans_lt (roundingUnit_bounds hnum hden).2) hunit.le
  have hlt' : (rounded num den : ℚ) < 2 ^ 53 + 1 := by linarith
  exact Nat.lt_succ_iff.mp (by exact_mod_cast hlt')

theorem rounded_lt (hden : 0 < den) (hv : (num : ℚ) / den < overflowEnd)
    (hu : roundingUnit num den = 971) : rounded num den < 2 ^ 53 := by
  have hunit : (0 : ℚ) < 2 ^ (971 : Int) := by positivity
  obtain ⟨hlower, -, -⟩ := (isNearest_inUnits_iff hden _).mp (isNearest_rounded num hden)
  rw [hu] at hlower
  have hlt : (rounded num den : ℚ) - 1 / 2 < 2 ^ 53 - 1 / 2 :=
    lt_of_mul_lt_mul_right (hlower.trans_lt hv) hunit.le
  have hlt' : (rounded num den : ℚ) < 2 ^ 53 := by linarith
  exact_mod_cast hlt'

theorem rounded_full (hnum : 0 < num) (hden : 0 < den) :
    roundingUnit num den = -1074 ∨ 2 ^ 52 ≤ rounded num den := by
  have hunit : (0 : ℚ) < 2 ^ roundingUnit num den := by positivity
  obtain ⟨-, hupper, -⟩ := (isNearest_inUnits_iff hden _).mp (isNearest_rounded num hden)
  refine (roundingUnit_bounds hnum hden).1.imp_right fun hlow => ?_
  have hle : (2 : ℚ) ^ 52 ≤ rounded num den + 1 / 2 :=
    le_of_mul_le_mul_right (hlow.trans hupper) hunit
  have hlt : (2 : ℚ) ^ 52 < rounded num den + 1 := by linarith
  exact Nat.lt_succ_iff.mp (by exact_mod_cast hlt)

theorem exists_nearest_eq_packed (negative : Bool) (hnum : 0 < num) (hden : 0 < den)
    (hv : (num : ℚ) / den < overflowEnd) : ∃ m e, IsScaled m e ∧
      nearest negative num den = packed negative m e ∧
      m * 2 ^ e ≤ num / den + 1 / 2 * (2 : ℚ) ^ roundingUnit num den := by
  obtain ⟨m, e, hme, hword, hvalue⟩ := exists_isScaled_of_rounded (rounded_le hnum hden)
    ⟨least_le_roundingUnit num den, roundingUnit_le hnum hden hv⟩ (rounded_lt hden hv)
    (rounded_full hnum hden)
  refine ⟨m, e, hme, ?_, ?_⟩
  · rw [nearest_eq hnum.ne']
    dsimp only
    rw [hword, if_neg (Nat.not_le.mpr hme.word_lt)]
    rfl
  · obtain ⟨hlower, -, -⟩ := (isNearest_inUnits_iff hden _).mp (isNearest_rounded num hden)
    linarith

/-- From one on, the relative error of rounding is at most half the last digit. -/
theorem exists_hasValue_nearest (hnum : 0 < num) (hden : 0 < den) (hone : (1 : ℚ) ≤ num / den)
    (hv : (num : ℚ) / den < overflowEnd) : ∃ w, HasValue (nearest false num den) w ∧
      w ≤ num / den * (1 + 1 / 2 ^ 53) := by
  obtain ⟨m, e, hme, hnearest, hvalue⟩ := exists_nearest_eq_packed false hnum hden hv
  refine ⟨m * 2 ^ e, hnearest ▸ hme.hasValue, hvalue.trans ?_⟩
  have hlow : 2 ^ 52 * (2 : ℚ) ^ roundingUnit num den ≤ num / den := by
    rcases (roundingUnit_bounds hnum hden).1 with hleast | hlow
    · rw [hleast, ← zpow_add_nat]
      exact (zpow_le_one_of_nonpos₀ one_le_two (by decide)).trans hone
    · exact hlow
  linarith

theorem exists_hasValue_ofNat {n : Nat} (hn : 0 < n) (hv : (n : ℚ) < overflowEnd) :
    ∃ w, HasValue (ofNat n) w ∧ w ≤ n * (1 + 1 / 2 ^ 53) := by
  have hone : (1 : ℚ) ≤ n := by exact_mod_cast hn
  have hvalue := exists_hasValue_nearest hn one_pos (by simpa using hone) (by simpa using hv)
  simpa [ofNat] using hvalue

theorem isFinite_ofScaled (negative : Bool) {n : Nat} {k : Int}
    (h : (n : ℚ) * 2 ^ k < overflowEnd) : (ofScaled negative n k).isFinite := by
  obtain ⟨num, den, hnearest, hden, -, hvalue⟩ := ofScaled_eq_nearest negative n k
  rw [hnearest]
  rcases Nat.eq_zero_or_pos num with rfl | hnum
  · rw [nearest, if_pos rfl]
    cases negative <;> rfl
  · obtain ⟨m, e, hme, hpacked, -⟩ := exists_nearest_eq_packed negative hnum hden (hvalue ▸ h)
    rw [hpacked]
    exact hme.isFinite_packed

theorem HasValue.isFinite_mul (hx : HasValue x v) (hy : HasValue y w) (h : v * w < overflowEnd) :
    (x * y).isFinite := by
  rw [hx.mul_eq_ofScaled hy]
  exact isFinite_ofScaled false (hx.value_mul hy ▸ h)

end InvariantMachine.Binary64

import Mathlib
import InvariantMachine.Proofs.NumeralTexts
import InvariantMachine.Proofs.ShortestDecimals

/-!
# Numbers read back from documents

The text of a finite number is read as its shortest digits, scaled by a power of ten in binary64.
That is always a finite number, and the number itself when the digits and the power of ten are
exact in binary64.
-/

namespace InvariantMachine

namespace Json.Numeral

open DecimalLayout

variable {negative : Bool} {n count : Nat} {e : Int} {c : Char} {ds ds' cs : List Char}

/-! ## Decimals and exponents -/

/-- What a number is read as that ends a text. -/
def ending (x : Option Numeral) : Option (Numeral × List Char) := x.map fun x => (x, [])

theorem readTail_decimals (plain : Option Numeral) (hne : ds ≠ []) (hds : AllDigits ds)
    (h : appended n ds ≤ greatestSignificand) : readTail negative n e ('.' :: ds) plain =
      ending (ofParts negative (appended n ds) (e - ds.length)) := by
  have hread : readDecimals negative n e 0 (ds ++ []) =
      readDecimals negative (appended n ds) e (0 + ds.length) [] := readDecimals_append hds h []
  rw [List.append_nil, zero_add] at hread
  have hlength : ds.length ≠ 0 := by simpa using hne
  exact hread.trans (if_neg hlength)

theorem readExponent_exponentDigits {i : Int} (hi : i.natAbs ≤ greatestExponent) :
    readExponent negative n e (exponentDigits i) = ending (ofParts negative n (e + i)) := by
  have hds : AllDigits (Nat.toDigits 10 i.natAbs) := allDigits_toDigits i.natAbs
  have hdigits : digits (Nat.toDigits 10 i.natAbs) = (Nat.toDigits 10 i.natAbs, []) := by
    simpa using digits_append hds noDigit_nil
  have hread := readDigits?_of_allDigits Nat.toDigits_ne_nil hds
  rw [appended_toDigits] at hread
  unfold exponentDigits
  split_ifs with hsign
  · have hi' : e - |i| = e + i := by rw [abs_of_neg hsign, sub_neg_eq_add]
    simp [readExponent, hdigits, hread, Nat.not_lt.mpr hi, ending, Option.map_eq_bind, hi']
  · have hi' : e + |i| = e + i := by rw [abs_of_nonneg (not_lt.mp hsign)]
    simp [readExponent, hdigits, hread, Nat.not_lt.mpr hi, ending, Option.map_eq_bind, hi']

theorem readTail_decimals_exponent {i : Int} (hi : i.natAbs ≤ greatestExponent)
    (plain : Option Numeral) (hne : ds ≠ []) (hds : AllDigits ds)
    (h : appended n ds ≤ greatestSignificand) :
    readTail negative n e ('.' :: (ds ++ 'e' :: exponentDigits i)) plain =
      ending (ofParts negative (appended n ds) (e - ds.length + i)) := by
  have hmark : NoDigit ('e' :: exponentDigits i) := noDigit_cons rfl
  have hlength : 0 + ds.length ≠ 0 := by simpa using hne
  calc readTail negative n e ('.' :: (ds ++ 'e' :: exponentDigits i)) plain
      = readDecimals negative n e 0 (ds ++ 'e' :: exponentDigits i) := rfl
    _ = readScaled negative (appended n ds) (e - (0 + ds.length : Nat))
          ('e' :: exponentDigits i) := by
      rw [readDecimals_append hds h, readDecimals_of_noDigit _ _ _ _ hmark, if_neg hlength]
    _ = readExponent negative (appended n ds) (e - (0 + ds.length : Nat)) (exponentDigits i) := rfl
    _ = ending (ofParts negative (appended n ds) (e - ds.length + i)) := by
      rw [zero_add, readExponent_exponentDigits hi]

/-! ## Texts of digits -/

section Texts

variable {D : Nat} {point : Int}

theorem readUnsigned_exponentText (hD : 0 < D) (hfits : D ≤ greatestSignificand)
    (hpoint : (point - 1).natAbs ≤ greatestExponent) :
    readUnsigned negative (document.exponentText (Nat.toDigits 10 D) point).toList =
      ending (ofParts negative D (point - (Nat.toDigits 10 D).length)) := by
  obtain ⟨c, ds, hdigits, hc⟩ := zero_not_head_toDigits hD
  have hall : AllDigits (c :: ds) := hdigits ▸ allDigits_toDigits D
  obtain ⟨hhead, hds⟩ := List.forall_mem_cons.mp hall
  have hfirst : AllDigits [c] := by simpa [AllDigits] using hhead
  have hD' : appended (appended 0 [c]) ds = D := by
    rw [← appended_append, List.singleton_append, ← hdigits, appended_toDigits]
  have hfits' : appended 0 [c] ≤ greatestSignificand :=
    (le_appended _ ds).trans (hD'.trans_le hfits)
  rw [hdigits, toList_exponentText]
  split_ifs with hnil
  · subst hnil
    refine (readUnsigned_append hfirst hc hfits' (noDigit_cons rfl)).trans ?_
    refine (readExponent_exponentDigits hpoint).trans ?_
    rw [← hD', appended_nil]
    congr 2
    simp
  · have hmark : NoDigit ('.' :: (ds ++ 'e' :: exponentDigits (point - 1))) := noDigit_cons rfl
    refine (readUnsigned_append hfirst hc hfits' hmark).trans ?_
    rw [readTail_decimals_exponent hpoint _ hnil hds (hD'.trans_le hfits), hD', List.length_cons]
    congr 2
    push_cast
    ring

theorem appended_zeros (n k : Nat) : appended n (zeros k) = n * 10 ^ k := by
  induction k generalizing n with
  | zero => simp [zeros]
  | succ k ih =>
    have hzero : (digitValue? 10 '0').getD 0 = 0 := rfl
    rw [zeros, List.replicate_succ, appended_cons, hzero, add_zero]
    exact (ih _).trans (by ring)

theorem readUnsigned_fraction (hfits : D ≤ greatestSignificand) (z : Nat) :
    readUnsigned negative ('0' :: '.' :: (zeros z ++ Nat.toDigits 10 D)) =
      ending (ofParts negative D (-z - (Nat.toDigits 10 D).length)) := by
  have hD : appended 0 (zeros z ++ Nat.toDigits 10 D) = D := by
    rw [appended_append, appended_zeros, zero_mul, appended_toDigits]
  have hne : zeros z ++ Nat.toDigits 10 D ≠ [] := by simp [Nat.toDigits_ne_nil]
  rw [readUnsigned_zero (noDigit_cons rfl), readTail_decimals _ hne
    (allDigits_append (allDigits_zeros z) (allDigits_toDigits D)) (hD.trans_le hfits), hD]
  congr 2
  simp [zeros]
  ring

theorem readUnsigned_split (hD : 0 < D) (hfits : D ≤ greatestSignificand) {w : Nat} (hw : 0 < w)
    (hlong : w < (Nat.toDigits 10 D).length) :
    readUnsigned negative ((Nat.toDigits 10 D).take w ++ '.' :: (Nat.toDigits 10 D).drop w) =
      ending (ofParts negative D (w - (Nat.toDigits 10 D).length)) := by
  have hall := allDigits_toDigits D
  have hD' : appended (appended 0 ((Nat.toDigits 10 D).take w))
      ((Nat.toDigits 10 D).drop w) = D := by
    rw [← appended_append, List.take_append_drop, appended_toDigits]
  have htake : AllDigits ((Nat.toDigits 10 D).take w) :=
    fun c hc => hall c (List.mem_of_mem_take hc)
  have hdrop : AllDigits ((Nat.toDigits 10 D).drop w) :=
    fun c hc => hall c (List.mem_of_mem_drop hc)
  have hlength : ((Nat.toDigits 10 D).drop w).length = (Nat.toDigits 10 D).length - w :=
    List.length_drop
  have hne : (Nat.toDigits 10 D).drop w ≠ [] := by
    rw [← List.length_pos_iff, hlength]
    omega
  obtain ⟨c, ds, hdigits, hc⟩ := zero_not_head_toDigits hD
  obtain ⟨w, rfl⟩ := Nat.exists_eq_succ_of_ne_zero hw.ne'
  have hhead : (Nat.toDigits 10 D).take (w + 1) = c :: ds.take w := by
    rw [hdigits, List.take_succ_cons]
  rw [hhead] at hD' htake ⊢
  rw [readUnsigned_append htake hc ((le_appended _ _).trans (hD'.trans_le hfits))
    (noDigit_cons rfl), readTail_decimals _ hne hdrop (hD'.trans_le hfits), hD', hlength]
  congr 2
  omega

/-- The zeros behind a whole number and the decimal that is always written count as digits. -/
theorem readUnsigned_whole (hD : 0 < D) {z : Nat} (hfits : D * 10 ^ (z + 1) ≤ greatestSignificand) :
    readUnsigned negative (Nat.toDigits 10 D ++ zeros z ++ ['.', '0']) =
      ending (ofParts negative (D * 10 ^ (z + 1)) (-1)) := by
  have hall : AllDigits (Nat.toDigits 10 D ++ zeros z) :=
    allDigits_append (allDigits_toDigits D) (allDigits_zeros z)
  have hD' : appended 0 (Nat.toDigits 10 D ++ zeros z) = D * 10 ^ z := by
    rw [appended_append, appended_toDigits, appended_zeros]
  have hlast : appended (D * 10 ^ z) ['0'] = D * 10 ^ (z + 1) :=
    (appended_zeros _ 1).trans (by ring)
  obtain ⟨c, ds, hdigits, hc⟩ := zero_not_head_toDigits hD
  rw [hdigits, List.cons_append] at hall hD' ⊢
  have hfits' : D * 10 ^ z ≤ greatestSignificand :=
    (le_appended _ ['0']).trans (hlast.trans_le hfits)
  have hzero : AllDigits ['0'] := allDigits_zeros 1
  rw [readUnsigned_append hall hc (hD'.trans_le hfits') (noDigit_cons rfl), hD',
    readTail_decimals _ (List.cons_ne_nil _ _) hzero (hlast.trans_le hfits), hlast]
  rfl

theorem whole_fits (hsize : point ≤ 16) (hshort : (Nat.toDigits 10 D).length ≤ point.toNat) :
    D * 10 ^ (point.toNat - (Nat.toDigits 10 D).length + 1) ≤ greatestSignificand := by
  have hlength : 0 < (Nat.toDigits 10 D).length := Nat.length_toDigits_pos
  have hlt : D < 10 ^ (Nat.toDigits 10 D).length :=
    (Nat.length_toDigits_le_iff (by decide) hlength).mp le_rfl
  calc D * 10 ^ (point.toNat - (Nat.toDigits 10 D).length + 1)
      ≤ 10 ^ (Nat.toDigits 10 D).length *
        10 ^ (point.toNat - (Nat.toDigits 10 D).length + 1) := Nat.mul_le_mul_right _ hlt.le
    _ = 10 ^ (point.toNat + 1) := by
      rw [← pow_add]
      congr 1
      omega
    _ ≤ 10 ^ 17 := Nat.pow_le_pow_right (by decide) (by omega)
    _ ≤ greatestSignificand := by decide

theorem readUnsigned_positionalText (hD : 0 < D) (hfits : D ≤ greatestSignificand)
    (hsize : point ≤ 16) :
    readUnsigned negative (document.positionalText (Nat.toDigits 10 D) point).toList =
      ending (if (Nat.toDigits 10 D).length ≤ point then
        ofParts negative (D * 10 ^ (point - (Nat.toDigits 10 D).length + 1).toNat) (-1)
      else ofParts negative D (point - (Nat.toDigits 10 D).length)) := by
  have hlength : 0 < (Nat.toDigits 10 D).length := List.length_pos_iff.mpr Nat.toDigits_ne_nil
  unfold positionalText
  dsimp only
  by_cases hpoint : point ≤ 0
  · obtain ⟨z, hz⟩ := Int.eq_ofNat_of_zero_le (show 0 ≤ -point by omega)
    have htext : (String.ofList (['0', '.'] ++ zeros (-point).toNat ++ Nat.toDigits 10 D)).toList =
        '0' :: '.' :: (zeros z ++ Nat.toDigits 10 D) := by simp [hz]
    rw [if_pos hpoint, if_neg (by omega), htext, readUnsigned_fraction hfits]
    congr 2
    omega
  · rw [if_neg hpoint]
    by_cases hlong : point.toNat < (Nat.toDigits 10 D).length
    · have htext : (String.ofList ((Nat.toDigits 10 D).take point.toNat ++ ['.'] ++
          (Nat.toDigits 10 D).drop point.toNat)).toList = (Nat.toDigits 10 D).take point.toNat ++
            '.' :: (Nat.toDigits 10 D).drop point.toNat := by simp
      rw [if_pos hlong, if_neg (by omega), htext, readUnsigned_split hD hfits (by omega) hlong]
      congr 2
      omega
    · have hz : (point - (Nat.toDigits 10 D).length + 1).toNat =
          point.toNat - (Nat.toDigits 10 D).length + 1 := by omega
      have htext : (String.ofList (Nat.toDigits 10 D ++
          zeros (point.toNat - (Nat.toDigits 10 D).length)) ++ document.wholeSuffix).toList =
            Nat.toDigits 10 D ++ zeros (point.toNat - (Nat.toDigits 10 D).length) ++
              ['.', '0'] := by
        simp [document]
      rw [hz, if_neg hlong, if_pos (by omega), htext,
        readUnsigned_whole hD (whole_fits hsize (not_lt.mp hlong))]

end Texts

end Json.Numeral

namespace Binary64

open Json.Numeral DecimalLayout

variable {x : Binary64}

/-- The significand and the power of ten that the text of a magnitude is read as. A whole number
that is written in full has a decimal, which counts as a digit. -/
def writtenParts (x : Binary64) : Nat × Int :=
  let decimal := x.shortest .toEven
  if 0 ≤ decimal.exponent ∧ decimal.exponent + (Nat.toDigits 10 decimal.digits).length ≤ 16 then
    (decimal.digits * 10 ^ (decimal.exponent + 1).toNat, -1)
  else (decimal.digits, decimal.exponent)

theorem readUnsigned_magnitudeText (hx : x.isFinite) (hm : 0 < x.mantissa) (negative : Bool) :
    readUnsigned negative (document.magnitudeText x).toList =
      ending (ofParts negative x.writtenParts.1 x.writtenParts.2) := by
  obtain ⟨D, k, hshortest, hD, hfew, hrounds⟩ := exists_shortest hx hm .toEven
  obtain ⟨hleast, hmost⟩ := hrounds.exponent_bounds hx hm hD hfew
  have hfits : D ≤ greatestSignificand := hfew.le.trans (by decide)
  have hlength : (Nat.toDigits 10 D).length ≤ 18 :=
    (Nat.length_toDigits_le_iff (by decide) (by decide)).mpr (hfew.trans (by decide))
  have hlength' : 0 < (Nat.toDigits 10 D).length := Nat.length_toDigits_pos
  have htext : (toString D).toList = Nat.toDigits 10 D := by simp
  have htie : document.tie = .toEven := rfl
  unfold magnitudeText writtenParts
  dsimp only
  rw [if_neg hm.ne', htie, hshortest]
  dsimp only
  rw [htext]
  have hpoint : k + (Nat.toDigits 10 D).length - (Nat.toDigits 10 D).length = k :=
    add_sub_cancel_right _ _
  have hsize : document.positional (k + (Nat.toDigits 10 D).length - 1) = true ↔
      -5 ≤ k + (Nat.toDigits 10 D).length - 1 ∧ k + (Nat.toDigits 10 D).length - 1 ≤ 15 := by
    simp [document]
  simp only [hsize]
  split_ifs with hpositional hwhole hwhole
  · rw [readUnsigned_positionalText hD hfits (by omega), if_pos (by omega), hpoint]
  · rw [readUnsigned_positionalText hD hfits (by omega), if_neg (by omega), hpoint]
  · omega
  · rw [readUnsigned_exponentText hD hfits (by simp only [greatestExponent]; omega), hpoint]

theorem reread?_eq_scale (hx : x.isFinite) (hm : 0 < x.mantissa) : Json.reread? x =
    (scale 4 (.ofNat x.writtenParts.1) x.writtenParts.2).map fun y =>
      if x.isNegative then -y else y := by
  have htext : Json.Numeral.read? (document.write x).toList =
      readUnsigned x.isNegative (document.magnitudeText x).toList := by
    obtain ⟨ds, t, hne, hds, -, htext⟩ := exists_magnitudeText x
    obtain ⟨c, ds, rfl⟩ := List.exists_cons_of_ne_nil hne
    simp only [write, isNaN_of_isFinite hx, isInfinite_of_isFinite hx, Bool.false_eq_true, if_false]
    cases x.isNegative with
    | true => simp [Json.Numeral.read?]
    | false => simpa [htext] using read?_of_digit (hds c List.mem_cons_self) (ds ++ t)
  rw [Json.reread?, htext, readUnsigned_magnitudeText hx hm, ofParts, ending]
  simp only [Option.map_map]
  rfl

theorem value_writtenParts (hx : x.isFinite) (hm : 0 < x.mantissa) : 0 < x.writtenParts.1 ∧
    RoundsTo (x.writtenParts.1 * 10 ^ x.writtenParts.2) x.mantissa x.exponent := by
  obtain ⟨D, k, hshortest, hD, -, hrounds⟩ := exists_shortest hx hm .toEven
  unfold writtenParts
  rw [hshortest]
  dsimp only
  split_ifs with hwhole
  · refine ⟨by positivity, ?_⟩
    have hvalue : ((D * 10 ^ (k + 1).toNat : Nat) : ℚ) * 10 ^ (-1 : Int) = D * 10 ^ k := by
      obtain ⟨n, rfl⟩ := Int.eq_ofNat_of_zero_le hwhole.1
      rw [show ((n : Int) + 1).toNat = n + 1 by rfl, Nat.cast_mul, Nat.cast_pow, zpow_neg_one,
        zpow_natCast]
      push_cast
      ring
    rw [hvalue]
    exact hrounds
  · exact ⟨hD, hrounds⟩

/-! ## Numbers that are read back exactly -/

variable {m M : Nat} {e E : Int}

theorem scale_of_exact (hM : 0 < M) (hM' : M < 2 ^ 53) (hE : E.natAbs ≤ 22) (hme : IsScaled m e)
    (h : RoundsTo (M * 10 ^ E) m e) : scale 4 (.ofNat M) E = some (packed false m e) := by
  have hvalue := hasValue_ofNat hM hM'
  have hten := hasValue_tenTo hE
  have hpos : (0 : ℚ) < M := by exact_mod_cast hM
  have hpos' : (0 : ℚ) < 10 ^ E.natAbs := by positivity
  have hstep : E.natAbs ≤ widestDecade := hE.trans (by decide)
  rw [scale, if_pos hstep]
  dsimp only
  rcases le_or_gt 0 E with hsign | hsign
  · have hscaled : (10 : ℚ) ^ E = 10 ^ E.natAbs := by
      rw [← zpow_natCast, Int.natAbs_of_nonneg hsign]
    rw [if_pos hsign, hvalue.mul_eq hten hpos hpos' hme (hscaled ▸ h),
      isInfinite_of_isFinite hme.isFinite_packed]
    rfl
  · have hscaled : (M : ℚ) * 10 ^ E = M / 10 ^ E.natAbs := by
      rw [div_eq_mul_inv, ← zpow_natCast, ← zpow_neg]
      congr 2
      omega
    rw [if_neg (Int.not_le.mpr hsign), hvalue.div_eq hten hpos hpos' hme (hscaled ▸ h)]

theorem xor_signBit {n : Nat} (hn : n < 2 ^ 63) : n ^^^ 2 ^ 63 = n ||| 2 ^ 63 := by
  refine Nat.eq_of_testBit_eq fun i => ?_
  rw [Nat.testBit_xor, Nat.testBit_or, Nat.testBit_two_pow]
  by_cases hi : 63 = i
  · subst hi
    rw [Nat.testBit_lt_two_pow hn]
    rfl
  · simp [hi]

theorem neg_packed (hme : IsScaled m e) : -packed false m e = packed true m e := by
  have hlt : (packed false m e).bits.toNat < 2 ^ 63 := by
    rw [hme.toNat_packed false]
    obtain ⟨hlt, hleast, hmost, -⟩ := hme
    simp
    omega
  have hbits : (-packed false m e).bits.toNat = (packed true m e).bits.toNat :=
    calc ((packed false m e).bits ^^^ 0x8000000000000000).toNat
        = (packed false m e).bits.toNat ^^^ 2 ^ 63 := UInt64.toNat_xor _ _
      _ = (packed false m e).bits.toNat ||| 2 ^ 63 := xor_signBit hlt
      _ = (packed true m e).bits.toNat := by simp [packed, signBit, UInt64.toNat_or]
  exact congrArg Binary64.mk (UInt64.toNat_inj.mp hbits)

theorem reread?_of_mantissa_eq_zero (hx : x.isFinite) (hm : x.mantissa = 0) :
    Json.reread? x = some x := by
  have hme := isScaled_of_isFinite hx
  rw [hm] at hme
  have he : x.exponent = -1074 := hme.full.resolve_right (by decide)
  rw [← packed_of_isFinite hx, hm, he]
  cases x.isNegative <;> decide +kernel

/-- The text of the number is digits and a power of ten that are exact in binary64. -/
structure HasExactText (x : Binary64) : Prop where
  isFinite : x.isFinite
  digits_lt : x.writtenParts.1 < 2 ^ 53
  decade_le : x.writtenParts.2.natAbs ≤ 22

theorem HasExactText.reread?_eq (h : x.HasExactText) : Json.reread? x = some x := by
  rcases Nat.eq_zero_or_pos x.mantissa with hm | hm
  · exact reread?_of_mantissa_eq_zero h.isFinite hm
  · have hme := isScaled_of_isFinite h.isFinite
    obtain ⟨hpos, hrounds⟩ := value_writtenParts h.isFinite hm
    rw [reread?_eq_scale h.isFinite hm, scale_of_exact hpos h.digits_lt h.decade_le hme hrounds,
      Option.map_some]
    refine congrArg some (Eq.trans ?_ (packed_of_isFinite h.isFinite))
    cases x.isNegative with
    | false => rfl
    | true => exact neg_packed hme

/-! ## Numbers that are not refused -/

theorem isSome_scale_of_neg {steps : Nat} (hE : E < 0) : (scale steps x E).isSome := by
  induction steps generalizing x E with
  | zero => rfl
  | succ steps ih =>
    rw [scale]
    have hsign : ¬ 0 ≤ E := Int.not_le.mpr hE
    split_ifs with hstep
    · rfl
    · rfl
    · refine ih ?_
      simp only [widestDecade] at hstep ⊢
      omega

/-- Whether a number is one of the two greatest. Rounding their digits and their power of ten might
have carried the product past the range. -/
def IsGreatest (m : Nat) (e : Int) : Prop := e = 971 ∧ 2 ^ 53 - 2 ≤ m

theorem upperEnd_mul_lt (hme : IsScaled m e) (h : ¬ IsGreatest m e) :
    upperEnd m e * ((1 + 1 / 2 ^ 53) * (1 + 1 / 2 ^ 53)) < overflowEnd := by
  have hunit : (0 : ℚ) < 2 ^ e := by positivity
  have hbelow : upperEnd m e ≤ (2 ^ 53 - 5 / 2) * 2 ^ (971 : Int) := by
    by_cases he : e = 971
    · subst he
      have hm : m + 3 ≤ 2 ^ 53 := by
        have := mt (And.intro rfl) h
        omega
      have hm' : (m : ℚ) + 3 ≤ 2 ^ 53 := by exact_mod_cast hm
      unfold upperEnd
      gcongr
      linarith
    · calc upperEnd m e ≤ 2 ^ 53 * 2 ^ e := (upperEnd_lt hme.lt e).le
        _ ≤ 2 ^ 53 * 2 ^ (970 : Int) := by
          gcongr
          · exact one_le_two
          · have := hme.most
            omega
        _ = 2 ^ 52 * 2 ^ (971 : Int) := by
          rw [show (971 : Int) = 970 + (1 : Nat) by rfl, zpow_add_nat]
          ring
        _ ≤ (2 ^ 53 - 5 / 2) * 2 ^ (971 : Int) := by
          gcongr
          norm_num
  calc upperEnd m e * ((1 + 1 / 2 ^ 53) * (1 + 1 / 2 ^ 53))
      ≤ (2 ^ 53 - 5 / 2) * 2 ^ (971 : Int) * ((1 + 1 / 2 ^ 53) * (1 + 1 / 2 ^ 53)) := by gcongr
    _ = (2 ^ 53 - 5 / 2) * ((1 + 1 / 2 ^ 53) * (1 + 1 / 2 ^ 53)) * 2 ^ (971 : Int) := by ring
    _ < overflowEnd := mul_lt_mul_of_pos_right (by norm_num) (by positivity)

/-- Digits times a power of ten stay within the range for all but the greatest numbers. -/
theorem isFinite_scaled {k : Nat} (hM : 0 < M) (hme : IsScaled m e)
    (h : RoundsTo (M * 10 ^ k) m e) (hnot : ¬ IsGreatest m e) :
    (ofNat M * ofDecimal false 1 k).isFinite := by
  have hten : ofDecimal false 1 k = ofNat (10 ^ k) := by
    rw [ofDecimal, if_pos (Int.natCast_nonneg k), one_mul, Int.toNat_natCast]
    rfl
  have hfactor : (1 : ℚ) ≤ (1 + 1 / 2 ^ 53) * (1 + 1 / 2 ^ 53) := by norm_num
  have hrange := upperEnd_mul_lt hme hnot
  have hproduct : (M : ℚ) * 10 ^ k ≤ upperEnd m e := h.le_upper
  have hend : 0 ≤ upperEnd m e := le_trans (by positivity) hproduct
  have hM' : (1 : ℚ) ≤ M := by exact_mod_cast hM
  have hpower : (1 : ℚ) ≤ 10 ^ k := one_le_pow₀ (by norm_num)
  have hwithin : upperEnd m e < overflowEnd :=
    (le_mul_of_one_le_right hend hfactor).trans_lt hrange
  have hdigits : (M : ℚ) < overflowEnd :=
    (le_mul_of_one_le_right (by positivity) hpower).trans_lt (hproduct.trans_lt hwithin)
  have hten' : ((10 ^ k : Nat) : ℚ) < overflowEnd := by
    push_cast
    exact (le_mul_of_one_le_left (by positivity) hM').trans_lt (hproduct.trans_lt hwithin)
  obtain ⟨v, hv, hv'⟩ := exists_hasValue_ofNat hM hdigits
  obtain ⟨w, hw, hw'⟩ := exists_hasValue_ofNat (pow_pos (by decide) k) hten'
  rw [hten]
  refine hv.isFinite_mul hw (lt_of_le_of_lt ?_ hrange)
  have hpos : 0 ≤ w := by
    rw [← hw.value]
    positivity
  push_cast at hw'
  calc v * w ≤ M * (1 + 1 / 2 ^ 53) * (10 ^ k * (1 + 1 / 2 ^ 53)) := by gcongr
    _ = M * 10 ^ k * ((1 + 1 / 2 ^ 53) * (1 + 1 / 2 ^ 53)) := by ring
    _ ≤ upperEnd m e * ((1 + 1 / 2 ^ 53) * (1 + 1 / 2 ^ 53)) := by gcongr

theorem isSome_scale_writtenParts (hx : x.isFinite) (hm : 0 < x.mantissa)
    (hnot : ¬ IsGreatest x.mantissa x.exponent) :
    (scale 4 (.ofNat x.writtenParts.1) x.writtenParts.2).isSome := by
  rcases lt_or_ge x.writtenParts.2 0 with hsign | hsign
  · exact isSome_scale_of_neg hsign
  · obtain ⟨D, k, hshortest, hD, hfew, hrounds⟩ := exists_shortest hx hm .toEven
    obtain ⟨hleast, hmost⟩ := hrounds.exponent_bounds hx hm hD hfew
    have hparts : x.writtenParts = (D, k) := by
      unfold writtenParts at hsign ⊢
      rw [hshortest] at hsign ⊢
      dsimp only at hsign ⊢
      split_ifs at hsign ⊢
      · cases hsign
      · rfl
    rw [hparts] at hsign ⊢
    obtain ⟨k, rfl⟩ := Int.eq_ofNat_of_zero_le hsign
    rw [zpow_natCast] at hrounds
    have hfinite := isFinite_scaled hD (isScaled_of_isFinite hx) hrounds hnot
    have hstep : (k : Int).natAbs ≤ widestDecade := by
      simp only [widestDecade]
      omega
    rw [scale, if_pos hstep, if_pos hsign, Int.natAbs_natCast]
    dsimp only
    rw [isInfinite_of_isFinite hfinite]
    rfl

/-- The two greatest numbers have too many digits for the estimate, but are read back. -/
theorem isSome_reread?_of_isGreatest (hx : x.isFinite) (h : IsGreatest x.mantissa x.exponent) :
    (Json.reread? x).isSome := by
  obtain ⟨he, hm⟩ := h
  have hlt := (isScaled_of_isFinite hx).lt
  obtain hm | hm : x.mantissa = 2 ^ 53 - 2 ∨ x.mantissa = 2 ^ 53 - 1 := by omega
  · rw [← packed_of_isFinite hx, hm, he]
    cases x.isNegative <;> decide +kernel
  · rw [← packed_of_isFinite hx, hm, he]
    cases x.isNegative <;> decide +kernel

theorem isSome_reread?_of_isFinite (hx : x.isFinite) : (Json.reread? x).isSome := by
  rcases Nat.eq_zero_or_pos x.mantissa with hm | hm
  · rw [reread?_of_mantissa_eq_zero hx hm]
    rfl
  · by_cases hgreatest : IsGreatest x.mantissa x.exponent
    · exact isSome_reread?_of_isGreatest hx hgreatest
    · rw [reread?_eq_scale hx hm, Option.isSome_map]
      exact isSome_scale_writtenParts hx hm hgreatest

theorem reread?_eq_none_iff : Json.reread? x = none ↔ ¬ x.isFinite := by
  refine ⟨fun hnone hx => ?_, Json.reread?_of_not_finite⟩
  have hsome := isSome_reread?_of_isFinite hx
  rw [hnone] at hsome
  cases hsome

end Binary64

end InvariantMachine

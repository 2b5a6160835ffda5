import Mathlib
import InvariantMachine.Proofs.DigitRuns
import InvariantMachine.Proofs.DocumentReaders

/-!
# Numbers in documents

An integer that was written is read back as it was. The text of a binary64 number is read to its
end whatever stands behind it, so what it is read as depends on the number alone; that is the
number again unless scaling by powers of ten rounds differently, or there is no text for it.
-/

namespace InvariantMachine

namespace Json

open Reading (isBlank)

variable {c : Char} {ds t rest : List Char}

/-! ## What ends a number -/

theorem stops_of_delimits (hc : delimits c) :
    digitValue? 10 c = none ∧ c ≠ '.' ∧ c ≠ 'e' ∧ c ≠ 'E' := by
  simp only [delimits, isBlank, Bool.or_eq_true, beq_iff_eq] at hc
  rcases hc with ((((((rfl | rfl) | rfl) | rfl) | rfl) | rfl) | rfl) <;> decide

namespace Numeral

theorem readTail_of_delimited (hrest : Delimited rest) (negative : Bool) (significand : Nat)
    (e : Int) (plain : Option Numeral) :
    readTail negative significand e rest plain = plain.map fun x => (x, rest) := by
  cases rest with
  | nil => rfl
  | cons c cs =>
    obtain ⟨-, hpoint, he, hE⟩ := stops_of_delimits (hrest c rfl)
    rw [readTail.eq_def]
    split
    · rename_i heq
      cases heq
      exact absurd rfl hpoint
    · rename_i heq
      cases heq
      rw [if_neg (by simp [he, hE])]
    · rfl

theorem noDigit_of_delimited (hrest : Delimited rest) : NoDigit rest := by
  intro c hc
  rw [isDecimalDigit, (stops_of_delimits (hrest c hc)).1]
  rfl

theorem readUnsigned_of_delimited {n : Nat} (hn : n ≤ greatestSignificand) (negative : Bool)
    (hrest : Delimited rest) :
    readUnsigned negative (Nat.toDigits 10 n ++ rest) = some (whole negative n, rest) :=
  (readUnsigned_toDigits hn negative (noDigit_of_delimited hrest)).trans
    (readTail_of_delimited hrest negative n 0 _)

theorem read?_of_digit (hdigit : isDecimalDigit c) (cs : List Char) :
    read? (c :: cs) = readUnsigned false (c :: cs) := by
  have hc : c ≠ '-' := by rintro rfl; exact absurd hdigit (by decide)
  rw [read?]
  simpa using hc

theorem toList_toString (i : Int) : (toString i).toList =
    if 0 ≤ i then Nat.toDigits 10 i.toNat else '-' :: Nat.toDigits 10 (-i).toNat := by
  rw [Int.toString_eq_repr, Int.repr_eq_if]
  split_ifs <;> simp

theorem read?_toString {i : Int} (hleast : leastInt ≤ i) (hmost : i ≤ greatestSignificand)
    (hrest : Delimited rest) : read? ((toString i).toList ++ rest) =
      some (if 0 ≤ i then .natural i.toNat else .negative i, rest) := by
  rw [toList_toString]
  split_ifs with hi
  · obtain ⟨c, ds, hdigits⟩ :=
      List.exists_cons_of_ne_nil (Nat.toDigits_ne_nil (n := i.toNat) (b := 10))
    have hdigit : isDecimalDigit c :=
      isDecimalDigit_of_mem_toDigits (n := i.toNat) (by rw [hdigits]; exact List.mem_cons_self)
    have hread := readUnsigned_of_delimited (n := i.toNat) (by omega) false hrest
    rw [hdigits, List.cons_append] at hread ⊢
    rw [read?_of_digit hdigit, hread]
    rfl
  · have hsmall : (-i).toNat ≤ 0x8000000000000000 := by
      rw [leastInt] at hleast
      omega
    have hfits : (-i).toNat ≤ greatestSignificand := hsmall.trans (by decide)
    have hwhole : whole true (-i).toNat = .negative i := by
      rw [whole, if_pos rfl, if_pos ⟨by omega, hsmall⟩, Int.toNat_of_nonneg (by omega),
        Int.neg_neg]
    rw [List.cons_append, read?, readUnsigned_of_delimited hfits true hrest, hwhole]

end Numeral

theorem isBlank_of_digit (hc : isDecimalDigit c) : isBlank c = false := by
  cases hblank : isBlank c with
  | false => rfl
  | true =>
    obtain ⟨hdigit, -⟩ := stops_of_delimits (show delimits c by simp [delimits, hblank])
    rw [isDecimalDigit, hdigit] at hc
    cases hc

theorem opens_integer (i : Int) : Opens (.integer i) fun c => c = '-' ∨ isDecimalDigit c := by
  refine ⟨fun c hc => ?_, ?_⟩
  · rcases hc with rfl | hc
    · rfl
    · exact isBlank_of_digit hc
  · rintro cs ⟨-⟩
    rw [leafText, Numeral.toList_toString]
    split_ifs
    · obtain ⟨c, ds, hdigits⟩ :=
        List.exists_cons_of_ne_nil (Nat.toDigits_ne_nil (n := i.toNat) (b := 10))
      exact ⟨c, ds, hdigits, .inr (isDecimalDigit_of_mem_toDigits (n := i.toNat)
        (by rw [hdigits]; exact List.mem_cons_self))⟩
    · exact ⟨'-', _, rfl, .inl rfl⟩

namespace Gives

variable {ε α : Type}

theorem scanned {p : Char → Prop} {document : Json} {scan : List Char → Option (α × List Char)}
    {result : Option α} (hopen : Opens document p)
    (h : ∀ cs rest, Spells document cs → Delimited rest →
      scan (cs ++ rest) = result.map fun a => (a, rest)) :
    Gives (Reading.scanned scan : Reading ε α) document result := by
  intro w cs rest hw hcs hrest
  obtain ⟨c, tail, rfl, hc⟩ := hopen.2 cs hcs
  have hscan := h _ rest hcs hrest
  rw [List.cons_append] at hscan ⊢
  simp only [Reading.scanned, StateT.run, Reading.nonBlank_append hw,
    Reading.nonBlank_cons (hopen.1 c hc), hscan]
  cases result <;> rfl

theorem integer {least most i : Int} (hleast : leastInt ≤ least)
    (hmost : most ≤ Numeral.greatestSignificand) (hi : least ≤ i ∧ i ≤ most) :
    Gives (Reading.integer least most : Reading ε _) (.integer i) (some i) := by
  have hscanned : Gives (Reading.scanned Numeral.read? : Reading ε _) (.integer i)
      (some (if 0 ≤ i then .natural i.toNat else .negative i)) := by
    refine .scanned (opens_integer i) ?_
    rintro cs rest ⟨-⟩ hrest
    exact Numeral.read?_toString (hleast.trans hi.1) (hi.2.trans hmost) hrest
  intro w cs rest hw hcs hrest
  refine (Reading.run_bind_of_ok (hscanned w cs rest hw hcs hrest)).trans ?_
  split_ifs with hsign
  · have hvalue : ((i.toNat : Nat) : Int) = i := Int.toNat_of_nonneg hsign
    refine (Reading.run_bind_of_ok (a := i) (by rw [← hvalue]; rfl)).trans ?_
    dsimp only
    rw [if_pos hi]
    rfl
  · refine (Reading.run_bind_of_ok (a := i) rfl).trans ?_
    dsimp only
    rw [if_pos hi]
    rfl

end Gives

namespace Numeral

/-! ## Texts with a point or an exponent -/

/-- The scanner takes the text, and nothing of what delimits it, for one result. -/
def Takes (scan : List Char → Option (Numeral × List Char)) (t : List Char) : Prop :=
  ∃ result : Option Numeral, ∀ rest, Delimited rest →
    scan (t ++ rest) = result.map fun x => (x, rest)

/-- Nothing, or the mark of an exponent, a sign and digits. -/
inductive ExponentPart : List Char → Prop
  | none : ExponentPart []
  | some {s : Char} {ds : List Char} (sign : s = '+' ∨ s = '-') (hds : AllDigits ds) :
      ExponentPart ('e' :: s :: ds)

/-- What may stand behind the digits before the point. -/
inductive Tail : List Char → Prop
  | whole {t : List Char} (h : ExponentPart t) : Tail t
  | decimals {ds t : List Char} (hds : AllDigits ds) (h : ExponentPart t) : Tail ('.' :: (ds ++ t))

theorem ExponentPart.noDigit (h : ExponentPart t) (hrest : Delimited rest) :
    NoDigit (t ++ rest) := by
  cases h with
  | none => exact noDigit_of_delimited hrest
  | some => exact noDigit_cons rfl

theorem Tail.noDigit (h : Tail t) (hrest : Delimited rest) : NoDigit (t ++ rest) := by
  cases h with
  | whole h => exact h.noDigit hrest
  | decimals => exact noDigit_cons rfl

variable {scan scan' : List Char → Option (Numeral × List Char)} {t' : List Char}

theorem Takes.of_eq (h : Takes scan' t')
    (heq : ∀ rest, Delimited rest → scan (t ++ rest) = scan' (t' ++ rest)) : Takes scan t := by
  obtain ⟨result, hresult⟩ := h
  exact ⟨result, fun rest hrest => (heq rest hrest).trans (hresult rest hrest)⟩

theorem takes_of_none (h : ∀ rest, Delimited rest → scan (t ++ rest) = none) : Takes scan t :=
  ⟨none, h⟩

variable (negative : Bool) (significand : Nat) (e : Int)

theorem takes_readExponent {s : Char} (hs : s = '+' ∨ s = '-') (hds : AllDigits ds) :
    Takes (readExponent negative significand e) (s :: ds) := by
  refine ⟨(readDigits? 10 ds).bind fun n =>
    if greatestExponent < n then
      if significand ≠ 0 ∧ s = '+' then none else some (float ⟨Binary64.signBit negative⟩)
    else ofParts negative significand (if s = '-' then e - n else e + n), fun rest hrest => ?_⟩
  have hdigits := digits_append hds (noDigit_of_delimited hrest)
  rcases hs with rfl | rfl <;> cases hread : readDigits? 10 ds with
  | none => simp [readExponent, hdigits, hread]
  | some n =>
    by_cases hlarge : greatestExponent < n
    · by_cases hzero : significand = 0 <;> simp [readExponent, hdigits, hread, hlarge, hzero]
    · simp [readExponent, hdigits, hread, hlarge, Option.map_eq_bind]

theorem takes_readScaled (h : ExponentPart t) : Takes (readScaled negative significand e) t := by
  cases h with
  | none =>
    refine ⟨ofParts negative significand e, fun rest hrest => ?_⟩
    cases rest with
    | nil => rfl
    | cons c cs =>
      obtain ⟨-, -, he, hE⟩ := stops_of_delimits (hrest c rfl)
      exact if_neg (by simp [he, hE])
  | some hs hds =>
    exact (takes_readExponent negative significand e hs hds).of_eq fun rest _ => by
      simp [readScaled]

theorem takes_readDecimals (count : Nat) (hds : AllDigits ds) (h : ExponentPart t) :
    Takes (readDecimals negative significand e count) (ds ++ t) := by
  induction ds generalizing significand count with
  | nil =>
    rcases Nat.eq_zero_or_pos count with rfl | hpos
    · exact takes_of_none fun rest hrest => readDecimals_of_noDigit _ _ _ 0 (h.noDigit hrest)
    · refine (takes_readScaled negative significand (e - count) h).of_eq fun rest hrest => ?_
      rw [List.nil_append, readDecimals_of_noDigit _ _ _ _ (h.noDigit hrest), if_neg hpos.ne']
  | cons c ds ih =>
    obtain ⟨hc, hds'⟩ := List.forall_mem_cons.mp hds
    obtain ⟨d, hd⟩ := Option.isSome_iff_exists.mp hc
    by_cases hfits : overflows significand d = true
    · refine (takes_readScaled negative significand (e - count) h).of_eq fun rest hrest => ?_
      have hdigits := digits_append hds (h.noDigit hrest)
      rw [List.cons_append] at hdigits
      simp only [List.cons_append, List.append_assoc, readDecimals, hd, hfits, if_true, hdigits]
    · refine (ih (10 * significand + d) (count + 1) hds').of_eq fun rest hrest => ?_
      simp only [List.cons_append, readDecimals, hd, hfits, if_false, Bool.false_eq_true]

theorem takes_readTail (plain : Option Numeral) (h : Tail t) :
    Takes (fun cs => readTail negative significand e cs plain) t := by
  cases h with
  | whole h =>
    cases h with
    | none => exact ⟨plain, fun rest hrest => readTail_of_delimited hrest _ _ _ _⟩
    | some hs hds =>
      exact (takes_readExponent negative significand e hs hds).of_eq fun rest _ => by
        simp [readTail]
  | decimals hds h =>
    exact (takes_readDecimals negative significand e 0 hds h).of_eq fun rest _ => rfl

theorem takes_readLong (hds : AllDigits ds) (h : Tail t) :
    Takes (readLong negative significand) (ds ++ t) := by
  refine (takes_readTail negative significand ds.length
    (ofParts negative significand ds.length) h).of_eq fun rest hrest => ?_
  rw [readLong, List.append_assoc, digits_append hds (h.noDigit hrest)]

theorem takes_readWhole (hds : AllDigits ds) (h : Tail t) :
    Takes (readWhole negative significand) (ds ++ t) := by
  induction ds generalizing significand with
  | nil =>
    exact (takes_readTail negative significand 0 _ h).of_eq fun rest hrest =>
      readWhole_of_noDigit _ _ (h.noDigit hrest)
  | cons c ds ih =>
    obtain ⟨hc, hds'⟩ := List.forall_mem_cons.mp hds
    obtain ⟨d, hd⟩ := Option.isSome_iff_exists.mp hc
    by_cases hfits : overflows significand d = true
    · refine (takes_readLong negative significand hds h).of_eq fun rest hrest => ?_
      simp only [List.cons_append, readWhole, hd, hfits, if_true]
    · refine (ih (10 * significand + d) hds').of_eq fun rest hrest => ?_
      simp only [List.cons_append, readWhole, hd, hfits, if_false, Bool.false_eq_true]

theorem takes_readUnsigned (hne : ds ≠ []) (hds : AllDigits ds) (h : Tail t) :
    Takes (readUnsigned negative) (ds ++ t) := by
  obtain ⟨c, ds, rfl⟩ := List.exists_cons_of_ne_nil hne
  obtain ⟨hc, hds'⟩ := List.forall_mem_cons.mp hds
  by_cases hzero : c = '0'
  · subst hzero
    cases ds with
    | nil =>
      refine (takes_readTail negative 0 0 (some (whole negative 0)) h).of_eq fun rest hrest => ?_
      exact readUnsigned_zero (h.noDigit hrest)
    | cons d ds =>
      refine takes_of_none fun rest hrest => ?_
      have hdigits := digits_append hds' (h.noDigit hrest)
      rw [List.cons_append] at hdigits
      simp [readUnsigned, hdigits]
  · exact (takes_readWhole negative 0 hds h).of_eq fun rest hrest =>
      readUnsigned_of_ne_zero hzero hc _ _

end Numeral

end Json

namespace DecimalLayout

open Json.Numeral

/-- An optional minus sign, digits, and a point or an exponent with what they need. -/
inductive IsNumeral : List Char → Prop
  | positive {ds t : List Char} (hne : ds ≠ []) (hds : AllDigits ds) (h : Tail t) :
      IsNumeral (ds ++ t)
  | negative {ds t : List Char} (hne : ds ≠ []) (hds : AllDigits ds) (h : Tail t) :
      IsNumeral ('-' :: (ds ++ t))

theorem IsNumeral.exists_cons {cs : List Char} (h : IsNumeral cs) :
    ∃ c tail, cs = c :: tail ∧ (c = '-' ∨ isDecimalDigit c) := by
  cases h with
  | @positive ds t hne hds =>
    obtain ⟨c, ds, rfl⟩ := List.exists_cons_of_ne_nil hne
    exact ⟨c, ds ++ t, rfl, .inr (hds c List.mem_cons_self)⟩
  | negative => exact ⟨'-', _, rfl, .inl rfl⟩

theorem allDigits_zeros (n : Nat) : AllDigits (zeros n) := by
  intro c hc
  rw [List.eq_of_mem_replicate hc]
  rfl

variable {digits : List Char} {point : Int}

theorem tail_decimals (hdigits : AllDigits digits) : Tail ('.' :: digits) := by
  simpa using Tail.decimals hdigits .none

theorem exists_positionalText (hne : digits ≠ []) (hdigits : AllDigits digits) (point : Int) :
    ∃ ds t, ds ≠ [] ∧ AllDigits ds ∧ Tail t ∧
      (document.positionalText digits point).toList = ds ++ t := by
  unfold positionalText
  dsimp only
  split_ifs with hpoint hwhole
  · have hdecimals := tail_decimals (allDigits_append (allDigits_zeros (-point).toNat) hdigits)
    refine ⟨['0'], _, List.cons_ne_nil _ _, allDigits_zeros 1, hdecimals, ?_⟩
    simp
  · refine ⟨digits.take point.toNat, '.' :: digits.drop point.toNat, ?_,
      fun c hc => hdigits c (List.mem_of_mem_take hc),
      tail_decimals fun c hc => hdigits c (List.mem_of_mem_drop hc), ?_⟩
    · simp [hne]
      omega
    · simp
  · refine ⟨digits ++ zeros (point.toNat - digits.length), _, by simp [hne],
      allDigits_append hdigits (allDigits_zeros _), tail_decimals (allDigits_zeros 1), ?_⟩
    simp [document, zeros]

/-- The text of an exponent behind its mark. -/
def exponentDigits (i : Int) : List Char :=
  (if i < 0 then '-' else '+') :: Nat.toDigits 10 i.natAbs

theorem exponentPart_exponentDigits (i : Int) : ExponentPart ('e' :: exponentDigits i) :=
  .some (by split_ifs <;> simp) (allDigits_toDigits i.natAbs)

theorem toList_exponentText (c : Char) (ds : List Char) (point : Int) :
    (document.exponentText (c :: ds) point).toList =
      c :: ((if ds = [] then [] else '.' :: ds) ++ 'e' :: exponentDigits (point - 1)) := by
  simp only [exponentText, document, exponentDigits, List.drop_one, List.tail_cons,
    List.isEmpty_iff]
  split_ifs <;> simp

theorem exists_exponentText (hne : digits ≠ []) (hdigits : AllDigits digits) (point : Int) :
    ∃ ds t, ds ≠ [] ∧ AllDigits ds ∧ Tail t ∧
      (document.exponentText digits point).toList = ds ++ t := by
  obtain ⟨c, ds, rfl⟩ := List.exists_cons_of_ne_nil hne
  obtain ⟨hc, hds⟩ := List.forall_mem_cons.mp hdigits
  have hfirst : AllDigits [c] := by simpa [AllDigits] using hc
  have hexponent := exponentPart_exponentDigits (point - 1)
  rw [toList_exponentText]
  split_ifs with hnil
  · exact ⟨[c], _, List.cons_ne_nil _ _, hfirst, .whole hexponent, rfl⟩
  · exact ⟨[c], _, List.cons_ne_nil _ _, hfirst, .decimals hds hexponent, rfl⟩

theorem exists_magnitudeText (x : Binary64) : ∃ ds t, ds ≠ [] ∧ AllDigits ds ∧ Tail t ∧
    (document.magnitudeText x).toList = ds ++ t := by
  unfold magnitudeText
  dsimp only
  have hdigits (n : Nat) : AllDigits (toString n).toList := fun c hc =>
    isDecimalDigit_of_mem_toDigits (n := n) (by simpa using hc)
  have hne (n : Nat) : (toString n).toList ≠ [] := by simp
  split_ifs
  · exact ⟨['0'], ['.', '0'], List.cons_ne_nil _ _, allDigits_zeros 1,
      tail_decimals (allDigits_zeros 1), by simp [document]⟩
  · exact exists_positionalText (hne _) (hdigits _) _
  · exact exists_exponentText (hne _) (hdigits _) _

theorem isNumeral_write {x : Binary64} (hx : x.isFinite) : IsNumeral (document.write x).toList := by
  have hnan : x.isNaN = false := by simp_all [Binary64.isNaN, Binary64.isFinite]
  have hinfinite : x.isInfinite = false := by simp_all [Binary64.isInfinite, Binary64.isFinite]
  obtain ⟨ds, t, hne, hds, ht, htext⟩ := exists_magnitudeText x
  cases hsign : x.isNegative with
  | true =>
    simpa [write, hnan, hinfinite, hsign, htext] using IsNumeral.negative hne hds ht
  | false =>
    simpa [write, hnan, hinfinite, hsign, htext] using IsNumeral.positive hne hds ht

theorem write_of_not_finite {x : Binary64} (hx : ¬ x.isFinite) : document.write x = "null" := by
  have hkind : x.isNaN ∨ x.isInfinite := by
    simp only [Binary64.isFinite, Binary64.isNaN, Binary64.isInfinite] at hx ⊢
    cases hfraction : x.fraction == 0 <;> simp_all
  cases hnan : x.isNaN with
  | true => simp [write, hnan, document]
  | false =>
    rcases hkind with h | hinfinite
    · rw [hnan] at h
      cases h
    · simp [write, hnan, hinfinite, document]

end DecimalLayout

namespace Json

/-- The number that a numeral is read as where a number is wanted. -/
def Numeral.toBinary64 : Numeral → Binary64
  | natural n => .ofNat n
  | negative i => .ofInt i
  | float x => x

/-- What the text of a number is read back as, if it has one. -/
def reread? (x : Binary64) : Option Binary64 :=
  (Numeral.read? (DecimalLayout.document.write x).toList).map fun found => found.1.toBinary64

theorem Numeral.takes_of_isNumeral (h : DecimalLayout.IsNumeral t) : Takes read? t := by
  cases h with
  | @positive ds t hne hds ht =>
    refine (takes_readUnsigned false hne hds ht).of_eq fun rest _ => ?_
    obtain ⟨c, ds, rfl⟩ := List.exists_cons_of_ne_nil hne
    exact read?_of_digit (hds c List.mem_cons_self) _
  | negative hne hds ht =>
    exact (takes_readUnsigned true hne hds ht).of_eq fun rest _ => rfl

theorem Numeral.read?_null (rest : List Char) : read? ("null".toList ++ rest) = none := rfl

theorem Numeral.takes_write (x : Binary64) :
    Takes read? (DecimalLayout.document.write x).toList := by
  by_cases hx : x.isFinite
  · exact takes_of_isNumeral (DecimalLayout.isNumeral_write hx)
  · rw [DecimalLayout.write_of_not_finite hx]
    exact takes_of_none fun rest _ => read?_null rest

theorem reread?_of_not_finite {x : Binary64} (hx : ¬ x.isFinite) : reread? x = none := by
  rw [reread?, DecimalLayout.write_of_not_finite hx]
  rfl

theorem opens_number (x : Binary64) :
    Opens (.number x) fun c => c = '-' ∨ isDecimalDigit c ∨ c = 'n' := by
  refine ⟨fun c hc => ?_, ?_⟩
  · rcases hc with rfl | hc | rfl
    · rfl
    · exact isBlank_of_digit hc
    · rfl
  · rintro cs ⟨-⟩
    rw [leafText]
    by_cases hx : x.isFinite
    · obtain ⟨c, tail, hcs, hc⟩ := (DecimalLayout.isNumeral_write hx).exists_cons
      exact ⟨c, tail, hcs, hc.imp_right .inl⟩
    · rw [DecimalLayout.write_of_not_finite hx]
      exact ⟨'n', ['u', 'l', 'l'], rfl, .inr (.inr rfl)⟩

theorem Gives.number {ε : Type} (x : Binary64) :
    Gives (Reading.number : Reading ε _) (.number x) (reread? x) := by
  obtain ⟨result, hresult⟩ := Numeral.takes_write x
  have hreread : reread? x = result.bind fun value => some value.toBinary64 := by
    have hwhole := hresult [] delimited_nil
    rw [List.append_nil] at hwhole
    rw [reread?, hwhole]
    cases result <;> rfl
  have hscanned : Gives (Reading.scanned Numeral.read? : Reading ε _) (.number x) result := by
    refine .scanned (opens_number x) ?_
    rintro cs rest ⟨-⟩ hrest
    exact hresult rest hrest
  rw [hreread]
  refine hscanned.bind fun value rest => ?_
  cases value <;> rfl

end Json

end InvariantMachine

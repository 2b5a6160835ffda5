import Mathlib
import InvariantMachine.Json.Numeral

/-!
# Runs of digits

The digits that a text begins with are read to their end, and as long as they fit in 64 bits what
is read is the number that they write.
-/

namespace InvariantMachine

/-! ## Digits of a number -/

theorem digitValue?_digitChar : ∀ d < 10, digitValue? 10 (Nat.digitChar d) = some d := by
  decide

theorem isDecimalDigit_of_mem_toDigits {n : Nat} {c : Char} (hc : c ∈ Nat.toDigits 10 n) :
    isDecimalDigit c := by
  induction n using Nat.strongRecOn with
  | _ n ih =>
    by_cases hn : n < 10
    · rw [Nat.toDigits_of_lt_base hn, List.mem_singleton] at hc
      rw [hc, isDecimalDigit, digitValue?_digitChar n hn]
      rfl
    · have hdigit : n % 10 < 10 := Nat.mod_lt n (by decide)
      rw [Nat.toDigits_of_base_le (by decide) (by omega), List.mem_append, List.mem_singleton] at hc
      rcases hc with hc | rfl
      · exact ih (n / 10) (by omega) hc
      · rw [isDecimalDigit, digitValue?_digitChar _ hdigit]
        rfl

theorem zero_not_head_toDigits {n : Nat} (hn : 0 < n) :
    ∃ c ds, Nat.toDigits 10 n = c :: ds ∧ c ≠ '0' := by
  induction n using Nat.strongRecOn with
  | _ n ih =>
    by_cases hlt : n < 10
    · exact ⟨n.digitChar, [], Nat.toDigits_of_lt_base hlt, by simp; omega⟩
    · obtain ⟨c, ds, hdigits, hc⟩ := ih (n / 10) (by omega) (by omega)
      refine ⟨c, ds ++ [(n % 10).digitChar], ?_, hc⟩
      rw [Nat.toDigits_of_base_le (by decide) (by omega), hdigits]
      rfl

namespace Json.Numeral

variable {negative : Bool} {n count : Nat} {e : Int} {c : Char} {ds ds' cs : List Char}

/-! ## Where digits end -/

def AllDigits (ds : List Char) : Prop := ∀ c ∈ ds, isDecimalDigit c

/-- The text does not go on with a digit. -/
def NoDigit (cs : List Char) : Prop := ∀ c ∈ cs.head?, isDecimalDigit c = false

theorem allDigits_nil : AllDigits [] := fun _ h => nomatch h

theorem allDigits_append (h : AllDigits ds) (h' : AllDigits ds') : AllDigits (ds ++ ds') :=
  List.forall_mem_append.mpr ⟨h, h'⟩

theorem allDigits_toDigits (n : Nat) : AllDigits (Nat.toDigits 10 n) :=
  fun _ hc => isDecimalDigit_of_mem_toDigits hc

theorem noDigit_nil : NoDigit [] := fun _ h => nomatch h

theorem noDigit_cons (hc : isDecimalDigit c = false) : NoDigit (c :: cs) := by
  rintro c ⟨⟩
  exact hc

theorem digits_append (hds : AllDigits ds) (hcs : NoDigit cs) : digits (ds ++ cs) = (ds, cs) := by
  have hstop : cs.takeWhile isDecimalDigit = [] ∧ cs.dropWhile isDecimalDigit = cs := by
    cases cs with
    | nil => exact ⟨rfl, rfl⟩
    | cons c cs => simp [hcs c rfl]
  rw [digits, List.takeWhile_append_of_pos hds, List.dropWhile_append_of_pos hds, hstop.1, hstop.2,
    List.append_nil]

/-! ## The number that digits write -/

/-- The number that has further digits behind its own. -/
def appended (n : Nat) (ds : List Char) : Nat :=
  ds.foldl (fun n c => 10 * n + (digitValue? 10 c).getD 0) n

@[simp] theorem appended_nil (n : Nat) : appended n [] = n := rfl

@[simp] theorem appended_cons (n : Nat) (c : Char) (ds : List Char) :
    appended n (c :: ds) = appended (10 * n + (digitValue? 10 c).getD 0) ds := rfl

@[simp] theorem appended_append (n : Nat) (ds ds' : List Char) :
    appended n (ds ++ ds') = appended (appended n ds) ds' :=
  List.foldl_append

theorem appended_toDigits (n : Nat) : appended 0 (Nat.toDigits 10 n) = n := by
  induction n using Nat.strongRecOn with
  | _ n ih =>
    by_cases hn : n < 10
    · rw [Nat.toDigits_of_lt_base hn, appended_cons, digitValue?_digitChar n hn]
      simp
    · have hdigit : n % 10 < 10 := Nat.mod_lt n (by decide)
      rw [Nat.toDigits_of_base_le (by decide) (by omega), appended_append, ih (n / 10) (by omega),
        appended_cons, digitValue?_digitChar _ hdigit]
      simp
      omega

theorem le_appended (n : Nat) (ds : List Char) : n ≤ appended n ds := by
  induction ds generalizing n with
  | nil => exact le_rfl
  | cons c ds ih =>
    rw [appended_cons]
    exact le_trans (by omega) (ih _)

theorem readDigits?_of_allDigits (hne : ds ≠ []) (hds : AllDigits ds) :
    readDigits? 10 ds = some (appended 0 ds) := by
  have hfold (n : Nat) : ds.foldlM (fun n d => (digitValue? 10 d).map (10 * n + ·)) n =
      some (appended n ds) := by
    clear hne
    induction ds generalizing n with
    | nil => rfl
    | cons c ds ih =>
      obtain ⟨hc, hds⟩ := List.forall_mem_cons.mp hds
      obtain ⟨d, hd⟩ := Option.isSome_iff_exists.mp hc
      rw [List.foldlM_cons, hd, Option.map_some, appended_cons, hd]
      exact ih hds _
  cases ds with
  | nil => exact absurd rfl hne
  | cons c ds => exact hfold 0

/-! ## Digits that fit -/

/-- The next digit fits if all that follow do. -/
theorem overflows_eq_false {d : Nat} (hd : digitValue? 10 c = some d)
    (h : appended n (c :: ds) ≤ greatestSignificand) : overflows n d = false := by
  have hle := (le_appended (10 * n + d) ds).trans (by simpa [hd] using h)
  simpa [overflows] using hle

theorem readWhole_append (hds : AllDigits ds) (h : appended n ds ≤ greatestSignificand)
    (cs : List Char) :
    readWhole negative n (ds ++ cs) = readWhole negative (appended n ds) cs := by
  induction ds generalizing n with
  | nil => rfl
  | cons c ds ih =>
    obtain ⟨hc, hds⟩ := List.forall_mem_cons.mp hds
    obtain ⟨d, hd⟩ := Option.isSome_iff_exists.mp hc
    simp only [List.cons_append, readWhole, hd, overflows_eq_false hd h, Bool.false_eq_true,
      if_false]
    rw [appended_cons, hd, Option.getD_some] at h ⊢
    exact ih hds h

theorem readWhole_of_noDigit (negative : Bool) (n : Nat) (hcs : NoDigit cs) :
    readWhole negative n cs = readTail negative n 0 cs (some (whole negative n)) := by
  cases cs with
  | nil => rfl
  | cons c cs =>
    have hc : digitValue? 10 c = none := by simpa [isDecimalDigit] using hcs c rfl
    rw [readWhole, hc]

theorem readDecimals_append (hds : AllDigits ds) (h : appended n ds ≤ greatestSignificand)
    (cs : List Char) : readDecimals negative n e count (ds ++ cs) =
      readDecimals negative (appended n ds) e (count + ds.length) cs := by
  induction ds generalizing n count with
  | nil => rfl
  | cons c ds ih =>
    obtain ⟨hc, hds⟩ := List.forall_mem_cons.mp hds
    obtain ⟨d, hd⟩ := Option.isSome_iff_exists.mp hc
    simp only [List.cons_append, readDecimals, hd, overflows_eq_false hd h, Bool.false_eq_true,
      if_false]
    rw [appended_cons, hd, Option.getD_some] at h ⊢
    rw [ih hds h, List.length_cons, Nat.add_right_comm, Nat.add_assoc]

theorem readDecimals_of_noDigit (negative : Bool) (n : Nat) (e : Int) (count : Nat)
    (hcs : NoDigit cs) : readDecimals negative n e count cs =
      if count = 0 then none else readScaled negative n (e - count) cs := by
  cases cs with
  | nil => rfl
  | cons c cs =>
    have hc : digitValue? 10 c = none := by simpa [isDecimalDigit] using hcs c rfl
    rw [readDecimals, hc]

/-! ## Digits before a point -/

theorem readUnsigned_of_ne_zero (hc : c ≠ '0') (hdigit : isDecimalDigit c) (negative : Bool)
    (cs : List Char) :
    readUnsigned negative (c :: cs) = readWhole negative 0 (c :: cs) := by
  obtain ⟨d, hd⟩ := Option.isSome_iff_exists.mp hdigit
  have hsmall : d < 10 := by
    obtain ⟨-, hlt⟩ := Option.filter_eq_some_iff.mp hd
    simpa using hlt
  have hfits : overflows 0 d = false := by
    rw [overflows, decide_eq_false_iff_not, greatestSignificand]
    omega
  rw [readUnsigned, readWhole, hd]
  · simp [hfits]
  · simpa using hc

theorem readUnsigned_append (hds : AllDigits (c :: ds)) (hc : c ≠ '0')
    (hfits : appended 0 (c :: ds) ≤ greatestSignificand) (hcs : NoDigit cs) :
    readUnsigned negative (c :: ds ++ cs) = readTail negative (appended 0 (c :: ds)) 0 cs
      (some (whole negative (appended 0 (c :: ds)))) := by
  have hdigit : isDecimalDigit c := hds c List.mem_cons_self
  rw [List.cons_append, readUnsigned_of_ne_zero hc hdigit, ← List.cons_append,
    readWhole_append hds hfits, readWhole_of_noDigit _ _ hcs]

theorem readUnsigned_zero (hcs : NoDigit cs) : readUnsigned negative ('0' :: cs) =
    readTail negative 0 0 cs (some (whole negative 0)) := by
  have hdigits : digits cs = ([], cs) := digits_append allDigits_nil hcs
  simp [readUnsigned, hdigits]

theorem readUnsigned_toDigits (hn : n ≤ greatestSignificand) (negative : Bool) (hcs : NoDigit cs) :
    readUnsigned negative (Nat.toDigits 10 n ++ cs) =
      readTail negative n 0 cs (some (whole negative n)) := by
  rcases Nat.eq_zero_or_pos n with rfl | hpos
  · exact readUnsigned_zero hcs
  · obtain ⟨c, ds, hdigits, hc⟩ := zero_not_head_toDigits hpos
    have hall := allDigits_toDigits n
    have hvalue := appended_toDigits n
    rw [hdigits] at hall hvalue ⊢
    rw [readUnsigned_append hall hc (hvalue.trans_le hn) hcs, hvalue]

end Json.Numeral

end InvariantMachine

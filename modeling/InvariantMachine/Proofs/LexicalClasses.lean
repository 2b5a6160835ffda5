import Mathlib
import InvariantMachine.Proofs.Munching

/-!
# The languages of the lexical classes

Every lexical class is a regular language, no text belongs to two of them, and the matcher of a
class finds its longest member. So the lexeme that a text begins with is the longest of any class.
-/

namespace InvariantMachine

open scoped Computability

namespace Lexeme

/-- The exponent part of a float. -/
def exponent : Language Char :=
  oneOf (fun c => c == 'e' || c == 'E') * optionally (fun c => c == '+' || c == '-') (many isDigit)

/-- One character or escape of a literal that the mark ends. -/
def literalItem (mark : Char) : Language Char :=
  oneOf (fun c => c != mark && c != '\\' && c != '\n') + oneOf (· == '\\') * oneOf (· != '\n')

end Lexeme

open Lexeme in
/-- The texts that a class is made of. -/
def LexemeClass.language : LexemeClass → Language Char
  | .word => oneOf isLetter * (oneOf fun c => isLetter c || isDigit c)∗
  | .directive => oneOf (fun c => c == '@' || c == '.') * many isLetter
  | .int => optionally (· == '-')
      (many isDigit + oneOf (· == '0') * (oneOf (fun c => c == 'x' || c == 'X') * many isHexDigit))
  | .float => optionally (· == '-')
      (many isDigit * (oneOf (· == '.') * (many isDigit * (1 + exponent))))
  | .char => oneOf (· == '\x27') * (literalItem '\x27' * oneOf (· == '\x27'))
  | .string => oneOf (· == '\x22') * ((literalItem '\x22')∗ * oneOf (· == '\x22'))

namespace Lexeme

variable {p : Char → Bool} {l : Language Char} {c : Char} {cs x : List Char} {a : Option Nat}
  {f : List Char → Option Nat}

/-! ## Literals -/

namespace Munches

variable {mark : Char}

theorem literalItem_mul_nil : Munches (literalItem mark * l) [] none := by
  rw [literalItem, add_mul, mul_assoc]
  exact add_none oneOf_mul_nil oneOf_mul_nil

theorem literalItem_mul_of_plain (hmark : c ≠ mark) (hescape : c ≠ '\\') (hline : c ≠ '\n')
    (h : Munches l cs a) : Munches (literalItem mark * l) (c :: cs) (a.map (1 + ·)) := by
  rw [literalItem, add_mul, mul_assoc]
  exact add_none (oneOf_mul_of_pos (by simp [*]) h) (oneOf_mul_of_neg (by simp [*]))

theorem literalItem_mul_of_mark (hescape : c ≠ '\\') (h : c = mark ∨ c = '\n') :
    Munches (literalItem mark * l) (c :: cs) none := by
  rw [literalItem, add_mul, mul_assoc]
  exact add_none (oneOf_mul_of_neg (by rcases h with rfl | rfl <;> simp))
    (oneOf_mul_of_neg (by simp [*]))

theorem literalItem_mul_of_escape (h : Munches (oneOf (· != '\n') * l) cs a) :
    Munches (literalItem mark * l) ('\\' :: cs) (a.map (1 + ·)) := by
  rw [literalItem, add_mul, mul_assoc]
  exact none_add (oneOf_mul_of_neg (by simp)) (oneOf_mul_of_pos rfl h)

end Munches

/-! ## The matchers -/

theorem munches_word : ∀ cs, Munches LexemeClass.word.language cs (word? cs)
  | [] => .oneOf_mul_nil
  | c :: cs => by
    cases hc : isLetter c with
    | true => exact (Munches.oneOf_mul_of_pos hc .kstar_oneOf).of_eq (by simp [word?, hc])
    | false => exact (Munches.oneOf_mul_of_neg hc).of_eq (by simp [word?, hc])

theorem munches_directive : ∀ cs, Munches LexemeClass.directive.language cs (directive? cs)
  | [] => .oneOf_mul_nil
  | c :: cs => by
    by_cases hc : c = '@' ∨ c = '.'
    · refine (Munches.oneOf_mul_of_pos (by simpa using hc) (.many isLetter cs)).of_eq ?_
      by_cases hrun : 0 < run isLetter cs <;> simp [directive?, hc, hrun]
    · exact (Munches.oneOf_mul_of_neg (by simpa using hc)).of_eq (by simp [directive?, hc])

theorem munches_hexadecimal (cs : List Char) :
    Munches (oneOf (· == '0') * (oneOf (fun c => c == 'x' || c == 'X') * many isHexDigit)) cs
      (hexadecimal? cs) := by
  match cs with
  | [] => exact .oneOf_mul_nil
  | [c] =>
    have hnone : hexadecimal? [c] = none := by simp [hexadecimal?]
    rw [hnone]
    by_cases hc : c = '0'
    · exact .oneOf_mul_of_pos (by simpa using hc) .oneOf_mul_nil
    · exact .oneOf_mul_of_neg (by simpa using hc)
  | c :: x :: cs =>
    by_cases hc : c = '0'
    · subst hc
      by_cases hx : x = 'x' ∨ x = 'X'
      · refine (Munches.oneOf_mul_of_pos rfl
          (.oneOf_mul_of_pos (by simpa using hx) (.many isHexDigit cs))).of_eq ?_
        by_cases hrun : 0 < run isHexDigit cs <;> simp [hexadecimal?, hx, hrun, ← Nat.add_assoc]
      · exact (Munches.oneOf_mul_of_pos rfl (.oneOf_mul_of_neg (by simpa using hx))).of_eq
          (by simp [hexadecimal?, hx])
    · exact (Munches.oneOf_mul_of_neg (by simpa using hc)).of_eq (by simp [hexadecimal?, hc])

theorem run_isDigit_le_hexadecimal? {n : Nat} (h : hexadecimal? cs = some n) :
    run isDigit cs ≤ n := by
  unfold hexadecimal? at h
  split at h
  next x cs =>
    obtain ⟨hx, hn⟩ := Option.ite_none_right_eq_some.mp h
    have hdigit : isDigit x = false := by rcases hx.1 with rfl | rfl <;> rfl
    rw [run_cons_of_pos rfl, run_cons_of_neg hdigit]
    have := Option.some.inj hn
    omega
  next => cases h

theorem munches_magnitude (cs : List Char) :
    Munches
      (many isDigit +
        oneOf (· == '0') * (oneOf (fun c => c == 'x' || c == 'X') * many isHexDigit)) cs
      (match hexadecimal? cs with
        | some n => some n
        | none => if 0 < run isDigit cs then some (run isDigit cs) else none) := by
  have hdigits := Munches.many isDigit cs
  have hhex := munches_hexadecimal cs
  cases hn : hexadecimal? cs with
  | none =>
    rw [hn] at hhex
    exact .add_none hdigits hhex
  | some n =>
    rw [hn] at hhex
    rw [add_comm]
    refine .add hhex hdigits fun k hk => ⟨n, rfl, ?_⟩
    split_ifs at hk
    · exact Option.some.inj hk ▸ run_isDigit_le_hexadecimal? hn
    · cases hk

theorem munches_afterSign (hnone : ∀ cs, Munches l ('-' :: cs) none)
    (h : ∀ cs, Munches l cs (f cs)) (cs : List Char) :
    Munches (optionally (· == '-') l) cs
      ((f (afterSign cs).2).map ((afterSign cs).1 + ·)) := by
  unfold afterSign
  split
  next cs => exact .optionally_of_pos rfl (hnone cs) (h cs)
  next hne =>
    have hhead : ∀ c ∈ cs.head?, (c == '-') = false := by
      intro c hc
      obtain ⟨cs, rfl⟩ := List.head?_eq_some_iff.mp hc
      simpa using fun heq => hne cs (by rw [heq])
    exact (Munches.optionally_of_neg hhead (h cs)).of_eq (by simp)

theorem munches_int (cs : List Char) : Munches LexemeClass.int.language cs (int? cs) := by
  have hnone (cs : List Char) := munches_magnitude ('-' :: cs)
  refine (munches_afterSign hnone munches_magnitude cs).of_eq ?_
  simp only [int?]
  cases hexadecimal? (afterSign cs).2 with
  | some n => rfl
  | none => dsimp only; split_ifs <;> rfl

theorem munches_signedDigits (s : Char) (cs : List Char) :
    Munches (optionally (fun c => c == '+' || c == '-') (many isDigit)) (s :: cs)
      (if s = '+' ∨ s = '-' then if 0 < run isDigit cs then some (1 + run isDigit cs) else none
        else if 0 < run isDigit (s :: cs) then some (run isDigit (s :: cs)) else none) := by
  by_cases hs : s = '+' ∨ s = '-'
  · have hdigit : isDigit s = false := by rcases hs with rfl | rfl <;> rfl
    have hnone := Munches.many isDigit (s :: cs)
    rw [run_cons_of_neg hdigit] at hnone
    refine (Munches.optionally_of_pos (by simpa using hs) hnone (.many isDigit cs)).of_eq ?_
    by_cases hrun : 0 < run isDigit cs <;> simp [hs, hrun]
  · rw [if_neg hs]
    exact .optionally_of_neg (by simpa using hs) (.many isDigit (s :: cs))

theorem munches_exponentPart (cs : List Char) :
    Munches (1 + exponent) cs (some (exponentPart cs)) := by
  match cs with
  | [] => exact .one_add .oneOf_mul_nil
  | e :: cs =>
    by_cases he : e = 'e' ∨ e = 'E'
    · cases cs with
      | nil =>
        have hsigned := Munches.optionally_of_neg (p := fun c => c == '+' || c == '-') (by simp)
          (.many isDigit [])
        refine (Munches.one_add (.oneOf_mul_of_pos (by simpa using he) hsigned)).of_eq ?_
        simp [exponentPart, he]
      | cons s cs =>
        refine (Munches.one_add
          (.oneOf_mul_of_pos (by simpa using he) (munches_signedDigits s cs))).of_eq ?_
        by_cases hs : s = '+' ∨ s = '-'
        · by_cases hrun : 0 < run isDigit cs <;>
            simp [exponentPart, he, hs, hrun, ← Nat.add_assoc]
        · by_cases hrun : 0 < run isDigit (s :: cs) <;> simp [exponentPart, he, hs, hrun]
    · exact (Munches.one_add (.oneOf_mul_of_neg (by simpa using he))).of_eq
        (by simp [exponentPart, he])

theorem munches_decimals (cs : List Char) :
    Munches (many isDigit * (1 + exponent)) cs
      (if 0 < run isDigit cs then
        some (run isDigit cs + exponentPart (cs.drop (run isDigit cs))) else none) := by
  have hexponent : Shuns (1 + exponent) isDigit := by
    rintro c y (hnil | he)
    · cases hnil
    · obtain ⟨e, z, he, -, heq⟩ := mem_oneOf_mul.mp he
      have he : e = 'e' ∨ e = 'E' := by simpa using he
      rw [(List.cons.inj heq).1]
      rcases he with rfl | rfl <;> rfl
  by_cases hrun : 0 < run isDigit cs
  · rw [if_pos hrun]
    exact .many_mul_of_pos hexponent hrun (munches_exponentPart _)
  · rw [if_neg hrun]
    exact .many_mul_of_run_eq_zero (Nat.eq_zero_of_not_pos hrun)

theorem munches_fraction (cs : List Char) :
    Munches (oneOf (· == '.') * (many isDigit * (1 + exponent))) cs
      (match cs with
        | '.' :: rest =>
          if 0 < run isDigit rest then
            some (1 + (run isDigit rest + exponentPart (rest.drop (run isDigit rest))))
          else none
        | _ => none) := by
  split
  next rest =>
    refine (Munches.oneOf_mul_of_pos rfl (munches_decimals rest)).of_eq ?_
    split_ifs <;> rfl
  next hne =>
    cases cs with
    | nil => exact .oneOf_mul_nil
    | cons c cs => exact .oneOf_mul_of_neg (by simpa using fun hc => hne cs (by rw [hc]))

theorem munches_decimal (cs : List Char) :
    Munches (many isDigit * (oneOf (· == '.') * (many isDigit * (1 + exponent)))) cs
      (match cs.drop (run isDigit cs) with
        | '.' :: rest =>
          if 0 < run isDigit cs ∧ 0 < run isDigit rest then
            some (run isDigit cs + 1 + run isDigit rest +
              exponentPart (rest.drop (run isDigit rest)))
          else none
        | _ => none) := by
  have hpoint : Shuns (oneOf (· == '.') * (many isDigit * (1 + exponent))) isDigit := by
    intro c y h
    obtain ⟨d, z, hd, -, heq⟩ := mem_oneOf_mul.mp h
    rw [(List.cons.inj heq).1, eq_of_beq hd]
    rfl
  by_cases hrun : 0 < run isDigit cs
  · refine (Munches.many_mul_of_pos hpoint hrun (munches_fraction _)).of_eq ?_
    generalize cs.drop (run isDigit cs) = body
    split
    next rest => by_cases hdecimals : 0 < run isDigit rest <;> simp [hrun, hdecimals, Nat.add_assoc]
    next => rfl
  · refine (Munches.many_mul_of_run_eq_zero (Nat.eq_zero_of_not_pos hrun)).of_eq ?_
    split <;> simp [hrun]

theorem munches_float (cs : List Char) : Munches LexemeClass.float.language cs (float? cs) := by
  have hnone (cs : List Char) := munches_decimal ('-' :: cs)
  refine (munches_afterSign hnone munches_decimal cs).of_eq ?_
  simp only [float?]
  generalize (afterSign cs).2.drop (run isDigit (afterSign cs).2) = body
  split
  next rest =>
    by_cases hdigits : 0 < run isDigit (afterSign cs).2 ∧ 0 < run isDigit rest
    · simp only [hdigits, and_self, if_true, Option.map_some, Nat.add_assoc]
    · simp only [hdigits, if_false, Option.map_none]
  next => simp

theorem munches_mark (mark : Char) : ∀ cs,
    Munches (oneOf (· == mark)) cs (if cs.head? = some mark then some 1 else none)
  | [] => .oneOf_nil
  | c :: cs => by
    by_cases hc : c = mark
    · exact (Munches.oneOf_of_pos (by simpa using hc)).of_eq (by simp [hc])
    · exact (Munches.oneOf_of_neg (by simpa using hc)).of_eq (by simp [hc])

theorem char?_escape (c : Char) (cs : List Char) :
    char? ('\x27' :: '\\' :: c :: cs) =
      if c ≠ '\n' ∧ cs.head? = some '\x27' then some 4 else none := by
  by_cases hmark : cs.head? = some '\x27'
  · obtain ⟨cs, rfl⟩ := List.head?_eq_some_iff.mp hmark
    simp [char?]
  · rw [if_neg (by simp [hmark]), char?.eq_def]
    split <;> grind

theorem char?_plain (hc : c ≠ '\\') (cs : List Char) :
    char? ('\x27' :: c :: cs) =
      if c ≠ '\x27' ∧ c ≠ '\n' ∧ cs.head? = some '\x27' then some 3 else none := by
  by_cases hmark : cs.head? = some '\x27'
  · obtain ⟨cs, rfl⟩ := List.head?_eq_some_iff.mp hmark
    rw [char?]
    · grind
    · simp_all
  · rw [if_neg (by simp [hmark]), char?.eq_def]
    split <;> simp_all

theorem munches_char (cs : List Char) : Munches LexemeClass.char.language cs (char? cs) := by
  match cs with
  | [] => exact .oneOf_mul_nil
  | q :: cs =>
    by_cases hq : q = '\x27'
    · subst hq
      match cs with
      | [] => exact .oneOf_mul_of_pos rfl .literalItem_mul_nil
      | [c] =>
        have hnone : char? ['\x27', c] = none := by rw [char?.eq_def]; split <;> simp_all
        rw [hnone]
        by_cases hescape : c = '\\'
        · subst hescape
          exact .oneOf_mul_of_pos rfl (.literalItem_mul_of_escape .oneOf_mul_nil)
        · by_cases hmark : c = '\x27' ∨ c = '\n'
          · exact .oneOf_mul_of_pos rfl (.literalItem_mul_of_mark hescape hmark)
          · obtain ⟨hmark, hline⟩ := not_or.mp hmark
            exact .oneOf_mul_of_pos rfl (.literalItem_mul_of_plain hmark hescape hline .oneOf_nil)
      | c :: d :: cs =>
        by_cases hescape : c = '\\'
        · subst hescape
          rw [char?_escape]
          by_cases hline : d = '\n'
          · rw [if_neg (by simp [hline])]
            exact .oneOf_mul_of_pos rfl
              (.literalItem_mul_of_escape (.oneOf_mul_of_neg (by simpa using hline)))
          · have hescaped := Munches.oneOf_mul_of_pos (p := (· != '\n')) (by simpa using hline)
              (munches_mark '\x27' cs)
            refine (Munches.oneOf_mul_of_pos rfl (.literalItem_mul_of_escape hescaped)).of_eq ?_
            split_ifs <;> simp_all
        · rw [char?_plain hescape]
          by_cases hmark : c = '\x27' ∨ c = '\n'
          · rw [if_neg (by tauto)]
            exact .oneOf_mul_of_pos rfl (.literalItem_mul_of_mark hescape hmark)
          · obtain ⟨hmark, hline⟩ := not_or.mp hmark
            have hplain := Munches.literalItem_mul_of_plain hmark hescape hline
              (munches_mark '\x27' (d :: cs))
            refine (Munches.oneOf_mul_of_pos rfl hplain).of_eq ?_
            split_ifs <;> simp_all
    · exact (Munches.oneOf_mul_of_neg (by simpa using hq)).of_eq (by simp [char?, hq])

/-- A closed literal is its mark, or begins with a character or escape that a closed literal
follows. -/
theorem closed_eq (mark : Char) :
    (literalItem mark)∗ * oneOf (· == mark) =
      oneOf (· == mark) + literalItem mark * ((literalItem mark)∗ * oneOf (· == mark)) := by
  conv_lhs => rw [← Language.one_add_self_mul_kstar_eq_kstar, add_mul, one_mul, mul_assoc]

theorem le_stringBody (length : Nat) (cs : List Char) : length ≤ (stringBody length cs).1 := by
  fun_induction stringBody length cs <;> grind

theorem munches_stringBody (length : Nat) (cs : List Char) :
    Munches ((literalItem '\x22')∗ * oneOf (· == '\x22')) cs
      (if (stringBody length cs).2 then some ((stringBody length cs).1 - length) else none) := by
  fun_induction stringBody length cs with
  | case1 => exact closed_eq '\x22' ▸ .add_none .oneOf_nil .literalItem_mul_nil
  | case2 length cs =>
    rw [closed_eq]
    refine (Munches.add_none (.oneOf_of_pos rfl)
      (.literalItem_mul_of_mark (by decide) (.inl rfl))).of_eq ?_
    simp
  | case3 =>
    rw [closed_eq]
    exact .none_add (.oneOf_of_neg rfl) (.literalItem_mul_of_escape .oneOf_mul_nil)
  | case4 =>
    rw [closed_eq]
    exact .none_add (.oneOf_of_neg rfl) (.literalItem_mul_of_escape (.oneOf_mul_of_neg rfl))
  | case5 length c cs hline ih =>
    have hle := le_stringBody (length + 2) cs
    rw [closed_eq]
    have hescaped := Munches.oneOf_mul_of_pos (p := (· != '\n')) (by simpa using hline) ih
    refine (Munches.none_add (.oneOf_of_neg rfl) (.literalItem_mul_of_escape hescaped)).of_eq ?_
    split_ifs
    · simp only [Option.map_some, Option.some.injEq]
      omega
    · rfl
  | case6 =>
    rw [closed_eq]
    exact .none_add (.oneOf_of_neg rfl) (.literalItem_mul_of_mark (by decide) (.inr rfl))
  | case7 length c cs hmark hescape hbehind hline ih =>
    have hle := le_stringBody (length + 1) cs
    have hescape : c ≠ '\\' := by
      rintro rfl
      cases cs with
      | nil => exact hescape rfl rfl
      | cons d cs => exact hbehind d cs rfl rfl
    rw [closed_eq]
    refine (Munches.none_add (.oneOf_of_neg (by simpa using hmark))
      (.literalItem_mul_of_plain hmark hescape hline ih)).of_eq ?_
    split_ifs
    · simp only [Option.map_some, Option.some.injEq]
      omega
    · rfl

theorem munches_string (cs : List Char) : Munches LexemeClass.string.language cs (string? cs) := by
  match cs with
  | [] => exact .oneOf_mul_nil
  | q :: cs =>
    by_cases hq : q = '\x22'
    · subst hq
      have hle := le_stringBody 1 cs
      refine (Munches.oneOf_mul_of_pos rfl (munches_stringBody 1 cs)).of_eq ?_
      simp only [string?]
      split_ifs
      · simp only [Option.map_some, Option.some.injEq]
        omega
      · rfl
    · exact (Munches.oneOf_mul_of_neg (by simpa using hq)).of_eq (by simp [string?, hq])

/-- The matcher of a class finds its longest member. -/
theorem munches_match? (k : LexemeClass) (cs : List Char) :
    Munches k.language cs (match? k cs) := by
  cases k with
  | word => exact munches_word cs
  | directive => exact munches_directive cs
  | int => exact munches_int cs
  | float => exact munches_float cs
  | char => exact munches_char cs
  | string => exact munches_string cs

/-! ## The classes apart -/

theorem isDigit_iff : isDigit c ↔ 48 ≤ c.toNat ∧ c.toNat ≤ 57 := by
  simp only [isDigit, Bool.and_eq_true, decide_eq_true_eq, Char.le_def, UInt32.le_iff_toNat_le]
  rfl

theorem isLetter_iff : isLetter c ↔
    (97 ≤ c.toNat ∧ c.toNat ≤ 122) ∨ (65 ≤ c.toNat ∧ c.toNat ≤ 90) ∨ c.toNat = 95 := by
  simp only [isLetter, Bool.or_eq_true, Bool.and_eq_true, decide_eq_true_eq, Char.le_def,
    UInt32.le_iff_toNat_le, beq_iff_eq, ← Char.toNat_inj, or_assoc]
  rfl

end Lexeme

/-- The characters that the members of a class begin with. -/
def LexemeClass.starts : LexemeClass → Char → Bool
  | .word, c => Lexeme.isLetter c
  | .directive, c => c == '@' || c == '.'
  | .int, c => c == '-' || Lexeme.isDigit c
  | .float, c => c == '-' || Lexeme.isDigit c
  | .char, c => c == '\x27'
  | .string, c => c == '\x22'

namespace LexemeClass

open Lexeme

variable {k k' : LexemeClass} {c : Char} {cs x : List Char}

theorem language_starts (k : LexemeClass) : Starts k.language k.starts := by
  cases k with
  | word | directive | char | string => exact .oneOf_mul
  | float => exact .optionally .many_mul
  | int =>
    have hzero : Starts (oneOf (· == '0') * (oneOf (fun c => c == 'x' || c == 'X') *
        many isHexDigit)) isDigit :=
      Starts.oneOf_mul.mono fun c hc => by rw [eq_of_beq hc]; rfl
    exact .optionally (.add .oneOf_mul hzero)

theorem eq_or_of_starts (h : k.starts c) (h' : k'.starts c) :
    k = k' ∨ (k = .int ∧ k' = .float) ∨ (k = .float ∧ k' = .int) := by
  cases k <;> cases k' <;>
    simp [starts, isLetter_iff, isDigit_iff, ← Char.toNat_inj] at h h' ⊢ <;> omega

theorem separator?_eq_none_of_starts (h : k.starts c) : separator? (c :: cs) = none := by
  have hblank : isBlank c = false := by
    cases k <;>
      simp [starts, isLetter_iff, isDigit_iff, isBlank, ← Char.toNat_inj] at h ⊢ <;> omega
  have hcomment : c ≠ ';' := by
    rintro rfl
    cases k <;> simp [starts, isLetter_iff, isDigit_iff] at h
  simp [separator?, hblank, hcomment]

theorem point_mem_float (h : x ∈ LexemeClass.float.language) : '.' ∈ x := by
  have hbody {y : List Char}
      (hy : y ∈ many isDigit * (oneOf (· == '.') * (many isDigit * (1 + exponent)))) : '.' ∈ y := by
    obtain ⟨_, -, z, hz, rfl⟩ := Language.mem_mul.mp hy
    obtain ⟨d, _, hd, -, rfl⟩ := mem_oneOf_mul.mp hz
    simp [eq_of_beq hd]
  rcases mem_optionally.mp h with h | ⟨c, y, -, hy, rfl⟩
  · exact hbody h
  · exact List.mem_cons_of_mem c (hbody hy)

theorem point_not_mem_int (h : x ∈ LexemeClass.int.language) : '.' ∉ x := by
  have hall {p : Char → Bool} (hp : p '.' = false) {y : List Char} (hy : y ∈ many p) : '.' ∉ y :=
    fun hmem => by simpa [hp] using (mem_many.mp hy).2 '.' hmem
  have hbody {y : List Char} (hy : y ∈ many isDigit + oneOf (· == '0') *
      (oneOf (fun c => c == 'x' || c == 'X') * many isHexDigit)) : '.' ∉ y := by
    rcases hy with hy | hy
    · exact hall rfl hy
    · obtain ⟨c, z, hc, hz, rfl⟩ := mem_oneOf_mul.mp hy
      obtain ⟨d, w, hd, hw, rfl⟩ := mem_oneOf_mul.mp hz
      have hd : d = 'x' ∨ d = 'X' := by simpa using hd
      rcases hd with rfl | rfl <;> simp [eq_of_beq hc, hall rfl hw]
  rcases mem_optionally.mp h with h | ⟨c, y, hc, hy, rfl⟩
  · exact hbody h
  · simp [eq_of_beq hc, hbody hy]

/-- No text belongs to two classes. -/
theorem eq_of_mem_language (h : x ∈ k.language) (h' : x ∈ k'.language) : k = k' := by
  obtain ⟨c, y, rfl, hc⟩ := k.language_starts x h
  obtain ⟨d, z, heq, hd⟩ := k'.language_starts _ h'
  obtain ⟨rfl, rfl⟩ := List.cons.inj heq
  rcases eq_or_of_starts hc hd with hk | ⟨rfl, rfl⟩ | ⟨rfl, rfl⟩
  · exact hk
  · exact absurd (point_mem_float h') (point_not_mem_int h)
  · exact absurd (point_mem_float h) (point_not_mem_int h')

end LexemeClass

namespace Lexeme

variable {k : LexemeClass} {cs x : List Char} {n : Nat}

/-- The text is of the class, and nothing longer that another text begins with is of any. -/
structure IsLongest (k : LexemeClass) (x cs : List Char) : Prop where
  mem : x ∈ k.language
  begins : x <+: cs
  longest : ∀ (k' : LexemeClass) (y : List Char), y ∈ k'.language → y <+: cs → y.length ≤ x.length

/-- The longer of a match and that of another class, the earlier one if they are equally long. -/
def longer (cs : List Char) (best : Option (LexemeClass × Nat)) (k : LexemeClass) :
    Option (LexemeClass × Nat) :=
  match best, match? k cs with
  | some (k', n), some m => if n < m then some (k, m) else some (k', n)
  | none, some m => some (k, m)
  | best, none => best

/-- The match is one of a text, and none of the classes seen has a longer one. -/
def BestOf (cs : List Char) (seen : List LexemeClass) : Option (LexemeClass × Nat) → Prop
  | some (k, n) => match? k cs = some n ∧ ∀ k' ∈ seen, ∀ m ∈ match? k' cs, m ≤ n
  | none => ∀ k ∈ seen, match? k cs = none

theorem bestOf_longer {seen : List LexemeClass} {best : Option (LexemeClass × Nat)}
    (h : BestOf cs seen best) (k : LexemeClass) : BestOf cs (seen ++ [k]) (longer cs best k) := by
  unfold longer
  cases hm : match? k cs with
  | none =>
    cases best with
    | none => exact List.forall_mem_append.mpr ⟨h, List.forall_mem_singleton.mpr hm⟩
    | some found =>
      refine ⟨h.1, ?_⟩
      rw [List.forall_mem_append, List.forall_mem_singleton]
      exact ⟨h.2, by simp [hm]⟩
  | some m =>
    cases best with
    | none =>
      refine ⟨hm, ?_⟩
      rw [List.forall_mem_append, List.forall_mem_singleton]
      constructor
      · intro k' hk'
        simp [h k' hk']
      · simp [hm]
    | some found =>
      obtain ⟨k', n⟩ := found
      dsimp only
      split_ifs with hlt
      · refine ⟨hm, ?_⟩
        rw [List.forall_mem_append, List.forall_mem_singleton]
        constructor
        · intro k'' hk'' m' hm'
          exact (h.2 k'' hk'' m' hm').trans hlt.le
        · simp [hm]
      · refine ⟨h.1, ?_⟩
        rw [List.forall_mem_append, List.forall_mem_singleton]
        refine ⟨h.2, ?_⟩
        intro m' hm'
        rw [hm] at hm'
        cases hm'
        exact Nat.le_of_not_lt hlt

theorem bestOf_longest? (cs : List Char) : BestOf cs classes (longest? cs) := by
  have hfold (seen : List LexemeClass) : BestOf cs seen (seen.foldl (longer cs) none) := by
    induction seen using List.reverseRecOn with
    | nil => exact fun k hk => nomatch hk
    | append_singleton seen k ih =>
      rw [List.foldl_append]
      exact bestOf_longer ih k
  exact hfold classes

theorem mem_classes (k : LexemeClass) : k ∈ classes := by
  cases k <;> decide

theorem longest?_eq_none (h : longest? cs = none) (hx : x ∈ k.language) : ¬ x <+: cs := by
  have hbest := h ▸ bestOf_longest? cs
  have hmatch := munches_match? k cs
  rw [hbest k (mem_classes k)] at hmatch
  exact hmatch x hx

theorem isLongest_of_longest?_eq_some (h : longest? cs = some (k, n)) :
    n ≤ cs.length ∧ IsLongest k (cs.take n) cs := by
  obtain ⟨hk, hbest⟩ := h ▸ bestOf_longest? cs
  have hmatch := munches_match? k cs
  rw [hk] at hmatch
  obtain ⟨⟨x, hx, hbegin, rfl⟩, -⟩ := hmatch
  refine ⟨hbegin.length_le, ?_⟩
  rw [← List.prefix_iff_eq_take.mp hbegin]
  refine ⟨hx, hbegin, fun k' y hy hybegin => ?_⟩
  have hmatch := munches_match? k' cs
  cases hm : match? k' cs with
  | none =>
    rw [hm] at hmatch
    exact absurd hybegin (hmatch y hy)
  | some m =>
    rw [hm] at hmatch
    exact (hmatch.2 y hy hybegin).trans (hbest k' (mem_classes k') m hm)

theorem IsLongest.longest?_eq (h : IsLongest k x cs) : longest? cs = some (k, x.length) := by
  cases hfound : longest? cs with
  | none => exact absurd h.begins (longest?_eq_none hfound h.mem)
  | some found =>
    obtain ⟨k', n⟩ := found
    obtain ⟨hle, hlongest⟩ := isLongest_of_longest?_eq_some hfound
    have hn : (cs.take n).length = n := List.length_take_of_le hle
    have hlength : x.length = n := by
      have := h.longest k' _ hlongest.mem hlongest.begins
      have := hlongest.longest k x h.mem h.begins
      omega
    have hx : x = cs.take n := hlength ▸ List.prefix_iff_eq_take.mp h.begins
    rw [LexemeClass.eq_of_mem_language h.mem (hx ▸ hlongest.mem), hlength]

end Lexeme

end InvariantMachine

import Mathlib
import InvariantMachine.Proofs.LexicalClasses

/-!
# Where lexemes end

The characters that the members of the lexical classes are made of. No lexeme goes past the end of
a line, so the longest one that a text begins with is the longest of any text that goes on with a
new line; and a lexeme without marks ends at the next blank character.
-/

namespace InvariantMachine

open scoped Computability

namespace Lexeme

variable {q : Char → Bool} {p : Char → Prop} {l m : Language Char} {c : Char}
  {cs rest x y : List Char}

/-- The members of a language are made of characters of a kind. -/
def MadeOf (l : Language Char) (p : Char → Prop) : Prop := ∀ x ∈ l, ∀ c ∈ x, p c

namespace MadeOf

theorem one : MadeOf 1 p := by
  intro x hx c hc
  rw [(Language.mem_one x).mp hx] at hc
  cases hc

theorem oneOf (h : ∀ c, q c → p c) : MadeOf (oneOf q) p := by
  rintro _ ⟨c, hc, rfl⟩ d hd
  rw [List.mem_singleton.mp hd]
  exact h c hc

theorem mul (hl : MadeOf l p) (hm : MadeOf m p) : MadeOf (l * m) p := by
  intro x hx c hc
  obtain ⟨y, hy, z, hz, rfl⟩ := Language.mem_mul.mp hx
  rcases List.mem_append.mp hc with hc | hc
  · exact hl y hy c hc
  · exact hm z hz c hc

theorem add (hl : MadeOf l p) (hm : MadeOf m p) : MadeOf (l + m) p := fun x hx =>
  hx.elim (hl x) (hm x)

theorem kstar (hl : MadeOf l p) : MadeOf l∗ p := by
  intro x hx c hc
  obtain ⟨parts, rfl, hparts⟩ := Language.mem_kstar.mp hx
  obtain ⟨part, hpart, hc⟩ := List.mem_flatten.mp hc
  exact hl part (hparts part hpart) c hc

theorem many (h : ∀ c, q c → p c) : MadeOf (many q) p := mul (oneOf h) (kstar (oneOf h))

theorem optionally (h : ∀ c, q c → p c) (hl : MadeOf l p) : MadeOf (optionally q l) p :=
  mul (add one (oneOf h)) hl

theorem literalItem {mark : Char} : MadeOf (literalItem mark) (· ≠ '\n') :=
  add (oneOf (by simp +contextual)) (mul (oneOf (by simp +contextual)) (oneOf (by simp)))

end MadeOf

/-! ## Blanks -/

theorem isBlank_eq_false (h : c = '+' ∨ 45 ≤ c.toNat) : isBlank c = false := by
  rcases h with rfl | h
  · rfl
  · simp only [isBlank, Bool.or_eq_false_iff, beq_eq_false_iff_ne, ne_eq, ← Char.toNat_inj]
    refine ⟨⟨⟨⟨⟨?_, ?_⟩, ?_⟩, ?_⟩, ?_⟩, ?_⟩ <;> simp <;> omega

theorem isHexDigit_iff : isHexDigit c ↔ (48 ≤ c.toNat ∧ c.toNat ≤ 57) ∨
    (97 ≤ c.toNat ∧ c.toNat ≤ 102) ∨ (65 ≤ c.toNat ∧ c.toNat ≤ 70) := by
  simp only [isHexDigit, Bool.or_eq_true, isDigit_iff, Bool.and_eq_true, decide_eq_true_eq,
    Char.le_def, UInt32.le_iff_toNat_le, or_assoc]
  rfl

end Lexeme

namespace LexemeClass

open Lexeme

variable {k k' : LexemeClass} {c : Char} {cs rest x y : List Char}

/-- The classes whose members stand without marks. -/
def isPlain : LexemeClass → Bool
  | word | directive | int | float => true
  | char | string => false

theorem madeOf_of_isPlain (hk : k.isPlain) : MadeOf k.language (Lexeme.isBlank · = false) := by
  have hletter (c : Char) (hc : isLetter c) : Lexeme.isBlank c = false :=
    isBlank_eq_false (.inr (by rw [isLetter_iff] at hc; omega))
  have hdigit (c : Char) (hc : isDigit c) : Lexeme.isBlank c = false :=
    isBlank_eq_false (.inr (by rw [isDigit_iff] at hc; omega))
  have hhexadecimal (c : Char) (hc : isHexDigit c) : Lexeme.isBlank c = false :=
    isBlank_eq_false (.inr (by rw [isHexDigit_iff] at hc; omega))
  have hsymbol (d : Char) (hd : Lexeme.isBlank d = false) (c : Char) (hc : c == d) :
      Lexeme.isBlank c = false := by
    rwa [eq_of_beq hc]
  have hsymbols (d e : Char) (hd : Lexeme.isBlank d = false) (he : Lexeme.isBlank e = false)
      (c : Char) (hc : c == d || c == e) : Lexeme.isBlank c = false := by
    rcases (Bool.or_eq_true _ _).mp hc with hc | hc
    · exact hsymbol d hd c hc
    · exact hsymbol e he c hc
  cases k with
  | word =>
    refine .mul (.oneOf hletter) (.kstar (.oneOf fun c hc => ?_))
    exact ((Bool.or_eq_true _ _).mp hc).elim (hletter c) (hdigit c)
  | directive => exact .mul (.oneOf (hsymbols '@' '.' rfl rfl)) (.many hletter)
  | int =>
    apply MadeOf.optionally (hsymbol '-' rfl)
    apply MadeOf.add (.many hdigit)
    apply MadeOf.mul (.oneOf (hsymbol '0' rfl))
    exact .mul (.oneOf (hsymbols 'x' 'X' rfl rfl)) (.many hhexadecimal)
  | float =>
    apply MadeOf.optionally (hsymbol '-' rfl)
    apply MadeOf.mul (.many hdigit)
    apply MadeOf.mul (.oneOf (hsymbol '.' rfl))
    apply MadeOf.mul (.many hdigit)
    refine MadeOf.add .one (.mul (.oneOf (hsymbols 'e' 'E' rfl rfl)) ?_)
    exact .optionally (hsymbols '+' '-' rfl rfl) (.many hdigit)
  | char | string => cases hk

/-- No lexeme goes past the end of a line. -/
theorem madeOf_language (k : LexemeClass) : MadeOf k.language (· ≠ '\n') := by
  have hmark (mark : Char) (hmark : mark ≠ '\n') : MadeOf (oneOf (· == mark)) (· ≠ '\n') :=
    .oneOf fun c hc => by rwa [eq_of_beq hc]
  have hplain (hk : k.isPlain) : MadeOf k.language (· ≠ '\n') := by
    rintro x hx _ hc rfl
    exact absurd (madeOf_of_isPlain hk x hx _ hc) (by decide)
  cases k with
  | word | directive | int | float => exact hplain rfl
  | char => exact .mul (hmark '\x27' (by decide)) (.mul .literalItem (hmark '\x27' (by decide)))
  | string =>
    exact .mul (hmark '\x22' (by decide)) (.mul (.kstar .literalItem) (hmark '\x22' (by decide)))

end LexemeClass

/-! ## Texts that go on -/

theorem prefix_of_not_mem {c : Char} {cs rest x : List Char} (h : x <+: cs ++ c :: rest)
    (hc : c ∉ x) : x <+: cs := by
  have hbefore : cs ++ [c] <+: cs ++ c :: rest := ⟨rest, by simp⟩
  rcases List.prefix_or_prefix_of_prefix h hbefore with h | h
  · rcases List.prefix_concat_iff.mp h with rfl | h
    · exact absurd (by simp) hc
    · exact h
  · exact absurd (h.mem (by simp)) hc

namespace Lexeme.IsLongest

variable {k : LexemeClass} {c : Char} {cs rest x : List Char}

/-- The longest lexeme stays the longest when the text goes on with a new line. -/
theorem append_newline (h : IsLongest k x cs) (rest : List Char) :
    IsLongest k x (cs ++ '\n' :: rest) := by
  refine ⟨h.mem, h.begins.trans (List.prefix_append _ _), fun k' y hy hbegin => ?_⟩
  have hline : '\n' ∉ y := fun hmem => k'.madeOf_language y hy _ hmem rfl
  exact h.longest k' y hy (prefix_of_not_mem hbegin hline)

theorem of_isPlain (hk : k.isPlain) (hx : x ∈ k.language)
    (hrest : ∀ c ∈ rest.head?, Lexeme.isBlank c) : IsLongest k x (x ++ rest) := by
  refine ⟨hx, List.prefix_append _ _, fun k' y hy hbegin => ?_⟩
  cases rest with
  | nil => simpa using hbegin.length_le
  | cons c rest =>
    obtain ⟨d, x', rfl, hd⟩ := k.language_starts x hx
    obtain ⟨e, y', rfl, he⟩ := k'.language_starts y hy
    obtain ⟨rfl, -⟩ := List.cons_prefix_cons.mp hbegin
    have hk' : k'.isPlain := by
      rcases LexemeClass.eq_or_of_starts hd he with rfl | ⟨-, rfl⟩ | ⟨-, rfl⟩
      · exact hk
      · rfl
      · rfl
    have hblank : c ∉ e :: y' := fun hmem => by
      have := k'.madeOf_of_isPlain hk' _ hy c hmem
      simp [hrest c rfl] at this
    exact (prefix_of_not_mem hbegin hblank).length_le

end Lexeme.IsLongest

end InvariantMachine

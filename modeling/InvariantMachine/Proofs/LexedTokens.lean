import Mathlib
import InvariantMachine.Proofs.DigitRuns
import InvariantMachine.Proofs.SourceLines

/-!
# Tokens of sources

What the tokenizer makes a token of has a text that its kind calls for: the name of an instruction,
one character, a letter with digits behind it, or digits that are read as a number. So what reads
the texts of tokens finds nothing wrong with those that come from a source, but for numbers that are
too great.
-/

namespace InvariantMachine

open Json.Numeral (AllDigits NoDigit digits_append noDigit_cons noDigit_nil allDigits_append
  readDigits?_of_allDigits)
open Lexeme (exponent many optionally oneOf mem_many mem_oneOf_mul mem_optionally)

variable {c : Char} {ds cs x : List Char}

/-! ## Decimal numbers -/

theorem isDecimalDigit_iff : isDecimalDigit c ↔ Lexeme.isDigit c := by
  have hrange : Lexeme.isDigit c ↔ '0' ≤ c ∧ c ≤ '9' := by simp [Lexeme.isDigit]
  by_cases hdigit : '0' ≤ c ∧ c ≤ '9'
  · have hcode := Lexeme.isDigit_iff.mp (hrange.mpr hdigit)
    simp [isDecimalDigit, digitValue?, Option.filter, hrange, hdigit]
    omega
  · -- the letters that are digits in greater bases stand for ten and above
    rw [hrange, isDecimalDigit, digitValue?, if_neg hdigit]
    split_ifs <;> simp [Option.filter, hdigit]

theorem allDigits_of_mem_many (h : ds ∈ many Lexeme.isDigit) : ds ≠ [] ∧ AllDigits ds := by
  obtain ⟨hne, hds⟩ := mem_many.mp h
  exact ⟨hne, fun c hc => isDecimalDigit_iff.mpr (hds c hc)⟩

theorem isSome_readExponentDigits? (hne : ds ≠ []) (hds : AllDigits ds) :
    (readExponentDigits? ds).isSome := by
  have hfold (n : Nat) : (ds.foldlM (fun n d => (digitValue? 10 d).map fun v =>
      if n < 0x10000 then 10 * n + v else n) n).isSome := by
    clear hne
    induction ds generalizing n with
    | nil => rfl
    | cons c ds ih =>
      obtain ⟨hc, hds⟩ := List.forall_mem_cons.mp hds
      obtain ⟨d, hd⟩ := Option.isSome_iff_exists.mp hc
      rw [List.foldlM_cons, hd]
      exact ih hds _
  cases ds with
  | nil => exact absurd rfl hne
  | cons c ds => exact hfold 0

theorem isSome_readExponent? (h : x ∈ 1 + exponent) : (readExponent? x).isSome := by
  rcases h with hnil | h
  · rw [(Language.mem_one x).mp hnil]
    rfl
  · obtain ⟨e, y, he, hy, rfl⟩ := mem_oneOf_mul.mp h
    have he : e = 'e' ∨ e = 'E' := by simpa using he
    rcases mem_optionally.mp hy with hy | ⟨s, ds, hs, hds, rfl⟩
    · obtain ⟨hne, hds⟩ := allDigits_of_mem_many hy
      obtain ⟨n, hn⟩ := Option.isSome_iff_exists.mp (isSome_readExponentDigits? hne hds)
      have hsign (s : Char) (hs : isDecimalDigit s = false) (rest : List Char) : y ≠ s :: rest := by
        rintro rfl
        exact absurd (hds s List.mem_cons_self) (by simp [hs])
      rw [readExponent?, if_pos he, hn]
      · rfl
      · exact hsign '+' rfl
      · exact hsign '-' rfl
    · obtain ⟨hne, hds⟩ := allDigits_of_mem_many hds
      obtain ⟨n, hn⟩ := Option.isSome_iff_exists.mp (isSome_readExponentDigits? hne hds)
      have hs : s = '+' ∨ s = '-' := by simpa using hs
      rcases hs with rfl | rfl <;> rw [readExponent?, if_pos he, hn] <;> rfl

theorem noDigit_of_mem_exponent (h : x ∈ 1 + exponent) : NoDigit x := by
  rcases h with hnil | h
  · rw [(Language.mem_one x).mp hnil]
    exact noDigit_nil
  · obtain ⟨e, y, he, -, rfl⟩ := mem_oneOf_mul.mp h
    have he : e = 'e' ∨ e = 'E' := by simpa using he
    rcases he with rfl | rfl <;> exact noDigit_cons (by decide)

theorem isSome_readMagnitude? (negative : Bool) (h : x ∈ many Lexeme.isDigit * (oneOf (· == '.') *
    (many Lexeme.isDigit * (1 + exponent)))) : (Binary64.readMagnitude? negative x).isSome := by
  obtain ⟨whole, hwhole, y, hy, rfl⟩ := Language.mem_mul.mp h
  obtain ⟨point, z, hpoint, hz, rfl⟩ := mem_oneOf_mul.mp hy
  obtain ⟨decimals, hdecimals, tail, htail, rfl⟩ := Language.mem_mul.mp hz
  obtain rfl := eq_of_beq hpoint
  obtain ⟨hne, hwhole⟩ := allDigits_of_mem_many hwhole
  obtain ⟨-, hdecimals⟩ := allDigits_of_mem_many hdecimals
  have hpoint : NoDigit ('.' :: (decimals ++ tail)) := noDigit_cons (by decide)
  have hfirst := digits_append hwhole hpoint
  have hsecond := digits_append hdecimals (noDigit_of_mem_exponent htail)
  rw [Json.Numeral.digits, Prod.mk.injEq] at hfirst hsecond
  have hdigits := readDigits?_of_allDigits (by simp [hne]) (allDigits_append hwhole hdecimals)
  obtain ⟨e, he⟩ := Option.isSome_iff_exists.mp (isSome_readExponent? htail)
  simp [Binary64.readMagnitude?, hfirst, hsecond, hdigits, he]

theorem isSome_read?_of_mem_float (h : x ∈ LexemeClass.float.language) :
    (Binary64.read? x).isSome := by
  rcases mem_optionally.mp h with hx | ⟨s, y, hs, hy, rfl⟩
  · obtain ⟨d, y, rfl, hd⟩ := Lexeme.Starts.many_mul x hx
    have hsign (s : Char) (hs : Lexeme.isDigit s = false) (rest : List Char) :
        d :: y ≠ s :: rest := by
      rintro ⟨⟩
      rw [hs] at hd
      cases hd
    rw [Binary64.read?]
    · simp [isSome_readMagnitude? false hx]
    · exact hsign '-' rfl
    · exact hsign '+' rfl
  · obtain rfl := eq_of_beq hs
    simp [Binary64.read?, isSome_readMagnitude? true hy]

/-! ## Characters -/

theorem length_of_unescapes_literalItem {mark : Char} {body text : List Char}
    (hbody : body ∈ Lexeme.literalItem mark) (h : Unescapes body text) : ∃ c, text = [c] := by
  rcases hbody with ⟨c, hc, rfl⟩ | hescape
  · cases h with
    | plain _ h =>
      cases h
      exact ⟨c, rfl⟩
  · obtain ⟨e, y, he, ⟨c, -, rfl⟩, rfl⟩ := mem_oneOf_mul.mp hescape
    cases h with
    | plain hplain _ => exact absurd (eq_of_beq he) hplain
    | @escape _ d _ _ _ h =>
      cases h
      exact ⟨d, rfl⟩

theorem exists_char_of_makes {shown : String} (hx : x ∈ LexemeClass.char.language)
    (h : Makes x .char shown) : ∃ c, shown = String.ofList [c] := by
  cases h with
  | @char body text h =>
    obtain ⟨c, y, -, hy, heq⟩ := mem_oneOf_mul.mp hx
    obtain ⟨item, hitem, _, ⟨d, -, rfl⟩, rfl⟩ := Language.mem_mul.mp hy
    obtain ⟨rfl, -⟩ := List.append_inj' (List.cons.inj heq).2 rfl
    obtain ⟨c, rfl⟩ := length_of_unescapes_literalItem hitem h
    exact ⟨c, rfl⟩

/-! ## Tokens -/

/-- The text of the token is what its kind calls for. -/
structure Token.FitsKind (token : Token) : Prop where
  mnemonic : token.kind = .mnemonic → ∃ op, Opcode.ofMnemonic? token.text = some op
  char : token.kind = .char → ∃ c, token.text.toList = [c]
  register : token.kind = .register → ∃ r digits, token.text.toList = r :: digits ∧
    (r = 'r' ∨ r = 'R') ∧ digits ≠ [] ∧ ∀ d ∈ digits, Lexeme.isDigit d
  float : token.kind = .float → ∃ v, Literal.float? token.text.toList = some v

theorem Token.fitsKind_of_makes {token : Token} (hx : x ∈ token.kind.lexemeClass.language)
    (h : Makes x token.kind token.text) : token.FitsKind := by
  obtain ⟨kind, shown, span⟩ := token
  refine ⟨?_, ?_, ?_, ?_⟩ <;> rintro ⟨⟩
  · cases h with
    | @mnemonic _ op hop => exact ⟨op, Opcode.ofMnemonic?_eq_some_iff.mpr hop⟩
  · obtain ⟨c, rfl⟩ := exists_char_of_makes hx h
    exact ⟨c, String.toList_ofList⟩
  · cases h with
    | @register r digits hr hdigits =>
      exact ⟨r, digits, String.toList_ofList, hr, mem_many.mp hdigits⟩
  · cases h with
    | float =>
      have hread : (Literal.float? (String.ofList x).toList).isSome := by
        rw [String.toList_ofList]
        exact isSome_read?_of_mem_float hx
      exact Option.isSome_iff_exists.mp hread

theorem Tokenizes.fitsKind {rest before text : List Char} {ts : List Token}
    (h : Tokenizes rest before text ts) : ∀ token ∈ ts, token.FitsKind := by
  induction h with
  | gap => exact nofun
  | token _ lexeme makes _ ih =>
    exact List.forall_mem_cons.mpr ⟨Token.fitsKind_of_makes lexeme.mem makes, ih⟩

end InvariantMachine

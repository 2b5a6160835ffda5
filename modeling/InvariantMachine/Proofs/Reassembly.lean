import Mathlib
import InvariantMachine.Proofs.Encoding
import InvariantMachine.Proofs.LexedTokens
import InvariantMachine.Proofs.NumeralTexts

/-!
# Instructions reassembled

The text of an instruction is words with blanks between them, each the lexeme of one token, and the
tokens spell the instruction. So the texts of instructions, one on each line, are assembled to the
instructions. Floats are left out, and strings, which a text refers to by number; of the characters
there are those of ASCII whose text is themselves or an escape that sources have too.
-/

namespace InvariantMachine

open Json.Numeral (allDigits_toDigits appended_toDigits readDigits?_of_allDigits toList_toString)
open Lexeme (IsLongest isLetter many mem_kstar_oneOf mem_many mem_oneOf_mul mem_optionally)

variable {before rest x : List Char} {kind : TokenKind} {shown : String}

/-! ## Words -/

/-- The text is a lexeme that ends in front of a blank, and makes a token. -/
structure Word (x : List Char) (kind : TokenKind) (shown : String) : Prop where
  longest : ∀ rest : List Char, (∀ c ∈ rest.head?, Lexeme.isBlank c) →
    IsLongest kind.lexemeClass x (x ++ rest)
  makes : Makes x kind shown

namespace Word

theorem of_isPlain (hk : kind.lexemeClass.isPlain)
    (hshown : shown.toList ∈ kind.lexemeClass.language)
    (makes : Makes shown.toList kind (String.ofList shown.toList)) :
    Word shown.toList kind shown := by
  rw [String.ofList_toList] at makes
  exact ⟨fun _ => .of_isPlain hk hshown, makes⟩

theorem tokenizes (h : Word x kind shown) (hrest : ∀ c ∈ rest.head?, Lexeme.isBlank c) :
    Tokenizes rest before x [⟨kind, shown, Span.behind before⟩] := by
  have hread : Tokenizes rest before (x ++ []) [⟨kind, shown, Span.behind before⟩] :=
    .lexeme (h.longest rest hrest) h.makes (.gap .nil)
  rwa [List.append_nil] at hread

theorem tokenizes_cons {text : List Char} {ts : List Token} (h : Word x kind shown)
    (htext : Tokenizes rest (before ++ x ++ [' ']) text ts) :
    Tokenizes rest before (x ++ ' ' :: text) (⟨kind, shown, Span.behind before⟩ :: ts) := by
  have hblank : ∀ c ∈ (' ' :: text ++ rest).head?, Lexeme.isBlank c := by
    rintro _ ⟨⟩
    rfl
  exact .lexeme (h.longest _ hblank) h.makes (.blank rfl htext)

theorem mem_word (hne : x ≠ []) (hx : x.all isLetter) : x ∈ LexemeClass.word.language := by
  obtain ⟨c, y, rfl⟩ := List.exists_cons_of_ne_nil hne
  obtain ⟨hc, hy⟩ := List.forall_mem_cons.mp (List.all_eq_true.mp hx)
  exact mem_oneOf_mul.mpr ⟨c, y, hc, mem_kstar_oneOf.mpr fun d hd => by simp [hy d hd], rfl⟩

end Word

namespace Opcode

theorem asciiLowerAll_mnemonic (op : Opcode) : asciiLowerAll op.mnemonic = op.mnemonic := by
  cases op <;> decide +kernel

theorem mem_mnemonics (op : Opcode) : (asciiLowerAll op.mnemonic, op) ∈ mnemonics := by
  rw [op.asciiLowerAll_mnemonic]
  exact List.mem_append_left _ (List.mem_map_of_mem op.mem_all)

theorem letters_mnemonic (op : Opcode) :
    op.mnemonic.toList ≠ [] ∧ op.mnemonic.toList.all isLetter := by
  cases op <;> decide +kernel

theorem word (op : Opcode) : Word op.mnemonic.toList .mnemonic op.mnemonic := by
  obtain ⟨hne, hletters⟩ := op.letters_mnemonic
  have hname : (asciiLowerAll (String.ofList op.mnemonic.toList), op) ∈ mnemonics := by
    rw [String.ofList_toList]
    exact op.mem_mnemonics
  exact .of_isPlain rfl (Word.mem_word hne hletters) (.mnemonic hname)

end Opcode

theorem word_top : Word "top".toList .top "top" :=
  .of_isPlain rfl (Word.mem_word (by decide) (by decide)) (.top (by decide +kernel))

/-! ## Numbers -/

theorem toDigits_mem_many (n : Nat) : Nat.toDigits 10 n ∈ many Lexeme.isDigit :=
  mem_many.mpr ⟨Nat.toDigits_ne_nil, fun c hc => isDecimalDigit_iff.mp (allDigits_toDigits n c hc)⟩

theorem readDigits?_toDigits (n : Nat) : readDigits? 10 (Nat.toDigits 10 n) = some n := by
  rw [readDigits?_of_allDigits Nat.toDigits_ne_nil (allDigits_toDigits n), appended_toDigits]

theorem not_mem_toDigits {c : Char} (hc : isDecimalDigit c = false) (n : Nat) :
    c ∉ Nat.toDigits 10 n := by
  intro hmem
  have hdigit := allDigits_toDigits n c hmem
  rw [hc] at hdigit
  cases hdigit

theorem toDigits_ne_cons {c : Char} (hc : isDecimalDigit c = false) (n : Nat) (cs : List Char) :
    Nat.toDigits 10 n ≠ c :: cs :=
  fun hcs => not_mem_toDigits hc n (by simp [hcs])

theorem toDigits_ne_base {c : Char} (hc : isDecimalDigit c = false) (n : Nat) (cs : List Char) :
    Nat.toDigits 10 n ≠ '0' :: c :: cs :=
  fun hcs => not_mem_toDigits hc n (by simp [hcs])

theorem readNat?_toDigits {n most : Nat} (h : n ≤ most) :
    readNat? most (Nat.toDigits 10 n) = some n := by
  have hplus := toDigits_ne_cons (c := '+') rfl n
  simp [readNat?, readDigits?_toDigits, h]

theorem readInt?_toDigits {n : Nat} {least most : Int} (hleast : least ≤ n) (hmost : n ≤ most) :
    readInt? 10 least most (Nat.toDigits 10 n) = some (n : Int) := by
  have hplus := toDigits_ne_cons (c := '+') rfl n
  have hminus := toDigits_ne_cons (c := '-') rfl n
  simp [readInt?, readDigits?_toDigits, hleast, hmost]

namespace Literal

theorem signedMagnitude?_toDigits {n : Nat} (h : n ≤ 0x8000000000000000) :
    signedMagnitude? (Nat.toDigits 10 n) = some (false, (n : Int)) ∧
      signedMagnitude? ('-' :: Nat.toDigits 10 n) = some (true, (n : Int)) := by
  have hminus := toDigits_ne_cons (c := '-') rfl n
  have hsmall := toDigits_ne_base (c := 'x') rfl n
  have hcapital := toDigits_ne_base (c := 'X') rfl n
  have hread : readInt? 10 leastMagnitude greatestMagnitude (Nat.toDigits 10 n) =
      some (n : Int) :=
    readInt?_toDigits (by simp only [leastMagnitude]; omega)
      (by simp only [greatestMagnitude]; omega)
  -- without a sign and without the mark of a base, the digits are read as they are
  constructor <;> simp only [signedMagnitude?, hread, Option.map_some]

theorem opposite?_natCast {n : Nat} (h : (n : Int) ≤ greatestMagnitude) :
    opposite? n = some (-n : Int) := by
  simp only [greatestMagnitude] at h
  apply if_pos
  simp only [leastMagnitude, greatestMagnitude]
  omega

theorem int_of_signedMagnitude? {text : List Char} {negative : Bool} {m : Int} {v : Int64}
    (h : signedMagnitude? text = some (negative, m))
    (hv : (if negative then opposite? m else some m) = some v.toInt) : int text = .ok v := by
  have hrange : leastInt ≤ v.toInt ∧ v.toInt ≤ greatestInt := by
    have hleast : -0x8000000000000000 ≤ v.toInt := v.le_toInt
    have hgreatest : v.toInt < 0x8000000000000000 := v.toInt_lt
    simp only [leastInt, greatestInt]
    omega
  simp only [int, h, hv]
  rw [if_pos hrange, Int64.ofInt_toInt]

theorem int_toString (v : Int64) : int (toString v).toList = .ok v := by
  have hleast : -0x8000000000000000 ≤ v.toInt := v.le_toInt
  have hgreatest : v.toInt < 0x8000000000000000 := v.toInt_lt
  have htext : (toString v).toList = (toString v.toInt).toList := rfl
  rw [htext, toList_toString]
  split_ifs with hv
  · exact int_of_signedMagnitude? (signedMagnitude?_toDigits (by omega)).1
      (congrArg some (Int.toNat_of_nonneg hv))
  · have hle : ((-v.toInt).toNat : Int) ≤ greatestMagnitude := by
      simp only [greatestMagnitude]
      omega
    refine int_of_signedMagnitude? (signedMagnitude?_toDigits (by omega)).2 ?_
    rw [if_pos rfl, opposite?_natCast hle, Int.toNat_of_nonneg (by omega), Int.neg_neg]

end Literal

theorem word_int (v : Int64) : Word (toString v).toList .int (toString v) := by
  have htext : (toString v).toList = (toString v.toInt).toList := rfl
  have hmem : (toString v).toList ∈ LexemeClass.int.language := by
    rw [htext, toList_toString]
    split_ifs
    · exact mem_optionally.mpr (.inl (.inl (toDigits_mem_many _)))
    · exact mem_optionally.mpr (.inr ⟨'-', _, rfl, .inl (toDigits_mem_many _), rfl⟩)
  exact .of_isPlain rfl hmem .int

theorem toList_registerText (r : UInt8) : s!"r{r}".toList = 'r' :: Nat.toDigits 10 r.toNat := by
  have hdigits : (toString r).toList = Nat.toDigits 10 r.toNat := toList_toString r.toNat
  change ("r" ++ toString r).toList = _
  rw [String.toList_append, hdigits]
  rfl

theorem word_register (r : UInt8) : Word s!"r{r}".toList .register s!"r{r}" := by
  have hdigits := toDigits_mem_many r.toNat
  have hmem : 'r' :: Nat.toDigits 10 r.toNat ∈ LexemeClass.word.language :=
    mem_oneOf_mul.mpr ⟨'r', _, rfl, mem_kstar_oneOf.mpr fun d hd => by
      simp [(mem_many.mp hdigits).2 d hd], rfl⟩
  have hmakes := Makes.register (.inl rfl) hdigits
  rw [← toList_registerText] at hmem hmakes
  exact .of_isPlain rfl hmem hmakes

theorem Literal.registerIndex?_registerText (r : UInt8) :
    registerIndex? s!"r{r}".toList = some r.toNat := by
  have hle : r.toNat ≤ greatestRegisterIndex := by
    simp only [greatestRegisterIndex]
    have := r.toNat_lt
    omega
  rw [toList_registerText, registerIndex?, if_pos (by decide), readNat?_toDigits hle]

/-! ## Characters -/

theorem word_char {item : List Char} {c : Char} (hitem : item ∈ Lexeme.literalItem '\x27')
    (h : Unescapes item [c]) :
    Word ('\x27' :: (item ++ ['\x27'])) .char (String.ofList [c]) := by
  refine ⟨fun rest _ => ?_, .char h⟩
  have hmem : '\x27' :: (item ++ ['\x27']) ∈ LexemeClass.char.language :=
    mem_oneOf_mul.mpr ⟨'\x27', _, rfl, Language.append_mem_mul hitem ⟨'\x27', rfl, rfl⟩, rfl⟩
  have hmatch : Lexeme.char? ('\x27' :: (item ++ ['\x27']) ++ rest) = some (item.length + 2) := by
    rcases hitem with ⟨d, hd, rfl⟩ | hescape
    · simp only [Bool.and_eq_true, bne_iff_ne] at hd
      simp [Lexeme.char?_plain hd.1.2, hd]
    · obtain ⟨e, y, he, ⟨d, hd, rfl⟩, rfl⟩ := mem_oneOf_mul.mp hescape
      obtain rfl := eq_of_beq he
      simp [Lexeme.char?_escape, bne_iff_ne.mp hd]
  refine ⟨hmem, List.prefix_append _ _, fun k y hy hbegin => ?_⟩
  obtain ⟨d, y, rfl, hd⟩ := k.language_starts y hy
  obtain ⟨rfl, -⟩ := List.cons_prefix_cons.mp hbegin
  have hk : k = .char := by
    obtain ⟨_, _, ⟨⟩, hquote⟩ := LexemeClass.char.language_starts _ hmem
    rcases LexemeClass.eq_or_of_starts hd hquote with rfl | ⟨-, hk⟩ | ⟨-, hk⟩
    · rfl
    · cases hk
    · cases hk
  subst hk
  have hlongest := hmatch ▸ Lexeme.munches_char ('\x27' :: (item ++ ['\x27']) ++ rest)
  simpa using hlongest.2 _ hy hbegin

namespace Operand

/-- The printable characters of ASCII, and those that listings and sources escape by one letter. -/
def isReadableChar (c : Char) : Bool :=
  (0x20 ≤ c.toNat && c.toNat ≤ 0x7e) || c == '\x00' || c == '\t' || c == '\r' || c == '\n'

def isReadable : Operand → Bool
  | none | int _ | register _ | top => true
  | char c => isReadableChar c
  | float _ | stringIndex _ => false

end Operand

theorem escaped_item {e c : Char} (h : escapeMeaning? e = some c) (hline : e ≠ '\n') :
    ['\\', e] ∈ Lexeme.literalItem '\x27' ∧ Unescapes ['\\', e] [c] :=
  ⟨.inr (mem_oneOf_mul.mpr ⟨'\\', [e], rfl, ⟨e, bne_iff_ne.mpr hline, rfl⟩, rfl⟩), .escape h .nil⟩

theorem listingEscape_of_printable {c : Char} (hprintable : 0x20 ≤ c.toNat ∧ c.toNat ≤ 0x7e)
    (hescape : ¬(c = '\\' ∨ c = apostrophe)) : listingEscape apostrophe c = [c] := by
  have hne (d : Char) (hd : d.toNat < 0x20) : c ≠ d := by
    rintro rfl
    omega
  have hvisible : isVisible c = true := by
    rw [isVisible, if_pos (by omega)]
    simpa using hprintable.1
  have hjoining : isJoining c = false := by
    rw [isJoining, decide_eq_false (by omega), Bool.false_and]
  simp [listingEscape, layoutEscape?, hescape, hvisible, hjoining, hne '\x00' (by decide),
    hne '\t' (by decide), hne '\r' (by decide), hne '\n' (by decide)]

theorem listingEscape_item {c : Char} (hc : Operand.isReadableChar c) :
    listingEscape apostrophe c ∈ Lexeme.literalItem '\x27' ∧
      Unescapes (listingEscape apostrophe c) [c] := by
  simp only [Operand.isReadableChar, Bool.or_eq_true, Bool.and_eq_true, decide_eq_true_eq,
    beq_iff_eq] at hc
  rcases hc with (((hprintable | rfl) | rfl) | rfl) | rfl
  · by_cases hescape : c = '\\' ∨ c = apostrophe
    · rcases hescape with rfl | rfl <;> exact escaped_item rfl (by decide)
    · rw [listingEscape_of_printable hprintable hescape]
      rw [not_or] at hescape
      have hline : c ≠ '\n' := by
        rintro rfl
        exact absurd hprintable.1 (by decide)
      have hmark : c ≠ '\x27' := hescape.2
      exact ⟨.inl ⟨c, by simp [hescape.1, hline, hmark], rfl⟩, .plain hescape.1 .nil⟩
  all_goals exact escaped_item rfl (by decide)

theorem word_listedChar {c : Char} (hc : Operand.isReadableChar c) :
    Word (listedChar c).toList .char (String.ofList [c]) := by
  obtain ⟨hitem, hunescapes⟩ := listingEscape_item hc
  rw [listedChar, String.toList_ofList]
  exact word_char hitem hunescapes

/-! ## Instructions -/

namespace Operand

theorem denotes_register {r : UInt8} (h : Instruction.isRegister r) (span : Span) :
    Token.Denotes ⟨.register, s!"r{r}", span⟩ (.register r) := by
  have hdenotes : Token.Denotes ⟨.register, s!"r{r}", span⟩ (.register (UInt8.ofNat r.toNat)) :=
    .register rfl (Literal.registerIndex?_registerText r) (of_decide_eq_true h)
  rwa [UInt8.ofNat_toNat] at hdenotes

theorem exists_word {o : Operand} (ho : Instruction.isLiteral o) (hread : o.isReadable) :
    ∃ kind shown, Word o.text.toList kind shown ∧ ∀ span, Token.Denotes ⟨kind, shown, span⟩ o := by
  cases o with
  | int v => exact ⟨_, _, word_int v, fun span => .int rfl (Literal.int_toString v)⟩
  | char c =>
    exact ⟨_, _, word_listedChar hread, fun span => .char rfl (by simp [Literal.char?])⟩
  | register r => exact ⟨_, _, word_register r, denotes_register ho⟩
  | none | float _ | stringIndex _ | top => contradiction

theorem exists_word_of_source {o : Operand} (ho : o = .top ∨ Instruction.isLiteral o)
    (hread : o.isReadable) : ∃ kind shown, Word o.text.toList kind shown ∧
      ∀ span, (kind = .top ∧ o = .top) ∨ Token.Denotes ⟨kind, shown, span⟩ o := by
  rcases ho with rfl | ho
  · exact ⟨_, _, word_top, fun _ => .inl ⟨rfl, rfl⟩⟩
  · obtain ⟨kind, shown, hword, hdenotes⟩ := o.exists_word ho hread
    exact ⟨kind, shown, hword, fun span => .inr (hdenotes span)⟩

end Operand

namespace Instruction

variable {op : Opcode} {o : Operand} {i : Instruction}

theorem toList_text_withOperand (ho : o ≠ .none) :
    (withOperand op o).text.toList = op.mnemonic.toList ++ ' ' :: o.text.toList := by
  have htext : (withOperand op o).text = op.mnemonic ++ " " ++ o.text := by
    cases o with
    | none => exact absurd rfl ho
    | int _ | float _ | char _ | register _ | stringIndex _ | top => rfl
  simp [htext]

theorem toList_text_mov (r : UInt8) (o : Operand) : (mov r o).text.toList =
    Opcode.mov.mnemonic.toList ++ ' ' :: (s!"r{r}".toList ++ ' ' :: o.text.toList) := by
  have htext : (mov r o).text = Opcode.mov.mnemonic ++ " r" ++ toString r ++ " " ++ o.text := rfl
  have hregister : s!"r{r}" = "r" ++ toString r := rfl
  simp [htext, hregister]

/-- The text of a readable instruction is tokens that spell it, wherever it stands. -/
theorem exists_spelled (hi : i.WellFormed) (hread : i.operand.isReadable) (before : List Char)
    (hrest : ∀ c ∈ rest.head?, Lexeme.isBlank c) :
    ∃ ts, Tokenizes rest before i.text.toList ts ∧ Phrase.Spelled ts (.instruction i) := by
  have hname (op : Opcode) (span : Span) : Token.Names ⟨.mnemonic, op.mnemonic, span⟩ op :=
    ⟨rfl, op.mem_mnemonics⟩
  cases hi with
  | @bare op hshape => exact ⟨_, op.word.tokenizes hrest, .bare (hname op _) hshape⟩
  | @literal op o hshape ho =>
    have hne : o ≠ .none := by
      rintro rfl
      cases ho
    obtain ⟨kind, shown, hword, hdenotes⟩ := o.exists_word ho hread
    rw [toList_text_withOperand hne]
    exact ⟨_, op.word.tokenizes_cons (hword.tokenizes hrest),
      .literal (hname op _) hshape (hdenotes _)⟩
  | @target op t hshape =>
    have hne : Operand.int t ≠ .none := nofun
    rw [toList_text_withOperand hne]
    exact ⟨_, op.word.tokenizes_cons ((word_int t).tokenizes hrest),
      .target (hname op _) hshape rfl (Literal.int_toString t)⟩
  | @move r o hregister ho =>
    obtain ⟨kind, shown, hword, hdenotes⟩ := o.exists_word_of_source ho hread
    rw [toList_text_mov]
    exact ⟨_, Opcode.mov.word.tokenizes_cons
        ((word_register r).tokenizes_cons (hword.tokenizes hrest)),
      .move (hname .mov _) rfl (Operand.denotes_register hregister _) (hdenotes _)⟩
  | stringRef k hshape => cases hread

end Instruction

/-! ## Lines -/

namespace Phrase

theorem texts_map_instruction (is : List Instruction) : texts (is.map .instruction) = [] := by
  induction is with
  | nil => rfl
  | cons i is ih =>
    rw [List.map_cons, texts_cons]
    exact ih

theorem offsets_map_instruction (is : List Instruction) : offsets (is.map .instruction) = [] := by
  induction is with
  | nil => rfl
  | cons i is ih =>
    rw [List.map_cons, offsets_cons]
    exact ih

theorem instructionsAfter_map_instruction (count : Nat) (is : List Instruction) :
    instructionsAfter count (is.map .instruction) = is := by
  induction is generalizing count with
  | nil => rfl
  | cons i is ih => rw [List.map_cons, instructionsAfter, ih, instructionAfter]

theorem withinLimits_map_instruction {is : List Instruction} (h : is.length ≤ 1024) :
    WithinLimits (is.map .instruction) where
  length_le := by rwa [List.length_map]
  bytes_le := by
    rw [texts_map_instruction]
    exact Nat.zero_le _
  offsets_le := by
    rw [offsets_map_instruction]
    exact Nat.zero_le _

/-- The texts of instructions, one on each line, are tokens that spell the instructions. -/
theorem exists_source_of_lines {is : List Instruction}
    (h : ∀ i ∈ is, i.isWellFormed ∧ i.operand.isReadable) (before : List Char) :
    ∃ ts, Tokenizes [] before ("\n".intercalate (is.map Instruction.text)).toList ts ∧
      Source ts (is.map .instruction) := by
  induction is generalizing before with
  | nil => exact ⟨[], .gap .nil, .nil⟩
  | cons i is ih =>
    obtain ⟨⟨hi, hread⟩, his⟩ := List.forall_mem_cons.mp h
    have hwell := i.isWellFormed_iff.mp hi
    cases is with
    | nil =>
      obtain ⟨ts, hts, hspelled⟩ : ∃ ts, Tokenizes [] before i.text.toList ts ∧
          Spelled ts (.instruction i) := i.exists_spelled hwell hread before nofun
      have hsource := Source.cons hspelled .nil
      rw [List.append_nil] at hsource
      exact ⟨ts, by simpa using hts, hsource⟩
    | cons j is =>
      obtain ⟨ts₂, hts₂, hsource⟩ := ih his (before ++ i.text.toList ++ ['\n'])
      -- the first line ends in front of the newline that the others stand behind
      have hbreak (more : List Char) : ∀ c ∈ ('\n' :: more ++ []).head?, Lexeme.isBlank c := by
        rintro _ ⟨⟩
        rfl
      obtain ⟨ts₁, hts₁, hspelled⟩ := i.exists_spelled hwell hread before (hbreak _)
      refine ⟨ts₁ ++ ts₂, ?_, .cons hspelled hsource⟩
      simpa [String.intercalate_cons_cons] using hts₁.append (.blank rfl hts₂)

end Phrase

/-- The texts of at most 1024 instructions that fit their opcodes and have readable operands, one on
each line, are assembled to a program of these instructions, without strings and without an entry
point. -/
theorem assemble_instruction_texts {is : List Instruction} (hlength : is.length ≤ 1024)
    (h : ∀ i ∈ is, i.isWellFormed ∧ i.operand.isReadable) :
    ∃ p, assemble ("\n".intercalate (is.map Instruction.text)) = .ok p ∧
      p.instructions.toList = is ∧ p.strings.toList = [] ∧ p.entryPoint? = none := by
  obtain ⟨ts, hts, hsource⟩ := Phrase.exists_source_of_lines h []
  obtain ⟨p, hp, hinstructions, hstrings, hentry⟩ :=
    hsource.exists_program (Phrase.withinLimits_map_instruction hlength)
  rw [Phrase.instructionsAfter_map_instruction] at hinstructions
  rw [Phrase.texts_map_instruction] at hstrings
  rw [Phrase.entryOf, Phrase.offsets_map_instruction] at hentry
  refine ⟨p, ?_, hinstructions, hstrings, ?_⟩
  · rw [assemble, (ReadAs.tokens hts).tokenize_eq]
    exact hp
  · rw [Program.entryPoint?, hentry]
    rfl

/-- The least integer, a mark behind its escape and the top of the stack are read back. -/
theorem assemble_instruction_texts_escapedMark :
    let is : List Instruction := [.withOperand .push (.int (-9223372036854775808)),
      .withOperand .indup (.char '\x27'), .mov 7 .top, .bare .halt]
    ∃ p, assemble "push -9223372036854775808\nindup '\\''\nmov r7 top\nhalt" = .ok p ∧
      p.instructions.toList = is ∧ p.strings.toList = [] ∧ p.entryPoint? = none := by
  intro is
  have htexts : "\n".intercalate (is.map Instruction.text) =
      "push -9223372036854775808\nindup '\\''\nmov r7 top\nhalt" := by
    decide +kernel
  rw [← htexts]
  exact assemble_instruction_texts (by decide) (by decide +kernel)

end InvariantMachine

import Mathlib
import InvariantMachine.Proofs.Reassembly
import InvariantMachine.Proofs.Truncation

/-!
# Texts as string literals

Every text has a literal: backslashes and quotation marks are escaped by a backslash, newlines by a
letter, and all other characters stand for themselves. Where the literal ends and where its escapes
end agree, so the literal is one token with the text. With the opcode that pushes strings it is
assembled to a program of one instruction, as long as the pool has room for the text.
-/

namespace InvariantMachine

open Lexeme (IsLongest isDigit isLetter literalItem mem_oneOf_mul stringBody)
open scoped Computability

variable {before rest x body gap text : List Char} {c : Char}

/-! ## Where a literal ends -/

namespace Lexeme

theorem stringBody_item (hitem : x ∈ literalItem '\x22') (length : Nat) (cs : List Char) :
    stringBody length (x ++ cs) = stringBody (length + x.length) cs := by
  rcases hitem with ⟨c, hc, rfl⟩ | hescape
  · simp only [Bool.and_eq_true, bne_iff_ne] at hc
    obtain ⟨⟨hmark, hslash⟩, hline⟩ := hc
    rw [List.singleton_append, stringBody, if_neg hline]
    · rfl
    · exact hmark
    · exact fun heq _ => hslash heq
    · exact fun _ _ heq _ => hslash heq
  · obtain ⟨e, y, he, ⟨c, hc, rfl⟩, rfl⟩ := mem_oneOf_mul.mp hescape
    obtain rfl := eq_of_beq he
    have hline : c ≠ '\n' := by simpa using hc
    rw [List.cons_append, List.singleton_append, stringBody, if_neg hline]
    rfl

theorem stringBody_of_items (hbody : body ∈ (literalItem '\x22')∗) (length : Nat)
    (rest : List Char) :
    stringBody length (body ++ '\x22' :: rest) = (length + body.length + 1, true) := by
  obtain ⟨items, rfl, hitems⟩ := Language.mem_kstar.mp hbody
  clear hbody
  induction items generalizing length with
  | nil => simp [stringBody]
  | cons item items ih =>
    obtain ⟨hitem, hitems⟩ := List.forall_mem_cons.mp hitems
    rw [List.flatten_cons, List.append_assoc, stringBody_item hitem, ih _ hitems,
      List.length_append, Nat.add_assoc length]

end Lexeme

/-- Items between two marks are the longest lexeme at their place, whatever stands behind them. -/
theorem word_string (hbody : body ∈ (literalItem '\x22')∗) (h : Unescapes body text) :
    Word ('\x22' :: (body ++ ['\x22'])) .string (String.ofList text) := by
  refine ⟨fun rest _ => ?_, .string h⟩
  have hmem : '\x22' :: (body ++ ['\x22']) ∈ LexemeClass.string.language :=
    mem_oneOf_mul.mpr ⟨'\x22', _, rfl, Language.append_mem_mul hbody ⟨'\x22', rfl, rfl⟩, rfl⟩
  have hmatch : Lexeme.string? ('\x22' :: (body ++ ['\x22']) ++ rest) =
      some (body.length + 2) := by
    have hend := Lexeme.stringBody_of_items hbody 1 rest
    simp [Lexeme.string?, hend]
    omega
  refine ⟨hmem, List.prefix_append _ _, fun k y hy hbegin => ?_⟩
  obtain ⟨d, y, rfl, hd⟩ := k.language_starts y hy
  obtain ⟨rfl, -⟩ := List.cons_prefix_cons.mp hbegin
  have hmark : LexemeClass.string.starts '\x22' := rfl
  have hk : k = .string := by
    rcases LexemeClass.eq_or_of_starts hd hmark with rfl | ⟨-, hk⟩ | ⟨-, hk⟩
    · rfl
    · cases hk
    · cases hk
  subst hk
  have hlongest := hmatch ▸ Lexeme.munches_string ('\x22' :: (body ++ ['\x22']) ++ rest)
  simpa using hlongest.2 _ hy hbegin

/-! ## Escapes of sources -/

/-- How a character is written in a string of a source. -/
def sourceEscape (c : Char) : List Char :=
  if c = '\\' ∨ c = '\x22' then ['\\', c] else if c = '\n' then ['\\', 'n'] else [c]

/-- A text as a string of a source. -/
def sourceLiteral (text : String) : String :=
  String.ofList ('\x22' :: (text.toList.flatMap sourceEscape ++ ['\x22']))

theorem sourceEscape_item (c : Char) : sourceEscape c ∈ literalItem '\x22' := by
  unfold sourceEscape
  split_ifs with hescape hline
  · have hne : c ≠ '\n' := by
      rintro rfl
      exact absurd hescape (by decide)
    exact .inr (mem_oneOf_mul.mpr ⟨'\\', [c], rfl, ⟨c, bne_iff_ne.mpr hne, rfl⟩, rfl⟩)
  · exact .inr (mem_oneOf_mul.mpr ⟨'\\', ['n'], rfl, ⟨'n', rfl, rfl⟩, rfl⟩)
  · exact .inl ⟨c, by simp_all, rfl⟩

theorem Unescapes.sourceEscape_append (c : Char) (h : Unescapes body text) :
    Unescapes (sourceEscape c ++ body) (c :: text) := by
  unfold sourceEscape
  split_ifs with hescape hline
  · rcases hescape with rfl | rfl <;> exact .escape rfl h
  · subst hline
    exact .escape rfl h
  · exact .plain (fun hslash => hescape (.inl hslash)) h

theorem unescapes_sourceEscape (text : List Char) : Unescapes (text.flatMap sourceEscape) text := by
  induction text with
  | nil => exact .nil
  | cons c text ih =>
    rw [List.flatMap_cons]
    exact ih.sourceEscape_append c

theorem word_sourceLiteral (text : String) :
    Word (sourceLiteral text).toList .string text := by
  have hitems : text.toList.flatMap sourceEscape ∈ (literalItem '\x22')∗ := by
    rw [List.flatMap_def]
    refine Language.join_mem_kstar fun item hitem => ?_
    obtain ⟨c, -, rfl⟩ := List.mem_map.mp hitem
    exact sourceEscape_item c
  have hword := word_string hitems (unescapes_sourceEscape text.toList)
  rwa [String.ofList_toList, ← String.toList_ofList (l := '\x22' :: _)] at hword

/-! ## Strings behind an opcode -/

theorem Gap.of_blank (h : ∀ c ∈ gap, Lexeme.isBlank c) : Gap rest gap := by
  induction gap with
  | nil => exact .nil
  | cons c gap ih =>
    obtain ⟨hc, hgap⟩ := List.forall_mem_cons.mp h
    exact .blank hc (ih hgap)

theorem isLongest_word (hx : x ∈ LexemeClass.word.language)
    (hrest : ∀ c ∈ rest.head?, (isLetter c || isDigit c) = false) :
    IsLongest .word x (x ++ rest) := by
  refine ⟨hx, List.prefix_append _ _, fun k y hy hbegin => ?_⟩
  cases rest with
  | nil => simpa using hbegin.length_le
  | cons c rest =>
    obtain ⟨d, x', rfl, hd⟩ := LexemeClass.word.language_starts x hx
    obtain ⟨e, y', rfl, he⟩ := k.language_starts y hy
    obtain ⟨rfl, -⟩ := List.cons_prefix_cons.mp hbegin
    have hk : k = .word := by
      rcases LexemeClass.eq_or_of_starts he hd with rfl | ⟨-, hk⟩ | ⟨-, hk⟩
      · rfl
      · cases hk
      · cases hk
    subst hk
    have hmade : Lexeme.MadeOf LexemeClass.word.language fun c => isLetter c || isDigit c :=
      .mul (.oneOf fun c hc => by simp [hc]) (.kstar (.oneOf fun c hc => hc))
    have hend : c ∉ e :: y' := fun hmem => by
      have hletter : (isLetter c || isDigit c) = true := hmade _ hy c hmem
      rw [hrest c rfl] at hletter
      cases hletter
    exact (prefix_of_not_mem hbegin hend).length_le

theorem not_letter_or_digit (h : Lexeme.isBlank c ∨ c = '\x22') :
    (isLetter c || isDigit c) = false := by
  rcases h with hblank | rfl
  · by_contra hc
    rw [Bool.not_eq_false, Bool.or_eq_true, Lexeme.isLetter_iff, Lexeme.isDigit_iff] at hc
    rw [Lexeme.isBlank_eq_false (.inr (by omega))] at hblank
    cases hblank
  · rfl

/-- An opcode and the literal of a text are two tokens, with or without blanks between them. -/
theorem tokenizes_withLiteral (op : Opcode) (hgap : ∀ c ∈ gap, Lexeme.isBlank c) (text : String) :
    Tokenizes [] [] (op.mnemonic.toList ++ (gap ++ (sourceLiteral text).toList))
      [⟨.mnemonic, op.mnemonic, Span.behind []⟩,
        ⟨.string, text, Span.behind (op.mnemonic.toList ++ gap)⟩] := by
  obtain ⟨hlongest, hmakes⟩ := op.word
  have hname : op.mnemonic.toList ∈ LexemeClass.word.language := (hlongest [] (by simp)).mem
  have hend : ∀ c ∈ (gap ++ (sourceLiteral text).toList ++ []).head?,
      (isLetter c || isDigit c) = false := by
    intro c hc
    apply not_letter_or_digit
    rw [List.append_nil, List.head?_append, Option.mem_def, Option.or_eq_some_iff] at hc
    rcases hc with hc | ⟨-, hc⟩
    · exact .inl (hgap c (List.mem_of_mem_head? hc))
    · rw [sourceLiteral, String.toList_ofList] at hc
      exact .inr (Option.some.inj hc).symm
  have hliteral : Tokenizes [] (op.mnemonic.toList ++ gap) (sourceLiteral text).toList
      [⟨.string, text, Span.behind (op.mnemonic.toList ++ gap)⟩] :=
    (word_sourceLiteral text).tokenizes nofun
  exact .lexeme (isLongest_word hname hend) hmakes (Gap.tokenizes (.of_blank hgap) hliteral)

/-- The literal of a text is one token, a string with the text at the first place. Behind the opcode
that pushes strings it is assembled exactly if the text has at most 65536 bytes: to one instruction
and the text, as they are read back from the stored form. -/
theorem every_text_has_literal (text : String) :
    tokenize (sourceLiteral text) = .ok [⟨.string, text, ⟨1, 1⟩⟩] ∧
    ∀ gap : List Char, (∀ c ∈ gap, Lexeme.isBlank c) →
      ((∃ p, assemble ("push_str" ++ String.ofList gap ++ sourceLiteral text) = .ok p) ↔
        text.utf8ByteSize ≤ 65536) ∧
      ∀ p, assemble ("push_str" ++ String.ofList gap ++ sourceLiteral text) = .ok p →
        p.instructions.toList = [.withOperand .pushStr (.stringIndex 0)] ∧
        p.strings.toList = [text] ∧ p.entry = ⟨0, false⟩ ∧ Program.ofBytes p.toBytes = .ok p := by
  constructor
  · exact (ReadAs.tokens ((word_sourceLiteral text).tokenizes nofun)).tokenize_eq
  intro gap hgap
  let name : Token := ⟨.mnemonic, Opcode.pushStr.mnemonic, Span.behind []⟩
  let literal : Token := ⟨.string, text, Span.behind (Opcode.pushStr.mnemonic.toList ++ gap)⟩
  have hname : name.Names .pushStr := ⟨rfl, Opcode.pushStr.mem_mnemonics⟩
  have hsource : Phrase.Source [name, literal] [.string .pushStr text] :=
    .cons (.string hname rfl rfl) .nil
  have hassemble : assemble ("push_str" ++ String.ofList gap ++ sourceLiteral text) =
      encode [name, literal] := by
    have htext : ("push_str" ++ String.ofList gap ++ sourceLiteral text).toList =
        Opcode.pushStr.mnemonic.toList ++ (gap ++ (sourceLiteral text).toList) := by
      simp [Opcode.mnemonic]
    have hread := tokenizes_withLiteral .pushStr hgap text
    rw [← htext] at hread
    rw [assemble, (ReadAs.tokens hread).tokenize_eq]
  have hbytes : totalBytes (Phrase.texts [.string .pushStr text]) = text.utf8ByteSize := rfl
  rw [hassemble]
  refine ⟨⟨?_, fun hle => ?_⟩, fun p hp => ?_⟩
  · rintro ⟨p, hp⟩
    obtain ⟨φs, hsource', hlimits, -⟩ := Phrase.encode_eq_ok hp
    obtain rfl := hsource.unique hsource'
    exact hbytes ▸ hlimits.bytes_le
  · exact hsource.exists_encode ⟨by simp, hbytes ▸ hle, Nat.zero_le 1⟩
  · obtain ⟨φs, hsource', -, hinstructions, hstrings, hentry⟩ := Phrase.encode_eq_ok hp
    obtain rfl := hsource.unique hsource'
    refine ⟨hinstructions, hstrings, hentry, ?_⟩
    rw [Program.ofBytes, p.load_toBytes]
    rfl

/-- A backslash in front of a mark, what looks like a comment, a letter of two bytes and a newline
are written and read back. -/
theorem every_text_has_literal_commentInside :
    let text := "\\\"; a,\té\n"
    tokenize "\"\\\\\\\"; a,\té\\n\"" = .ok [⟨.string, text, ⟨1, 1⟩⟩] ∧
    ∃ p, assemble "push_str \"\\\\\\\"; a,\té\\n\"" = .ok p ∧
      p.instructions.toList = [.withOperand .pushStr (.stringIndex 0)] ∧
      p.strings.toList = [text] ∧ Program.ofBytes p.toBytes = .ok p := by
  intro text
  have hliteral : sourceLiteral text = "\"\\\\\\\"; a,\té\\n\"" := by decide +kernel
  have hsource : "push_str" ++ String.ofList [' '] ++ sourceLiteral text =
      "push_str \"\\\\\\\"; a,\té\\n\"" := by decide +kernel
  obtain ⟨htoken, hassembled⟩ := every_text_has_literal text
  obtain ⟨haccepted, hprogram⟩ := hassembled [' '] (by simp [Lexeme.isBlank])
  rw [hliteral] at htoken
  rw [hsource] at haccepted hprogram
  obtain ⟨p, hp⟩ := haccepted.mpr (by decide +kernel)
  obtain ⟨hinstructions, hstrings, -, hstored⟩ := hprogram p hp
  exact ⟨htoken, p, hp, hinstructions, hstrings, hstored⟩

end InvariantMachine

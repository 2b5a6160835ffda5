import Mathlib
import InvariantMachine.Proofs.Encoding
import InvariantMachine.Proofs.LexedTokens

/-!
# Why encoding fails

Encoding stops at a token behind phrases that it accepts: either no phrase begins there, for a fault
of that token or of one behind it, or the program has no place for the phrase. The tokens of a
source have few of these faults, and no phrase is refused for its shape or for a string that is
missing.
-/

namespace InvariantMachine

theorem bind_eq_error_iff {ε α β : Type} {x : Except ε α} {f : α → Except ε β} {e : ε} :
    (x >>= f) = .error e ↔ x = .error e ∨ ∃ a, x = .ok a ∧ f a = .error e := by
  cases x <;> simp [bind, Except.bind]

theorem eq_error_of_bind_pure {ε α β : Type} {x : Except ε α} {f : α → β} {e : ε}
    (h : (x >>= fun a => pure (f a)) = .error e) : x = .error e := by
  rcases bind_eq_error_iff.mp h with h | ⟨_, -, ⟨⟩⟩
  exact h

theorem mapError_eq_error_iff {ε ε' α : Type} {x : Except ε α} {f : ε → ε'} {e : ε'} :
    x.mapError f = .error e ↔ ∃ cause, x = .error cause ∧ f cause = e := by
  cases x <;> simp [Except.mapError]

/-! ## Faults of tokens -/

/-- What is reported of a literal that is none. -/
inductive Token.Misread (token : Token) : EncodingError → Prop
  | int (kind : token.kind = .int) (text : Literal.int token.text.toList = .error .invalid) :
      Misread token (token.invalid .integer)
  | overflow (kind : token.kind = .int)
      (text : Literal.int token.text.toList = .error .overflow) : Misread token .overflow
  | float (kind : token.kind = .float) (text : Literal.float? token.text.toList = none) :
      Misread token (token.invalid .float)
  | char (kind : token.kind = .char) (text : Literal.char? token.text.toList = none) :
      Misread token (token.invalid .char)
  | register (kind : token.kind = .register)
      (text : Literal.registerIndex? token.text.toList = none) :
      Misread token (token.invalid .register)
  | beyond {index : Nat} (kind : token.kind = .register)
      (text : Literal.registerIndex? token.text.toList = some index) (bound : 8 ≤ index) :
      Misread token (.registerOutOfRange index 7 token.span.line)

namespace Phrase

/-- What is reported of tokens that begin with no phrase. -/
inductive Fault (head : Token) (following : List Token) : EncodingError → Prop
  | unknown (kind : head.kind = .mnemonic) (text : Opcode.ofMnemonic? head.text = none) :
      Fault head following (.unexpectedToken head.text head.span.line)
  | misplaced (mnemonic : head.kind ≠ .mnemonic) (directive : head.kind ≠ .entryPoint) :
      Fault head following (.unexpectedToken head.shown head.span.line)
  | missing (name : String) : Fault head following (.missingOperand name)
  | malformed {token : Token} (ht : token ∈ following) (name : String) :
      Fault head following (.malformedOperand name token.shown token.span.line)
  | misread {token : Token} {e : EncodingError} (ht : token ∈ following) (h : token.Misread e) :
      Fault head following e
  | offset {token : Token} {v : Int64} (ht : token ∈ following)
      (text : Literal.int token.text.toList = .ok v)
      (range : ¬(0 ≤ v.toInt ∧ v.toInt ≤ 0xffffffff)) :
      Fault head following (token.invalid .entryPoint)

variable {token head : Token} {op : Opcode} {e : EncodingError} {following : List Token}
  {φ : Phrase} {p : Program}

theorem readInt_eq_error (kind : token.kind = .int) (h : token.readInt = .error e) :
    token.Misread e := by
  unfold Token.readInt at h
  split at h
  · cases h
  · cases h
    exact .int kind ‹_›
  · cases h
    exact .overflow kind ‹_›

theorem readRegister_eq_error (kind : token.kind = .register) (h : token.readRegister = .error e) :
    token.Misread e := by
  unfold Token.readRegister at h
  split at h
  · cases h
    exact .register kind ‹_›
  · split at h
    · cases h
    · cases h
      exact .beyond kind ‹_› (Nat.not_lt.mp ‹_›)

theorem readFloat_eq_error (kind : token.kind = .float) (h : token.readFloat = .error e) :
    token.Misread e := by
  unfold Token.readFloat at h
  split at h
  · cases h
  · cases h
    exact .float kind ‹_›

theorem readChar_eq_error (kind : token.kind = .char) (h : token.readChar = .error e) :
    token.Misread e := by
  unfold Token.readChar at h
  split at h
  · cases h
  · cases h
    exact .char kind ‹_›

theorem literal_eq_error (h : literal op token = .error e) :
    token.Misread e ∨ e = malformed op token := by
  unfold literal at h
  split at h
  · exact .inl (readInt_eq_error ‹_› (eq_error_of_bind_pure h))
  · exact .inl (readFloat_eq_error ‹_› (eq_error_of_bind_pure h))
  · exact .inl (readChar_eq_error ‹_› (eq_error_of_bind_pure h))
  · exact .inl (readRegister_eq_error ‹_› (eq_error_of_bind_pure h))
  · cases h
    exact .inr rfl

theorem target_eq_error (h : target op token = .error e) :
    token.Misread e ∨ e = malformed op token := by
  unfold target at h
  split at h
  · exact .inl (readInt_eq_error ‹_› (eq_error_of_bind_pure h))
  · cases h
    exact .inr rfl

theorem destination_eq_error (h : destination op token = .error e) :
    token.Misread e ∨ e = malformed op token := by
  unfold destination at h
  split at h
  · exact .inl (readRegister_eq_error ‹_› h)
  · cases h
    exact .inr rfl

theorem source_eq_error (h : source op token = .error e) :
    token.Misread e ∨ e = malformed op token := by
  unfold source at h
  split at h
  · cases h
  · exact literal_eq_error h

theorem text_eq_error (h : text op token = .error e) : e = malformed op token := by
  unfold text at h
  split at h
  · cases h
  · cases h
    rfl

theorem Fault.of_operand (ht : token ∈ following)
    (h : token.Misread e ∨ e = Phrase.malformed op token) : Fault head following e := by
  rcases h with h | rfl
  · exact .misread ht h
  · exact .malformed ht op.mnemonic

theorem ofOpcode_eq_error (h : ofOpcode op following = .error e) : Fault head following e := by
  unfold ofOpcode at h
  split at h
  · cases h
  · cases h
    exact .missing op.mnemonic
  · exact .of_operand List.mem_cons_self (target_eq_error (eq_error_of_bind_pure h))
  · exact .of_operand List.mem_cons_self (literal_eq_error (eq_error_of_bind_pure h))
  · exact .of_operand List.mem_cons_self (.inr (text_eq_error (eq_error_of_bind_pure h)))
  · rcases bind_eq_error_iff.mp h with h | ⟨_, -, h⟩
    · exact .of_operand List.mem_cons_self (destination_eq_error h)
    · split at h
      · cases h
        exact .missing op.mnemonic
      · exact .of_operand (List.mem_cons_of_mem _ List.mem_cons_self)
          (source_eq_error (eq_error_of_bind_pure h))

theorem ofDirective_eq_error (h : ofDirective head following = .error e) :
    Fault head following e := by
  unfold ofDirective at h
  split at h
  · cases h
    exact .missing entryDirective
  · rename_i token rest
    split at h
    · rename_i kind
      rcases bind_eq_error_iff.mp h with h | ⟨v, hv, h⟩
      · exact .misread List.mem_cons_self (readInt_eq_error kind h)
      · dsimp only at h
        split at h
        · cases h
        · rename_i range
          cases h
          exact .offset List.mem_cons_self (Token.readInt_eq_ok_iff.mp hv) range
    · cases h
      exact .malformed List.mem_cons_self entryDirective

theorem read_eq_error (h : read head following = .error e) : Fault head following e := by
  unfold read at h
  split at h
  · rename_i kind
    split at h
    · exact ofOpcode_eq_error h
    · cases h
      exact .unknown kind ‹_›
  · exact ofDirective_eq_error h
  · cases h
    exact .misplaced ‹_› ‹_›

/-! ## Refusals of programs -/

/-- What is reported of a phrase that a program has no place for. -/
inductive Refusal : EncodingError → Prop
  | capacity (cause : CapacityExceeded) : Refusal (.capacity cause)
  | duplicateEntryPoint (line : Nat) : Refusal (.duplicateEntryPoint line)

theorem refusal_of_push {i : Instruction} (hwell : i.isWellFormed)
    (hrefers : i.RefersBelow p.parts.strings.length)
    (h : (p.push i).mapError .ofProgramError = .error e) : Refusal e := by
  obtain ⟨cause, hcause, rfl⟩ := mapError_eq_error_iff.mp h
  obtain ⟨-, rfl⟩ := Program.push_eq_error hwell hrefers hcause
  exact .capacity _

theorem Spelled.addTo_eq_error {piece : List Token} (hspelled : Spelled piece φ)
    (h : φ.addTo p = .error e) : Refusal e := by
  cases φ with
  | instruction i => exact refusal_of_push hspelled.wellFormed (hspelled.refersBelow _) h
  | string op text =>
    have hshape : op.shape = .stringRef := by
      cases hspelled
      assumption
    rcases bind_eq_error_iff.mp h with h | ⟨⟨k, p'⟩, hintern, hpush⟩
    · obtain ⟨cause, -, rfl⟩ := mapError_eq_error_iff.mp h
      exact .capacity cause
    · exact refusal_of_push ((Instruction.isWellFormed_iff _).mpr (.stringRef k hshape))
        (Program.refersBelow_of_intern (mapError_eq_ok_iff.mp hintern) op) hpush
  | entryPoint offset line =>
    simp only [addTo] at h
    split at h
    · cases h
      exact .duplicateEntryPoint line
    · refine refusal_of_push (i := .bare .nop) rfl ?_ h
      intro k hk
      cases hk

/-- Encoding stops at a token behind phrases that it accepts: no phrase begins there, or the
program refuses the one that does. -/
theorem encodeOnto_eq_error {tokens : List Token} (h : encodeOnto p 0 tokens = .error e) :
    ∃ before head following q, tokens = before ++ head :: following ∧
      encodeOnto p 0 before = .ok q ∧ (read head following = .error e ∨ Refusal e) := by
  induction hn : tokens.length using Nat.strong_induction_on generalizing p tokens with
  | _ n ih =>
    cases tokens with
    | nil => cases h
    | cons head following =>
      cases hread : read head following with
      | error e' =>
        simp only [encodeOnto, hread] at h
        cases h
        exact ⟨[], head, following, p, rfl, rfl, .inl hread⟩
      | ok φ =>
        obtain ⟨operands, rest, rfl, -, hspelled⟩ := read_eq_ok hread
        rw [← List.cons_append, hspelled.encodeOnto_append] at h
        rcases bind_eq_error_iff.mp h with hadd | ⟨p', hp', hrest⟩
        · exact ⟨[], head, operands ++ rest, p, rfl, rfl, .inr (hspelled.addTo_eq_error hadd)⟩
        · -- what is left behind the phrase is shorter
          have hlt : rest.length < n := by
            simp only [List.length_cons, List.length_append] at hn
            omega
          obtain ⟨before, head', following', q, rfl, hbefore, hstop⟩ := ih rest.length hlt hrest rfl
          refine ⟨(head :: operands) ++ before, head', following', q, ?_, ?_, hstop⟩
          · rw [← List.cons_append, List.append_assoc]
          · rw [hspelled.encodeOnto_append, hp']
            exact hbefore

/-- What is reported of tokens whose texts are what their kinds call for is no literal of a float or
of a character, and no mnemonic that is unknown. -/
theorem Fault.of_fitsKind (h : Fault head following e)
    (hfits : ∀ token ∈ head :: following, token.FitsKind) :
    (∀ text line, e ≠ .invalidLiteral .float text line) ∧
      (∀ text line, e ≠ .invalidLiteral .char text line) ∧
      ∀ found line, e = .unexpectedToken found line →
        head.kind ≠ .mnemonic ∧ found = head.shown ∧ line = head.span.line := by
  obtain ⟨hhead, hfollowing⟩ := List.forall_mem_cons.mp hfits
  cases h with
  | unknown kind text =>
    obtain ⟨op, hop⟩ := hhead.mnemonic kind
    rw [text] at hop
    cases hop
  | misplaced mnemonic directive =>
    refine ⟨by simp, by simp, ?_⟩
    intro found line h
    cases h
    exact ⟨mnemonic, rfl, rfl⟩
  | missing | malformed => simp
  | misread ht h =>
    have htoken := hfollowing _ ht
    cases h with
    | int | register => simp [Token.invalid]
    | overflow | beyond => simp
    | float kind text =>
      obtain ⟨v, hv⟩ := htoken.float kind
      rw [text] at hv
      cases hv
    | char kind text =>
      obtain ⟨c, hc⟩ := htoken.char kind
      rw [hc] at text
      cases text
  | offset => simp [Token.invalid]

theorem Fault.ne (h : Fault head following e) :
    (∀ cause, e ≠ .program cause) ∧ ∀ cause, e ≠ .lex cause := by
  cases h with
  | unknown | misplaced | missing | malformed => simp
  | offset => simp [Token.invalid]
  | misread ht h => cases h <;> simp [Token.invalid]

end Phrase

open Phrase in
/-- The tokens of a source have texts that their kinds call for. When encoding stops in them, it is
neither at a float nor at a character that is no literal, and a token that was not expected is no
mnemonic. Encoding no tokens, wherever they come from, is refused for the shape of an instruction,
for a string that is missing or for the text of a source. -/
theorem tokens_fit_encoding :
    (∀ source tokens, tokenize source = .ok tokens →
      (∀ token ∈ tokens, token.FitsKind) ∧
      ∀ e, encode tokens = .error e →
        (∀ text line, e ≠ .invalidLiteral .float text line) ∧
        (∀ text line, e ≠ .invalidLiteral .char text line) ∧
        ∀ found line, e = .unexpectedToken found line →
          ∃ before head following p, tokens = before ++ head :: following ∧
            encode before = .ok p ∧ read head following = .error e ∧
            head.kind ≠ .mnemonic ∧ found = head.shown ∧ line = head.span.line) ∧
    ∀ tokens e, encode tokens = .error e →
      (∀ cause, e ≠ .program cause) ∧ ∀ cause, e ≠ .lex cause := by
  refine ⟨fun source tokens htokens => ?_, fun tokens e h => ?_⟩
  · have hfits := (tokenizes_of_tokenize_eq_ok htokens).fitsKind
    refine ⟨hfits, fun e h => ?_⟩
    obtain ⟨before, head, following, p, rfl, hbefore, hread | hrefusal⟩ := encodeOnto_eq_error h
    · obtain ⟨hfloat, hchar, hunexpected⟩ := (read_eq_error hread).of_fitsKind
        fun token ht => hfits token (List.mem_append_right before ht)
      exact ⟨hfloat, hchar, fun found line he =>
        ⟨before, head, following, p, rfl, hbefore, hread, hunexpected found line he⟩⟩
    · cases hrefusal <;> exact ⟨nofun, nofun, nofun⟩
  · obtain ⟨-, head, following, -, -, -, hread | hrefusal⟩ := encodeOnto_eq_error h
    · exact (read_eq_error hread).ne
    · cases hrefusal <;> simp

/-- An instruction ends before the literal that no instruction takes, so the literal is reported. -/
theorem tokens_fit_encoding_strayLiteral :
    ∃ tokens, tokenize "push 2.5\nmov r0 'a' 4" = .ok tokens ∧
      encode tokens = .error (.unexpectedToken "4" 2) ∧ (∀ token ∈ tokens, token.FitsKind) ∧
      (∃ head ∈ tokens, head.kind ≠ .mnemonic ∧ "4" = head.shown ∧ 2 = head.span.line) ∧
      ∀ cause, EncodingError.unexpectedToken "4" 2 ≠ .program cause := by
  have htokens : tokenize "push 2.5\nmov r0 'a' 4" = .ok
      [⟨.mnemonic, "push", ⟨1, 1⟩⟩, ⟨.float, "2.5", ⟨1, 6⟩⟩, ⟨.mnemonic, "mov", ⟨2, 1⟩⟩,
        ⟨.register, "r0", ⟨2, 5⟩⟩, ⟨.char, "a", ⟨2, 8⟩⟩, ⟨.int, "4", ⟨2, 12⟩⟩] := by
    decide +kernel
  have hencode : encode
      [⟨.mnemonic, "push", ⟨1, 1⟩⟩, ⟨.float, "2.5", ⟨1, 6⟩⟩, ⟨.mnemonic, "mov", ⟨2, 1⟩⟩,
        ⟨.register, "r0", ⟨2, 5⟩⟩, ⟨.char, "a", ⟨2, 8⟩⟩, ⟨.int, "4", ⟨2, 12⟩⟩] =
      .error (.unexpectedToken "4" 2) := by
    decide +kernel
  obtain ⟨hsource, hany⟩ := tokens_fit_encoding
  obtain ⟨hfits, herror⟩ := hsource _ _ htokens
  obtain ⟨before, head, following, p, htokens', -, -, hstop⟩ :=
    (herror _ hencode).2.2 _ _ rfl
  have hmem : head ∈ before ++ head :: following :=
    List.mem_append_right before List.mem_cons_self
  exact ⟨_, htokens, hencode, hfits, ⟨head, htokens' ▸ hmem, hstop⟩, (hany _ _ hencode).1⟩

end InvariantMachine

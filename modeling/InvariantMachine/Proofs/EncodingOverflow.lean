import Mathlib
import InvariantMachine.Machine.Config
import InvariantMachine.Proofs.DenotedNumbers

/-!
# Where encoding leaves the range of its numbers

Encoding computes with numbers at two places: a minus sign takes the opposite of a magnitude, and a
text adds its bytes to those of the pool. The digits behind a minus sign may have a sign of their
own, so a magnitude is any integer of 128 bits, and the least has no opposite. Encoding is broken
off exactly where this opposite is asked for, and no source comes to it.
-/

namespace InvariantMachine

open Lexeme (isDigit isHexDigit many mem_many)

variable {token head : Token} {op : Opcode} {p q : Program} {tokens before following : List Token}
  {cs : List Char}

/-! ## Magnitudes without an opposite -/

namespace Literal

/-- A minus sign in front of digits that have a minus sign of their own, and the number that the
digits write. -/
inductive NegatesTwice : List Char → Nat → Prop
  | decimal {ds : List Char} (digits : ds ∈ many isDigit) :
      NegatesTwice ('-' :: '-' :: ds) (positional 10 ds)
  | hexadecimal {x : Char} {ds : List Char} (mark : x = 'x' ∨ x = 'X')
      (digits : ds ∈ many isHexDigit) :
      NegatesTwice ('-' :: '0' :: x :: '-' :: ds) (positional 16 ds)

theorem range_of_readInt? {base : Nat} {least most i : Int}
    (h : readInt? base least most cs = some i) : least ≤ i ∧ i ≤ most := by
  have hrange := (Option.filter_eq_some_iff.mp h).2
  simpa using hrange

theorem readInt?_eq_negative_iff {base : Nat} {least most : Int} {n : Nat} (hn : 0 < n)
    (hleast : least ≤ -n) (hmost : 0 ≤ most) :
    readInt? base least most cs = some (-n : Int) ↔
      ∃ ds, cs = '-' :: ds ∧ readDigits? base ds = some n := by
  constructor
  · intro h
    have hvalue := (Option.filter_eq_some_iff.mp h).1
    split at hvalue <;> obtain ⟨m, hm, heq⟩ := Option.map_eq_some_iff.mp hvalue <;>
      obtain ⟨k, hk, hkm⟩ := Option.bind_eq_some_iff.mp hm <;> obtain rfl := Option.some.inj hkm
    · omega
    · rename_i ds
      obtain rfl : k = n := by omega
      exact ⟨ds, rfl, hk⟩
    · omega
  · rintro ⟨ds, rfl, hread⟩
    have hle : -(n : Int) ≤ most := by omega
    simp [readInt?, hread, Option.filter, hleast, hle]

theorem range_of_signedMagnitude? {negative : Bool} {m : Int}
    (h : signedMagnitude? cs = some (negative, m)) :
    leastMagnitude ≤ m ∧ m ≤ greatestMagnitude := by
  simp only [signedMagnitude?] at h
  obtain ⟨m', hread, heq⟩ := Option.map_eq_some_iff.mp h
  obtain rfl : m' = m := (Prod.mk.inj heq).2
  split at hread <;> exact range_of_readInt? hread

theorem opposite?_eq_none_iff {m : Int} (hleast : leastMagnitude ≤ m)
    (hgreatest : m ≤ greatestMagnitude) : opposite? m = none ↔ m = leastMagnitude := by
  rw [opposite?, ite_eq_right_iff]
  simp only [leastMagnitude, greatestMagnitude] at *
  simp only [reduceCtorEq, imp_false]
  omega

/-- The opposite of the least magnitude is asked for exactly where a number is negated twice. -/
theorem signedMagnitude?_least_iff :
    signedMagnitude? cs = some (true, leastMagnitude) ↔ NegatesTwice cs (2 ^ 127) := by
  have hread (base : Nat) (digits : List Char) :
      readInt? base leastMagnitude greatestMagnitude digits = some leastMagnitude ↔
        ∃ ds, digits = '-' :: ds ∧ readDigits? base ds = some (2 ^ 127) :=
    readInt?_eq_negative_iff (n := 2 ^ 127) (by decide) (by decide) (by decide)
  have hhexadecimal {x : Char} {digits : List Char} (mark : x = 'x' ∨ x = 'X')
      (h : readInt? 16 leastMagnitude greatestMagnitude digits = some leastMagnitude) :
      NegatesTwice ('-' :: '0' :: x :: digits) (2 ^ 127) := by
    obtain ⟨ds, rfl, hds⟩ := (hread 16 _).mp h
    obtain ⟨hdigits, hvalue⟩ := readDigits?_sixteen_iff.mp hds
    exact hvalue ▸ .hexadecimal mark hdigits
  constructor
  · intro h
    simp only [signedMagnitude?] at h
    obtain ⟨m, hm, heq⟩ := Option.map_eq_some_iff.mp h
    obtain ⟨hnegative, rfl⟩ := Prod.mk.inj heq
    split at hnegative
    · rename_i body
      split at hm
      · rename_i hbody
        obtain rfl : body = _ := hbody
        exact hhexadecimal (.inl rfl) hm
      · rename_i hbody
        obtain rfl : body = _ := hbody
        exact hhexadecimal (.inr rfl) hm
      · obtain ⟨ds, rfl, hds⟩ := (hread 10 _).mp hm
        obtain ⟨digits, hvalue⟩ := readDigits?_ten_iff.mp hds
        exact hvalue ▸ .decimal digits
    · cases hnegative
  · generalize hn : 2 ^ 127 = n
    rintro (digits | ⟨mark, digits⟩)
    · have hm := (hread 10 _).mpr ⟨_, rfl, readDigits?_ten_iff.mpr ⟨digits, hn.symm⟩⟩
      simp [signedMagnitude?, hm]
    · have hm := (hread 16 _).mpr
        ⟨_, rfl, readDigits?_sixteen_iff.mpr ⟨digits, hn.symm⟩⟩
      rcases mark with rfl | rfl <;> simp [signedMagnitude?, hm]

theorem int_eq_overflow_iff : int cs = .error .overflow ↔ NegatesTwice cs (2 ^ 127) := by
  rw [← signedMagnitude?_least_iff]
  constructor
  · intro h
    unfold int at h
    split at h
    · cases h
    · rename_i negative m hm
      obtain ⟨hleast, hgreatest⟩ := range_of_signedMagnitude? hm
      split at h
      · rename_i hnone
        cases negative with
        | false => cases hnone
        | true => rw [hm, (opposite?_eq_none_iff hleast hgreatest).mp hnone]
      · split at h <;> cases h
  · intro h
    have hnone : opposite? leastMagnitude = none := by decide
    simp [int, h, hnone]

end Literal

open Literal (NegatesTwice)

/-- The token is an integer whose sign asks for the opposite of the least magnitude. -/
def Token.Overflows (token : Token) : Prop :=
  token.kind = .int ∧ NegatesTwice token.text.toList (2 ^ 127)

/-! ## Phrases -/

namespace Phrase

/-- The tokens begin a phrase that an integer may go on with. -/
inductive AwaitsInt : List Token → Prop
  | target {head : Token} {op : Opcode} (name : head.Names op) (shape : op.shape = .target) :
      AwaitsInt [head]
  | literal {head : Token} {op : Opcode} (name : head.Names op) (shape : op.shape = .literal) :
      AwaitsInt [head]
  | move {head register : Token} {op : Opcode} {r : UInt8} (name : head.Names op)
      (shape : op.shape = .move) (destination : register.Denotes (.register r)) :
      AwaitsInt [head, register]
  | entryPoint {head : Token} (directive : head.kind = .entryPoint) : AwaitsInt [head]

theorem overflows_of_misread (h : token.Misread .overflow) : token.Overflows := by
  generalize he : EncodingError.overflow = e at h
  cases h with
  | overflow kind text => exact ⟨kind, Literal.int_eq_overflow_iff.mp text⟩
  | int | float | char | register | beyond => cases he

theorem overflows_of_operand (h : token.Misread .overflow ∨ .overflow = malformed op token) :
    token.Overflows := by
  rcases h with h | h
  · exact overflows_of_misread h
  · cases h

theorem readInt_of_overflows (h : token.Overflows) : token.readInt = .error .overflow :=
  Token.readInt_eq_overflow_iff.mpr (Literal.int_eq_overflow_iff.mpr h.2)

theorem literal_of_overflows (op : Opcode) (h : token.Overflows) :
    literal op token = .error .overflow := by
  simp only [literal, h.1, readInt_of_overflows h]
  rfl

theorem target_of_overflows (op : Opcode) (h : token.Overflows) :
    target op token = .error .overflow := by
  simp only [target, h.1, readInt_of_overflows h]
  rfl

theorem destination_ne_overflow : destination op token ≠ .error .overflow := by
  intro h
  obtain ⟨kind, -⟩ := overflows_of_operand (destination_eq_error h)
  simp [destination, kind, malformed] at h

theorem ofOpcode_eq_overflow (name : head.Names op)
    (h : ofOpcode op following = .error .overflow) :
    ∃ operands token rest, following = operands ++ token :: rest ∧
      AwaitsInt (head :: operands) ∧ token.Overflows := by
  unfold ofOpcode at h
  split at h
  · cases h
  · cases h
  · rename_i token rest shape
    have htoken := overflows_of_operand (target_eq_error (eq_error_of_bind_pure h))
    exact ⟨[], token, rest, rfl, .target name shape, htoken⟩
  · rename_i token rest shape
    have htoken := overflows_of_operand (literal_eq_error (eq_error_of_bind_pure h))
    exact ⟨[], token, rest, rfl, .literal name shape, htoken⟩
  · cases text_eq_error (eq_error_of_bind_pure h)
  · rename_i register rest shape
    rcases bind_eq_error_iff.mp h with h | ⟨r, hr, h⟩
    · exact absurd h destination_ne_overflow
    · have hregister := destination_eq_ok_iff.mp hr
      cases rest with
      | nil => cases h
      | cons token rest =>
        have htoken := overflows_of_operand (source_eq_error (eq_error_of_bind_pure h))
        exact ⟨[register], token, rest, rfl, .move name shape hregister, htoken⟩

theorem ofDirective_eq_overflow (directive : head.kind = .entryPoint)
    (h : ofDirective head following = .error .overflow) :
    ∃ token rest, following = token :: rest ∧ AwaitsInt [head] ∧ token.Overflows := by
  cases following with
  | nil => cases h
  | cons token rest =>
    simp only [ofDirective] at h
    split at h
    · rename_i kind
      rcases bind_eq_error_iff.mp h with h | ⟨v, -, h⟩
      · have htoken := overflows_of_misread (readInt_eq_error kind h)
        exact ⟨token, rest, rfl, .entryPoint directive, htoken⟩
      · split at h <;> cases h
    · cases h

theorem read_eq_overflow (h : read head following = .error .overflow) :
    ∃ operands token rest, following = operands ++ token :: rest ∧
      AwaitsInt (head :: operands) ∧ token.Overflows := by
  unfold read at h
  split at h
  · rename_i kind
    split at h
    · rename_i op hop
      exact ofOpcode_eq_overflow ⟨kind, Opcode.ofMnemonic?_eq_some_iff.mp hop⟩ h
    · cases h
  · rename_i directive
    obtain ⟨token, rest, rfl, hawaits, htoken⟩ := ofDirective_eq_overflow directive h
    exact ⟨[], token, rest, rfl, hawaits, htoken⟩
  · cases h

theorem AwaitsInt.read_append {opening : List Token} (h : AwaitsInt opening)
    (htoken : token.Overflows) (rest : List Token) :
    ∃ head operands, opening = head :: operands ∧
      read head (operands ++ token :: rest) = .error .overflow := by
  cases h with
  | @target head op name shape =>
    refine ⟨head, [], rfl, ?_⟩
    rw [read_of_names name]
    simp only [ofOpcode, shape, List.nil_append, target_of_overflows op htoken]
    rfl
  | @literal head op name shape =>
    refine ⟨head, [], rfl, ?_⟩
    rw [read_of_names name]
    simp only [ofOpcode, shape, List.nil_append, literal_of_overflows op htoken]
    rfl
  | @move head register op r name shape hregister =>
    have hsource : source op token = .error .overflow := by
      simp only [source, htoken.1]
      exact literal_of_overflows op htoken
    refine ⟨head, [register], rfl, ?_⟩
    rw [read_of_names name]
    simp only [ofOpcode, shape, List.singleton_append, destination_eq_ok_iff.mpr hregister, hsource]
    rfl
  | @entryPoint head directive =>
    refine ⟨head, [], rfl, ?_⟩
    simp only [read, directive, ofDirective, List.nil_append, htoken.1,
      readInt_of_overflows htoken]
    rfl

theorem encodeOnto_append (h : encodeOnto p 0 before = .ok q) (rest : List Token) :
    encodeOnto p 0 (before ++ rest) = encodeOnto q 0 rest := by
  obtain ⟨φs, hsource⟩ := exists_source h
  induction hsource generalizing p with
  | nil =>
    cases h
    rfl
  | cons hfirst _ ih =>
    rw [hfirst.encodeOnto_append] at h
    obtain ⟨p', hp', hothers⟩ := bind_eq_ok_iff.mp h
    rw [List.append_assoc, hfirst.encodeOnto_append, hp']
    exact ih hothers

end Phrase

/-! ## Token lists -/

namespace Literal

theorem Magnitude.minus_notMem {n : Nat} (h : Magnitude cs n) : '-' ∉ cs := by
  intro hmem
  cases h with
  | decimal digits => exact absurd ((mem_many.mp digits).2 _ hmem) (by decide)
  | hexadecimal mark digits =>
    have hdigits : '-' ∉ _ := fun h => absurd ((mem_many.mp digits).2 _ h) (by decide)
    rcases mark with rfl | rfl <;> simp [hdigits] at hmem

/-- An integer of a source has one minus sign at most. -/
theorem NegatesTwice.not_writes {n : Nat} {i : Int} (h : NegatesTwice cs n) : ¬ Writes cs i := by
  obtain ⟨rest, rfl, hmem⟩ : ∃ rest, cs = '-' :: rest ∧ '-' ∈ rest := by
    cases h <;> exact ⟨_, rfl, by simp⟩
  rintro (magnitude | magnitude)
  · exact magnitude.minus_notMem List.mem_cons_self
  · exact magnitude.minus_notMem hmem

end Literal

theorem Tokenizes.mem_int {rest before text : List Char} (h : Tokenizes rest before text tokens) :
    ∀ token ∈ tokens, token.kind = .int → token.text.toList ∈ LexemeClass.int.language := by
  induction h with
  | gap => exact nofun
  | token _ lexeme makes _ ih =>
    refine List.forall_mem_cons.mpr ⟨?_, ih⟩
    rintro rfl
    cases makes
    rw [String.toList_ofList]
    exact lexeme.mem

theorem encode_eq_overflow (h : encode tokens = .error .overflow) :
    ∃ before opening token following p, tokens = before ++ (opening ++ token :: following) ∧
      encode before = .ok p ∧ Phrase.AwaitsInt opening ∧ token.Overflows := by
  obtain ⟨before, head, following, p, rfl, hbefore, hread | hrefusal⟩ :=
    Phrase.encodeOnto_eq_error h
  · obtain ⟨operands, token, rest, rfl, hawaits, htoken⟩ := Phrase.read_eq_overflow hread
    exact ⟨before, head :: operands, token, rest, p, rfl, hbefore, hawaits, htoken⟩
  · cases hrefusal

/-- A program has room for the text of any token that an array of bytes holds. -/
theorem Program.byteSize_add_le (p : Program) {text : String} (h : text.utf8ByteSize < 2 ^ 63) :
    p.strings.byteSize + text.utf8ByteSize ≤ greatestSize := by
  have hbytes := p.strings.byteSize_le
  simp only [maxStringBytes] at hbytes
  simp only [greatestSize]
  omega

/-- Encoding is broken off by a number out of its range exactly if, behind phrases that it accepts,
a phrase goes on with an integer that has a minus sign in front of `2 ^ 127` with a minus sign of
its own. The sizes of texts stay in their range, as long as an array of bytes holds the texts, and
the tokens of a source are never broken off. -/
theorem encoding_overflows_iff (tokens : List Token) :
    (encode tokens = .error .overflow ↔ ∃ before opening token following p,
      tokens = before ++ (opening ++ token :: following) ∧ encode before = .ok p ∧
      Phrase.AwaitsInt opening ∧ token.kind = .int ∧
      NegatesTwice token.text.toList (2 ^ 127)) ∧
    (∀ before following p, tokens = before ++ following → encode before = .ok p →
      ∀ token ∈ following, token.text.utf8ByteSize < 2 ^ 63 →
        p.strings.byteSize + token.text.utf8ByteSize ≤ greatestSize) ∧
    ∀ source, tokenize source = .ok tokens → encode tokens ≠ .error .overflow := by
  refine ⟨⟨encode_eq_overflow, ?_⟩, ?_, ?_⟩
  · rintro ⟨before, opening, token, following, p, rfl, hbefore, hawaits, htoken⟩
    obtain ⟨head, operands, rfl, hread⟩ := hawaits.read_append htoken following
    have happend := Phrase.encodeOnto_append hbefore (head :: operands ++ token :: following)
    rw [encode, happend]
    simp [encodeOnto, hread]
  · intro before following p _ _ token _ hstorable
    exact p.byteSize_add_le hstorable
  · intro source htokens h
    obtain ⟨before, opening, token, following, p, rfl, -, -, kind, hnegates⟩ := encode_eq_overflow h
    have hint := (tokenizes_of_tokenize_eq_ok htokens).mem_int token (by simp) kind
    obtain ⟨i, hi⟩ := Literal.exists_writes_iff.mpr hint
    exact hnegates.not_writes hi

private def pushInt (text : String) : List Token :=
  [⟨.mnemonic, "push", ⟨1, 1⟩⟩, ⟨.int, text, ⟨1, 6⟩⟩]

/-- Decimal and hexadecimal texts ask for the opposite of the least magnitude. The pool takes such a
text as any other, and the least integer of a source is encoded. -/
theorem encoding_overflows_iff_leastMagnitude :
    encode (pushInt "--170141183460469231731687303715884105728") = .error .overflow ∧
    encode (pushInt "-0x-80000000000000000000000000000000") = .error .overflow ∧
    (∀ token ∈ pushInt "-0x-80000000000000000000000000000000",
      Program.empty.strings.byteSize + token.text.utf8ByteSize ≤ greatestSize) ∧
    encode (pushInt "-0x8000000000000000") ≠ .error .overflow := by
  have hoverflows (text : String) (h : Literal.int text.toList = .error .overflow) :
      encode (pushInt text) = .error .overflow := by
    have hname : Token.Names ⟨.mnemonic, "push", ⟨1, 1⟩⟩ .push := ⟨rfl, by decide⟩
    exact (encoding_overflows_iff (pushInt text)).1.mpr ⟨[], _, _, [], .empty, rfl, rfl,
      .literal hname rfl, rfl, Literal.int_eq_overflow_iff.mp h⟩
  refine ⟨hoverflows _ (by decide +kernel), hoverflows _ (by decide +kernel), ?_, ?_⟩
  · intro token ht
    have hstorable : ∀ token ∈ pushInt "-0x-80000000000000000000000000000000",
        token.text.utf8ByteSize < 2 ^ 63 := by decide
    exact (encoding_overflows_iff _).2.1 [] _ .empty rfl rfl token ht (hstorable token ht)
  · have hread : tokenize "push -0x8000000000000000" = .ok (pushInt "-0x8000000000000000") := by
      decide +kernel
    exact (encoding_overflows_iff _).2.2 _ hread

/-- Encoding tokens need not come to a program or to a report. -/
theorem encoding_without_result :
    ¬ ∀ tokens : List Token, (∀ token ∈ tokens, token.text.utf8ByteSize < 2 ^ 63) →
      encode tokens ≠ .error .overflow := by
  intro h
  have hoverflows : encode (pushInt "--170141183460469231731687303715884105728") =
      .error .overflow := by
    decide +kernel
  exact h (pushInt "--170141183460469231731687303715884105728") (by decide) hoverflows

end InvariantMachine

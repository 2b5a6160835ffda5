import Mathlib
import InvariantMachine.Assembly.Tokenize
import InvariantMachine.Proofs.Grammar
import InvariantMachine.Proofs.LexicalClasses

/-!
# What the tokenizer reads

A source is gaps and lexemes in turn. Every lexeme is the longest that stands at its place, its
token carries the name and the text of the lexeme and the line and the column of the place. The
tokens of a source are those of such a reading, and an error stands at the first place that no
reading gets past.
-/

namespace InvariantMachine

/-! ## Places -/

namespace Span

/-- The place behind a text: its line from the newlines, its column from the bytes that stand
behind the last of these. -/
def behind (before : List Char) : Span :=
  ⟨1 + before.count '\n', 1 + ((before.rtakeWhile (· != '\n')).map Char.utf8Size).sum⟩

theorem behind_concat (before : List Char) (c : Char) :
    behind (before ++ [c]) = (behind before).after c := by
  by_cases hc : c = '\n'
  · subst hc
    simp [behind, after, Nat.add_comm, Nat.add_left_comm]
  · simp [behind, after, hc, Nat.add_assoc]

end Span

/-! ## Names -/

/-- A literal and what it stands for: its characters, and the meanings of its escapes. -/
inductive Unescapes : List Char → List Char → Prop
  | nil : Unescapes [] []
  | plain {c : Char} {body text : List Char} (hc : c ≠ '\\') (h : Unescapes body text) :
      Unescapes (c :: body) (c :: text)
  | escape {c d : Char} {body text : List Char} (hc : escapeMeaning? c = some d)
      (h : Unescapes body text) : Unescapes ('\\' :: c :: body) (d :: text)

theorem Unescapes.unescapeOnto_eq {body text : List Char} (h : Unescapes body text)
    (done : List Char) : unescapeOnto done body = some (done.reverse ++ text) := by
  induction h generalizing done with
  | nil => simp [unescapeOnto]
  | @plain c body text hc h ih =>
    rw [unescapeOnto, ih]
    · simp
    · exact fun heq _ => (hc heq).elim
    · exact fun _ _ heq _ => (hc heq).elim
  | escape hc h ih =>
    rw [unescapeOnto, hc]
    simp [ih]

theorem exists_unescapes {done body text : List Char} (h : unescapeOnto done body = some text) :
    ∃ tail, Unescapes body tail := by
  fun_induction unescapeOnto done body with
  | case1 => exact ⟨[], .nil⟩
  | case2 => cases h
  | case3 done c cs d hd ih =>
    obtain ⟨tail, htail⟩ := ih h
    exact ⟨_, .escape hd htail⟩
  | case4 => cases h
  | case5 done c cs hend hescape ih =>
    obtain ⟨tail, htail⟩ := ih h
    refine ⟨_, .plain ?_ htail⟩
    rintro rfl
    cases cs with
    | nil => exact hend rfl rfl
    | cons d cs => exact hescape d cs rfl rfl

theorem literalBody?_eq_some_iff {mark : Char} {body : List Char} {shown : String} :
    literalBody? (mark :: (body ++ [mark])) = some shown ↔
      ∃ text, Unescapes body text ∧ shown = String.ofList text := by
  rw [literalBody?, List.drop_one, List.tail_cons, List.dropLast_concat, Option.map_eq_some_iff]
  constructor
  · rintro ⟨text, htext, rfl⟩
    obtain ⟨tail, htail⟩ := exists_unescapes htext
    rw [htail.unescapeOnto_eq] at htext
    exact ⟨tail, htail, congrArg String.ofList (Option.some.inj htext).symm⟩
  · rintro ⟨text, htext, rfl⟩
    exact ⟨text, htext.unescapeOnto_eq [], rfl⟩

/-- The class that a kind of token is made from. -/
def TokenKind.lexemeClass : TokenKind → LexemeClass
  | mnemonic | register | top => .word
  | entryPoint => .directive
  | int => .int
  | float => .float
  | char => .char
  | string => .string

/-- A lexeme makes a token of a kind with a text: the lexeme itself, or what a literal stands
for. -/
inductive Makes : List Char → TokenKind → String → Prop
  | top {x : List Char} (h : asciiLowerAll (String.ofList x) = "top") :
      Makes x .top (String.ofList x)
  | register {r : Char} {digits : List Char} (mark : r = 'r' ∨ r = 'R')
      (h : digits ∈ Lexeme.many Lexeme.isDigit) :
      Makes (r :: digits) .register (String.ofList (r :: digits))
  | mnemonic {x : List Char} {op : Opcode}
      (h : (asciiLowerAll (String.ofList x), op) ∈ Opcode.mnemonics) :
      Makes x .mnemonic (String.ofList x)
  | entryPoint {x : List Char} (h : asciiLowerAll (String.ofList x) ∈ ["@entrypoint", ".entry"]) :
      Makes x .entryPoint (String.ofList x)
  | int {x : List Char} : Makes x .int (String.ofList x)
  | float {x : List Char} : Makes x .float (String.ofList x)
  | char {body text : List Char} (h : Unescapes body text) :
      Makes ('\x27' :: (body ++ ['\x27'])) .char (String.ofList text)
  | string {body text : List Char} (h : Unescapes body text) :
      Makes ('\x22' :: (body ++ ['\x22'])) .string (String.ofList text)

theorem Opcode.mnemonic_ne_top : ∀ entry ∈ Opcode.mnemonics, entry.1 ≠ "top" := by
  decide

theorem Opcode.mnemonic_second : ∀ entry ∈ Opcode.mnemonics,
    entry.1.toList[1]?.any Lexeme.isDigit = false := by
  decide

theorem asciiLower_of_isDigit {c : Char} (hc : Lexeme.isDigit c) : asciiLower c = c := by
  have hcapital : ¬ ('A' ≤ c ∧ c ≤ 'Z') := by
    rintro ⟨hle, -⟩
    rw [Char.le_def, UInt32.le_iff_toNat_le] at hle
    exact absurd (hle.trans (Lexeme.isDigit_iff.mp hc).2) (by decide)
  rw [asciiLower, if_neg hcapital]

theorem second_of_register {r : Char} {digits : List Char}
    (h : digits ∈ Lexeme.many Lexeme.isDigit) :
    ∃ c, Lexeme.isDigit c ∧ (asciiLowerAll (String.ofList (r :: digits))).toList[1]? = some c := by
  obtain ⟨c, ds, hc, -, rfl⟩ := Lexeme.mem_oneOf_mul.mp h
  exact ⟨c, hc, by simp [asciiLowerAll, asciiLower_of_isDigit hc]⟩

theorem wordKind?_of_register {r : Char} {digits : List Char} (hr : r = 'r' ∨ r = 'R')
    (h : digits ∈ Lexeme.many Lexeme.isDigit) : wordKind? (r :: digits) = some .register := by
  obtain ⟨c, hc, hsecond⟩ := second_of_register (r := r) h
  obtain ⟨hne, hdigits⟩ := Lexeme.mem_many.mp h
  have htop : asciiLowerAll (String.ofList (r :: digits)) ≠ "top" := by
    intro htop
    rw [htop] at hsecond
    cases hsecond
    exact absurd hc (by decide)
  have hregister :
      ((r == 'r' || r == 'R') && !digits.isEmpty && digits.all Lexeme.isDigit) = true := by
    simpa [hr, hne] using hdigits
  simp only [wordKind?]
  rw [if_neg htop, if_pos hregister]

theorem wordKind?_of_mnemonic {x : List Char} {op : Opcode}
    (h : (asciiLowerAll (String.ofList x), op) ∈ Opcode.mnemonics) :
    wordKind? x = some .mnemonic := by
  simp only [wordKind?]
  rw [if_neg (Opcode.mnemonic_ne_top _ h), if_neg, Opcode.ofMnemonic?_eq_some_iff.mpr h]
  · rfl
  · cases x with
    | nil => exact Bool.false_ne_true
    | cons r digits =>
      intro hr
      simp only [Bool.and_eq_true, Bool.not_eq_true', List.isEmpty_eq_false_iff,
        List.all_eq_true] at hr
      obtain ⟨c, hc, hsecond⟩ := second_of_register (r := r) (Lexeme.mem_many.mpr ⟨hr.1.2, hr.2⟩)
      have := Opcode.mnemonic_second _ h
      rw [hsecond] at this
      exact absurd hc (by simpa using this)

theorem wordKind?_eq_some_iff {x : List Char} {kind : TokenKind} :
    wordKind? x = some kind ↔ kind.lexemeClass = .word ∧ Makes x kind (String.ofList x) := by
  constructor
  · intro h
    simp only [wordKind?] at h
    split_ifs at h with htop hregister
    · cases h
      exact ⟨rfl, .top htop⟩
    · cases h
      cases x with
      | nil => cases hregister
      | cons r digits =>
        simp only [Bool.and_eq_true, Bool.or_eq_true, beq_iff_eq, Bool.not_eq_true',
          List.isEmpty_eq_false_iff, List.all_eq_true] at hregister
        exact ⟨rfl, .register hregister.1.1 (Lexeme.mem_many.mpr ⟨hregister.1.2, hregister.2⟩)⟩
    · obtain ⟨op, hop, rfl⟩ := Option.map_eq_some_iff.mp h
      exact ⟨rfl, .mnemonic (Opcode.ofMnemonic?_eq_some_iff.mp hop)⟩
  · rintro ⟨hclass, hmakes⟩
    generalize hshown : String.ofList x = shown at hmakes
    cases hmakes with
    | top h => exact if_pos h
    | register hr h => exact wordKind?_of_register hr h
    | mnemonic h => exact wordKind?_of_mnemonic h
    | entryPoint | int | float | char | string => cases hclass

theorem exists_body {mark : Char} {l : Language Char} {x : List Char}
    (h : x ∈ Lexeme.oneOf (· == mark) * (l * Lexeme.oneOf (· == mark))) :
    ∃ body, x = mark :: (body ++ [mark]) := by
  obtain ⟨c, y, hc, hy, rfl⟩ := Lexeme.mem_oneOf_mul.mp h
  obtain ⟨body, -, z, ⟨d, hd, rfl⟩, rfl⟩ := Language.mem_mul.mp hy
  rw [eq_of_beq hc, eq_of_beq hd]
  exact ⟨body, rfl⟩

theorem tokenOf?_eq_some_iff {k : LexemeClass} {x : List Char} {kind : TokenKind} {shown : String}
    (hx : x ∈ k.language) :
    tokenOf? k x = some (kind, shown) ↔ kind.lexemeClass = k ∧ Makes x kind shown := by
  constructor
  · intro h
    cases k with
    | word =>
      obtain ⟨kind, hkind, heq⟩ := Option.map_eq_some_iff.mp h
      cases heq
      exact wordKind?_eq_some_iff.mp hkind
    | directive =>
      obtain ⟨hentry, heq⟩ := Option.ite_none_right_eq_some.mp h
      cases heq
      exact ⟨rfl, .entryPoint (by simpa [isEntryDirective] using hentry)⟩
    | int => cases h; exact ⟨rfl, .int⟩
    | float => cases h; exact ⟨rfl, .float⟩
    | char =>
      obtain ⟨body, rfl⟩ := exists_body hx
      obtain ⟨shown, hbody, heq⟩ := Option.map_eq_some_iff.mp h
      cases heq
      obtain ⟨text, htext, rfl⟩ := literalBody?_eq_some_iff.mp hbody
      exact ⟨rfl, .char htext⟩
    | string =>
      obtain ⟨body, rfl⟩ := exists_body hx
      obtain ⟨shown, hbody, heq⟩ := Option.map_eq_some_iff.mp h
      cases heq
      obtain ⟨text, htext, rfl⟩ := literalBody?_eq_some_iff.mp hbody
      exact ⟨rfl, .string htext⟩
  · rintro ⟨rfl, hmakes⟩
    have hword (hclass : kind.lexemeClass = .word) (hmakes : Makes x kind (String.ofList x)) :
        tokenOf? kind.lexemeClass x = some (kind, String.ofList x) := by
      rw [hclass, tokenOf?, wordKind?_eq_some_iff.mpr ⟨hclass, hmakes⟩]
      rfl
    cases hmakes with
    | top h => exact hword rfl (.top h)
    | register hr h => exact hword rfl (.register hr h)
    | mnemonic h => exact hword rfl (.mnemonic h)
    | entryPoint h =>
      have hentry : isEntryDirective x = true := by simpa [isEntryDirective] using h
      exact if_pos hentry
    | int => rfl
    | float => rfl
    | char h | string h =>
      simp only [tokenOf?, TokenKind.lexemeClass, literalBody?_eq_some_iff.mpr ⟨_, h, rfl⟩,
        Option.map_some]

/-! ## Readings -/

open Lexeme (IsLongest)

/-- Blanks and comments that stand in front of the rest of a text; a comment goes on up to the end
of its line. -/
inductive Gap (rest : List Char) : List Char → Prop
  | nil : Gap rest []
  | blank {c : Char} {gap : List Char} (hc : Lexeme.isBlank c) (h : Gap rest gap) :
      Gap rest (c :: gap)
  | comment {body gap : List Char} (hbody : ∀ c ∈ body, c ≠ '\n')
      (line : ∀ c ∈ (gap ++ rest).head?, c = '\n') (h : Gap rest gap) :
      Gap rest (';' :: (body ++ gap))

/-- A text that stands between two others is gaps and lexemes in turn, and these are its tokens. -/
inductive Tokenizes (rest : List Char) : List Char → List Char → List Token → Prop
  | gap {before gap : List Char} (h : Gap rest gap) : Tokenizes rest before gap []
  | token {before gap x text : List Char} {kind : TokenKind} {shown : String} {ts : List Token}
      (hgap : Gap (x ++ (text ++ rest)) gap)
      (lexeme : IsLongest kind.lexemeClass x (x ++ (text ++ rest))) (makes : Makes x kind shown)
      (h : Tokenizes rest (before ++ gap ++ x) text ts) :
      Tokenizes rest before (gap ++ (x ++ text)) (⟨kind, shown, Span.behind (before ++ gap)⟩ :: ts)

/-- A text that no reading gets into, and what an error shows of it: it begins with no lexeme, or
the longest makes no token, as it is an unknown word or directive or has an unknown escape. -/
inductive Refused : List Char → List Char → Prop
  | nothing {c : Char} {cs : List Char} (hblank : Lexeme.isBlank c = false) (hcomment : c ≠ ';')
      (h : ∀ (k : LexemeClass) (x : List Char), x ∈ k.language → ¬ x <+: c :: cs) :
      Refused (c :: cs) ((c :: cs).take (Lexeme.refusedLength (c :: cs)))
  | unknown {k : LexemeClass} {x rest : List Char} (lexeme : IsLongest k x rest)
      (h : ∀ kind shown, kind.lexemeClass = k → ¬ Makes x kind shown) : Refused rest x

/-! ## What a text begins with -/

variable {cs x rest before gap text shown : List Char} {c : Char} {done ts : List Token}

namespace Lexeme.IsLongest

variable {k : LexemeClass}

theorem separator?_eq_none (h : IsLongest k x cs) : Lexeme.separator? cs = none := by
  obtain ⟨c, y, rfl, hc⟩ := k.language_starts x h.mem
  obtain ⟨rest, rfl⟩ := h.begins
  exact LexemeClass.separator?_eq_none_of_starts hc

theorem take_length (h : IsLongest k x cs) : cs.take x.length = x :=
  (List.prefix_iff_eq_take.mp h.begins).symm

theorem of_append (h : IsLongest k x (x ++ (text ++ rest))) : IsLongest k x (x ++ text) := by
  refine ⟨h.mem, List.prefix_append x text, fun k' y hy hbegin => h.longest k' y hy ?_⟩
  rw [← List.append_assoc]
  exact hbegin.trans (List.prefix_append _ rest)

end Lexeme.IsLongest

theorem scan_blank (hc : Lexeme.isBlank c) (cs : List Char) : scan (c :: cs) = .separator 1 := by
  simp [scan, Lexeme.separator?, hc]

theorem scan_comment (cs : List Char) :
    scan (';' :: cs) = .separator (1 + Lexeme.run (· != '\n') cs) := by
  simp [scan, Lexeme.separator?, Lexeme.isBlank]

theorem scan_of_makes {kind : TokenKind} {shown : String}
    (lexeme : IsLongest kind.lexemeClass x cs) (makes : Makes x kind shown) :
    scan cs = .token kind shown x.length := by
  simp only [scan, lexeme.separator?_eq_none, lexeme.longest?_eq, lexeme.take_length,
    (tokenOf?_eq_some_iff lexeme.mem).mpr ⟨rfl, makes⟩]

theorem scan_of_refused (h : Refused rest shown) :
    ∃ length, scan rest = .refused length ∧ rest.take length = shown := by
  cases h with
  | @nothing c cs hblank hcomment h =>
    refine ⟨_, ?_, rfl⟩
    have hseparator : Lexeme.separator? (c :: cs) = none := by
      simp [Lexeme.separator?, hblank, hcomment]
    have hlongest : Lexeme.longest? (c :: cs) = none := by
      cases hfound : Lexeme.longest? (c :: cs) with
      | none => rfl
      | some found =>
        have hlexeme := (Lexeme.isLongest_of_longest?_eq_some hfound).2
        exact absurd hlexeme.begins (h _ _ hlexeme.mem)
    simp only [scan, hseparator, hlongest]
  | @unknown k _ _ lexeme h =>
    refine ⟨shown.length, ?_, lexeme.take_length⟩
    have hnone : tokenOf? k shown = none := by
      cases htoken : tokenOf? k shown with
      | none => rfl
      | some token =>
        obtain ⟨hclass, hmakes⟩ := (tokenOf?_eq_some_iff lexeme.mem).mp htoken
        exact absurd hmakes (h _ _ hclass)
    simp only [scan, lexeme.separator?_eq_none, lexeme.longest?_eq, lexeme.take_length, hnone]

/-- A text that begins with no separator begins with a lexeme that makes a token, or is refused. -/
theorem exists_makes_or_refused (hblank : Lexeme.isBlank c = false) (hcomment : c ≠ ';')
    (cs : List Char) :
    (∃ kind x shown, IsLongest (TokenKind.lexemeClass kind) x (c :: cs) ∧ Makes x kind shown) ∨
      ∃ shown, Refused (c :: cs) shown := by
  cases hfound : Lexeme.longest? (c :: cs) with
  | none =>
    exact .inr ⟨_, .nothing hblank hcomment fun k x hx => Lexeme.longest?_eq_none hfound hx⟩
  | some found =>
    obtain ⟨k, n⟩ := found
    have hlexeme := (Lexeme.isLongest_of_longest?_eq_some hfound).2
    by_cases hmakes : ∃ kind shown, kind.lexemeClass = k ∧ Makes ((c :: cs).take n) kind shown
    · obtain ⟨kind, shown, rfl, hmakes⟩ := hmakes
      exact .inl ⟨kind, _, shown, hlexeme, hmakes⟩
    · exact .inr ⟨_, .unknown hlexeme fun kind shown hk h => hmakes ⟨kind, shown, hk, h⟩⟩

/-! ## Reading on -/

theorem tokenizeFrom_skip (before x : List Char) :
    tokenizeFrom (Span.behind before) x.length done (x ++ rest) =
      tokenizeFrom (Span.behind (before ++ x)) 0 done rest := by
  induction x generalizing before with
  | nil => simp
  | cons c x ih =>
    rw [List.length_cons, List.cons_append, tokenizeFrom, ← Span.behind_concat, ih,
      List.append_assoc, List.singleton_append]

theorem tokenizeFrom_separator (hscan : scan (c :: (x ++ rest)) = .separator (1 + x.length)) :
    tokenizeFrom (Span.behind before) 0 done (c :: (x ++ rest)) =
      tokenizeFrom (Span.behind (before ++ c :: x)) 0 done rest := by
  rw [tokenizeFrom, hscan]
  dsimp only
  rw [Nat.add_sub_cancel_left, ← Span.behind_concat, tokenizeFrom_skip, List.append_assoc,
    List.singleton_append]

theorem Gap.tokenizeFrom_eq (h : Gap rest gap) (before : List Char) :
    tokenizeFrom (Span.behind before) 0 done (gap ++ rest) =
      tokenizeFrom (Span.behind (before ++ gap)) 0 done rest := by
  induction h generalizing before with
  | nil => simp
  | @blank c gap hc h ih =>
    rw [List.cons_append, ← List.nil_append (gap ++ rest),
      tokenizeFrom_separator (scan_blank hc _), ih, List.append_assoc, List.singleton_append]
  | @comment body gap hbody line h ih =>
    have hrun : Lexeme.run (· != '\n') (body ++ (gap ++ rest)) = body.length := by
      rw [Lexeme.run_append_of_all (by simpa using hbody), Nat.add_eq_left]
      cases hrest : gap ++ rest with
      | nil => rfl
      | cons d _ =>
        rw [hrest] at line
        exact Lexeme.run_cons_of_neg (by simp [line d rfl])
    rw [List.cons_append, List.append_assoc,
      tokenizeFrom_separator (hrun ▸ scan_comment _), ih, List.append_assoc, List.cons_append]

theorem Tokenizes.tokenizeFrom_eq (h : Tokenizes rest before text ts) (done : List Token) :
    tokenizeFrom (Span.behind before) 0 done (text ++ rest) =
      tokenizeFrom (Span.behind (before ++ text)) 0 (ts.reverse ++ done) rest := by
  induction h generalizing done with
  | gap h => simpa using h.tokenizeFrom_eq _
  | @token before gap x text kind shown ts hgap lexeme makes h ih =>
    obtain ⟨c, y, rfl, -⟩ := kind.lexemeClass.language_starts x lexeme.mem
    rw [List.append_assoc, List.append_assoc, hgap.tokenizeFrom_eq, List.cons_append, tokenizeFrom]
    simp only [List.cons_append] at lexeme
    rw [scan_of_makes lexeme makes]
    dsimp only
    rw [List.length_cons, Nat.add_sub_cancel, ← Span.behind_concat, tokenizeFrom_skip]
    have hplace : before ++ gap ++ [c] ++ y = before ++ gap ++ c :: y := by simp
    rw [hplace, ih]
    simp

theorem Refused.ne_nil (h : Refused rest shown) : rest ≠ [] := by
  cases h with
  | nothing => exact List.cons_ne_nil _ _
  | @unknown k _ _ lexeme h =>
    obtain ⟨c, y, rfl, -⟩ := k.language_starts _ lexeme.mem
    rintro rfl
    exact absurd lexeme.begins (by simp)

theorem tokenizeFrom_of_refused (h : Refused rest shown) (span : Span) :
    tokenizeFrom span 0 done rest = .error ⟨String.ofList shown, span.line, span.col⟩ := by
  obtain ⟨c, cs, rfl⟩ := List.exists_cons_of_ne_nil h.ne_nil
  obtain ⟨length, hscan, rfl⟩ := scan_of_refused h
  rw [tokenizeFrom, hscan]

theorem Gap.of_append (h : Gap (x ++ rest) gap) : Gap x gap := by
  induction h with
  | nil => exact .nil
  | blank hc h ih => exact .blank hc ih
  | @comment body gap hbody line h ih =>
    refine .comment hbody (fun c hc => line c ?_) ih
    rw [← List.append_assoc, List.head?_append, Option.mem_def.mp hc]
    rfl

/-- What was read of a text is read of it alone. -/
theorem Tokenizes.truncate (h : Tokenizes rest before text ts) : Tokenizes [] before text ts := by
  induction h with
  | gap h => exact .gap (Gap.of_append (x := []) h)
  | @token before gap x text kind shown ts hgap lexeme makes h ih =>
    have hwhole : Gap (x ++ text ++ rest) gap := by simpa using hgap
    refine .token ?_ ?_ makes ih
    · simpa using hwhole.of_append
    · simpa using lexeme.of_append

theorem Tokenizes.blank (hc : Lexeme.isBlank c) (h : Tokenizes rest (before ++ [c]) text ts) :
    Tokenizes rest before (c :: text) ts := by
  cases h with
  | gap h => exact .gap (.blank hc h)
  | @token _ gap x text kind shown ts hgap lexeme makes h =>
    have hplace : before ++ [c] ++ gap = before ++ c :: gap := by simp
    rw [hplace] at h ⊢
    exact .token (.blank hc hgap) lexeme makes h

theorem Tokenizes.comment (hx : ∀ c ∈ x, c ≠ '\n') (line : ∀ c ∈ (text ++ rest).head?, c = '\n')
    (h : Tokenizes rest (before ++ ';' :: x) text ts) :
    Tokenizes rest before (';' :: (x ++ text)) ts := by
  cases h with
  | gap h => exact .gap (.comment hx line h)
  | @token _ gap y text kind shown ts hgap lexeme makes h =>
    have hplace : before ++ ';' :: x ++ gap = before ++ ';' :: (x ++ gap) := by simp
    rw [hplace] at h ⊢
    rw [← List.append_assoc x gap (y ++ text), ← List.cons_append]
    exact .token (.comment hx (by simpa using line) hgap) lexeme makes h

theorem Tokenizes.lexeme {kind : TokenKind} {shown : String}
    (lexeme : IsLongest kind.lexemeClass x (x ++ (text ++ rest))) (makes : Makes x kind shown)
    (h : Tokenizes rest (before ++ x) text ts) :
    Tokenizes rest before (x ++ text) (⟨kind, shown, Span.behind before⟩ :: ts) := by
  have hread := @Tokenizes.token rest before [] x text kind shown ts .nil lexeme makes
    (by rwa [List.append_nil])
  rwa [List.append_nil] at hread

/-- Reading goes on to the end of a text or up to a place that refuses it. -/
theorem exists_tokenizes (before cs : List Char) : ∃ text rest ts, cs = text ++ rest ∧
    Tokenizes rest before text ts ∧ (rest = [] ∨ ∃ shown, Refused rest shown) := by
  match cs with
  | [] => exact ⟨[], [], [], rfl, .gap .nil, .inl rfl⟩
  | c :: cs =>
    cases hblank : Lexeme.isBlank c with
    | true =>
      obtain ⟨text, rest, ts, rfl, h, hend⟩ := exists_tokenizes (before ++ [c]) cs
      exact ⟨c :: text, rest, ts, rfl, h.blank hblank, hend⟩
    | false =>
      by_cases hcomment : c = ';'
      · subst hcomment
        have hx : ∀ c ∈ cs.takeWhile (· != '\n'), c ≠ '\n' := fun c hc => by
          simpa using List.mem_takeWhile_imp hc
        have hline : ∀ c ∈ (cs.dropWhile (· != '\n')).head?, c = '\n' := fun c hc => by
          simpa [Option.mem_def.mp hc] using List.head?_dropWhile_not (· != '\n') cs
        have hlength : (cs.dropWhile (· != '\n')).length ≤ cs.length :=
          List.length_dropWhile_le _ _
        obtain ⟨text, rest, ts, hcs, h, hend⟩ :=
          exists_tokenizes (before ++ ';' :: cs.takeWhile (· != '\n')) (cs.dropWhile (· != '\n'))
        refine ⟨_, rest, ts, ?_, h.comment hx (hcs ▸ hline), hend⟩
        rw [List.cons_append, List.append_assoc, ← hcs, List.takeWhile_append_dropWhile]
      · rcases exists_makes_or_refused hblank hcomment cs with
          ⟨kind, x, shown, lexeme, makes⟩ | hrefused
        · obtain ⟨cs', hcs⟩ := lexeme.begins
          obtain ⟨d, y, rfl, -⟩ := kind.lexemeClass.language_starts x lexeme.mem
          have hlength : cs'.length ≤ cs.length := by
            rw [List.cons_append] at hcs
            rw [← (List.cons.inj hcs).2, List.length_append]
            exact Nat.le_add_left _ _
          obtain ⟨text, rest, ts, rfl, h, hend⟩ := exists_tokenizes (before ++ d :: y) cs'
          exact ⟨d :: y ++ text, rest, _, by rw [List.append_assoc, hcs],
            .lexeme (hcs ▸ lexeme) makes h, hend⟩
        · exact ⟨[], c :: cs, [], rfl, .gap .nil, .inr hrefused⟩
termination_by cs.length

/-- The tokens of a source are those of its reading. An error stands at the first place that no
reading gets past, and what stands before it has tokens of its own. -/
theorem tokenize_reads (source : String) :
    (∀ ts, tokenize source = .ok ts ↔ Tokenizes [] [] source.toList ts) ∧
    ∀ e, tokenize source = .error e ↔ ∃ text rest ts, source.toList = text ++ rest ∧
      Tokenizes rest [] text ts ∧ tokenize (String.ofList text) = .ok ts ∧
      Refused rest e.text.toList ∧ e.line = (Span.behind text).line ∧
      e.col = (Span.behind text).col := by
  have hread (text rest : List Char) (ts : List Token) (h : Tokenizes rest [] text ts) :
      tokenizeFrom .start 0 [] (text ++ rest) =
        tokenizeFrom (Span.behind text) 0 ts.reverse rest := by
    rw [← List.append_nil ts.reverse]
    exact h.tokenizeFrom_eq []
  have hok (text : List Char) (ts : List Token) (h : Tokenizes [] [] text ts) :
      tokenizeFrom .start 0 [] text = .ok ts := by
    simpa [tokenizeFrom] using hread text [] ts h
  have herror (text rest shown : List Char) (ts : List Token) (h : Tokenizes rest [] text ts)
      (hrefused : Refused rest shown) : tokenizeFrom .start 0 [] (text ++ rest) =
        .error ⟨String.ofList shown, (Span.behind text).line, (Span.behind text).col⟩ := by
    rw [hread text rest ts h, tokenizeFrom_of_refused hrefused]
  obtain ⟨text, rest, ts, hsource, h, hend⟩ := exists_tokenizes [] source.toList
  refine ⟨fun ts' => ⟨fun hts => ?_, fun h => hok _ _ h⟩, fun e => ⟨fun he => ?_, ?_⟩⟩
  · rcases hend with rfl | ⟨shown, hrefused⟩
    · rw [List.append_nil] at hsource
      rw [tokenize, hsource, hok text ts h] at hts
      cases hts
      rwa [hsource]
    · rw [tokenize, hsource, herror text rest shown ts h hrefused] at hts
      cases hts
  · rcases hend with rfl | ⟨shown, hrefused⟩
    · rw [List.append_nil] at hsource
      rw [tokenize, hsource, hok text ts h] at he
      cases he
    · rw [tokenize, hsource, herror text rest shown ts h hrefused] at he
      cases he
      refine ⟨text, rest, ts, hsource, h, ?_, by simpa using hrefused, rfl, rfl⟩
      simpa [tokenize] using hok text ts h.truncate
  · rintro ⟨text, rest, ts, hsource, h, -, hrefused, hline, hcol⟩
    rw [tokenize, hsource, herror text rest _ ts h hrefused, ← hline, ← hcol, String.ofList_toList]

end InvariantMachine

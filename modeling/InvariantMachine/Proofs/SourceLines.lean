import Mathlib
import InvariantMachine.Proofs.LexemeEnds
import InvariantMachine.Proofs.Tokenizing

/-!
# Sources line by line

A newline keeps apart what stands before it and what stands behind it: no lexeme, no comment and no
part of a source that an error shows goes past it. So the tokens of a source are those of its lines,
each further down by the lines before it, and the error of a source is that of its first line with
one.
-/

namespace InvariantMachine

/-! ## Further down -/

def Span.down (lines : Nat) (span : Span) : Span := { span with line := span.line + lines }

def Token.down (lines : Nat) (token : Token) : Token :=
  { token with span := token.span.down lines }

def LexError.down (lines : Nat) (e : LexError) : LexError := { e with line := e.line + lines }

/-- The number of lines that end with a newline behind a text. -/
def lineCount (text : List Char) : Nat := 1 + text.count '\n'

variable {line before rest text x gap shown : List Char} {ts ts₁ ts₂ : List Token}

namespace Span

theorem behind_newline (line before : List Char) :
    behind (line ++ '\n' :: before) = (behind before).down (lineCount line) := by
  have hcolumn : (line ++ '\n' :: before).rtakeWhile (· != '\n') =
      before.rtakeWhile (· != '\n') := by
    induction before using List.reverseRecOn with
    | nil => simp
    | append_singleton before c ih =>
      rw [← List.cons_append, ← List.append_assoc]
      by_cases hc : c = '\n'
      · simp [hc]
      · rw [List.rtakeWhile_concat_pos _ _ _ (by simpa using hc), ih,
          List.rtakeWhile_concat_pos _ _ _ (by simpa using hc)]
  simp only [behind, down, lineCount, hcolumn, List.count_append, List.count_cons_self, mk.injEq,
    and_true]
  omega

end Span

theorem Tokenizes.down (h : Tokenizes rest before text ts) (line : List Char) :
    Tokenizes rest (line ++ '\n' :: before) text (ts.map (Token.down (lineCount line))) := by
  induction h with
  | gap h => exact .gap h
  | @token before gap x text kind shown ts hgap lexeme makes h ih =>
    have hread := @Tokenizes.token rest (line ++ '\n' :: before) gap x text kind shown _
      hgap lexeme makes (by simpa using ih)
    rw [List.append_assoc, List.cons_append, Span.behind_newline] at hread
    exact hread

/-! ## What a newline ends -/

theorem Lexeme.stringBody_append_newline (length : Nat) (cs more : List Char) :
    stringBody length (cs ++ '\n' :: more) = stringBody length cs := by
  fun_induction stringBody length cs with
  | case1 | case2 | case3 | case4 | case6 => simp [stringBody]
  | case5 length c cs hline ih => simp [stringBody, hline, ih]
  | case7 length c cs hmark hescape hbehind hline ih =>
    have hescape : c ≠ '\\' := by
      rintro rfl
      cases cs with
      | nil => exact hescape rfl rfl
      | cons d cs => exact hbehind d cs rfl rfl
    rw [List.cons_append, stringBody, if_neg hline, ih]
    · exact hmark
    · exact fun heq _ => hescape heq
    · exact fun _ _ heq _ => hescape heq

theorem Gap.append_newline (h : Gap rest gap) (more : List Char) :
    Gap (rest ++ '\n' :: more) gap := by
  induction h with
  | nil => exact .nil
  | blank hc _ ih => exact .blank hc ih
  | @comment body gap hbody line _ ih =>
    refine .comment hbody (fun c hc => ?_) ih
    rw [← List.append_assoc, List.head?_append, Option.mem_def, Option.or_eq_some_iff] at hc
    rcases hc with hc | ⟨-, hc⟩
    · exact line c hc
    · simpa using hc.symm

theorem Tokenizes.append_newline (h : Tokenizes rest before text ts) (more : List Char) :
    Tokenizes (rest ++ '\n' :: more) before text ts := by
  induction h with
  | gap h => exact .gap (h.append_newline more)
  | @token before gap x text kind shown ts hgap lexeme makes _ ih =>
    have hgap := hgap.append_newline more
    have lexeme := lexeme.append_newline more
    simp only [List.append_assoc] at hgap lexeme
    exact .token hgap lexeme makes ih

theorem Lexeme.refusedLength_append_newline (c : Char) (cs more : List Char) :
    refusedLength (c :: cs ++ '\n' :: more) = refusedLength (c :: cs) := by
  by_cases hc : c = '\x22'
  · subst hc
    simp only [refusedLength, List.cons_append, stringBody_append_newline]
  · simp [refusedLength, hc]

theorem Lexeme.stringBody_le (length : Nat) (cs : List Char) :
    (stringBody length cs).1 ≤ length + cs.length := by
  fun_induction stringBody length cs <;> grind

theorem Lexeme.refusedLength_le (c : Char) (cs : List Char) :
    refusedLength (c :: cs) ≤ (c :: cs).length := by
  by_cases hc : c = '\x22'
  · subst hc
    simpa only [refusedLength, List.length_cons, Nat.add_comm] using stringBody_le 1 cs
  · simp [refusedLength, hc]

theorem Refused.append_newline (h : Refused rest shown) (more : List Char) :
    Refused (rest ++ '\n' :: more) shown := by
  cases h with
  | @nothing c cs hblank hcomment h =>
    have hshown : (c :: cs ++ '\n' :: more).take
        (Lexeme.refusedLength (c :: cs ++ '\n' :: more)) =
          (c :: cs).take (Lexeme.refusedLength (c :: cs)) := by
      rw [Lexeme.refusedLength_append_newline,
        List.take_append_of_le_length (Lexeme.refusedLength_le c cs)]
    rw [← hshown]
    refine .nothing hblank hcomment fun k x hx hbegin => h k x hx ?_
    exact prefix_of_not_mem hbegin fun hmem => k.madeOf_language x hx _ hmem rfl
  | unknown lexeme h => exact .unknown (lexeme.append_newline more) h

/-! ## Lines -/

/-- What a source is read as: its tokens, or the error at the place that no reading gets past. -/
inductive ReadAs (source : List Char) : Except LexError (List Token) → Prop
  | tokens {ts : List Token} (h : Tokenizes [] [] source ts) : ReadAs source (.ok ts)
  | refused {text rest shown : List Char} {ts : List Token} (hsource : source = text ++ rest)
      (h : Tokenizes rest [] text ts) (hrefused : Refused rest shown) : ReadAs source
        (.error ⟨String.ofList shown, (Span.behind text).line, (Span.behind text).col⟩)

theorem Tokenizes.tokenizeFrom_start (h : Tokenizes rest [] text ts) :
    tokenizeFrom .start 0 [] (text ++ rest) =
      tokenizeFrom (Span.behind text) 0 ts.reverse rest := by
  rw [← List.append_nil ts.reverse]
  exact h.tokenizeFrom_eq []

theorem readAs_tokenize (source : String) : ReadAs source.toList (tokenize source) := by
  obtain ⟨text, rest, ts, hsource, h, hend⟩ := exists_tokenizes [] source.toList
  rw [tokenize, hsource, h.tokenizeFrom_start]
  rcases hend with rfl | ⟨shown, hrefused⟩
  · rw [tokenizeFrom, List.reverse_reverse, List.append_nil]
    exact .tokens h
  · rw [tokenizeFrom_of_refused hrefused]
    exact .refused rfl h hrefused

theorem tokenizes_of_tokenize_eq_ok {source : String} (h : tokenize source = .ok ts) :
    Tokenizes [] [] source.toList ts := by
  have hread := h ▸ readAs_tokenize source
  cases hread with
  | tokens h => exact h

theorem ReadAs.tokenize_eq {source : String} {result : Except LexError (List Token)}
    (h : ReadAs source.toList result) : tokenize source = result := by
  unfold tokenize
  generalize source.toList = chars at h
  cases h with
  | tokens h =>
    rw [← List.append_nil chars, h.tokenizeFrom_start, tokenizeFrom, List.reverse_reverse]
  | refused hsource h hrefused =>
    rw [hsource, h.tokenizeFrom_start, tokenizeFrom_of_refused hrefused]

theorem Gap.tokenizes (hgap : Gap (text ++ rest) gap)
    (h : Tokenizes rest (before ++ gap) text ts) : Tokenizes rest before (gap ++ text) ts := by
  induction hgap generalizing before with
  | nil => simpa using h
  | blank hc _ ih => exact .blank hc (ih (by simpa using h))
  | @comment body gap hbody line _ ih =>
    rw [List.cons_append, List.append_assoc]
    exact .comment hbody (by simpa using line) (ih (by simpa using h))

theorem Tokenizes.append (h₁ : Tokenizes (text ++ rest) before line ts₁)
    (h₂ : Tokenizes rest (before ++ line) text ts₂) :
    Tokenizes rest before (line ++ text) (ts₁ ++ ts₂) := by
  induction h₁ with
  | gap hgap => exact hgap.tokenizes h₂
  | @token before gap x line kind shown ts hgap lexeme makes _ ih =>
    have hread := ih (by simpa using h₂)
    rw [List.append_assoc, List.append_assoc]
    exact .token (by simpa using hgap) (by simpa using lexeme) makes hread

/-- What stands behind a line is read as it is alone, further down. -/
theorem Tokenizes.newline (h₁ : Tokenizes [] [] line ts₁) (h₂ : Tokenizes rest [] text ts₂) :
    Tokenizes rest [] (line ++ '\n' :: text) (ts₁ ++ ts₂.map (Token.down (lineCount line))) :=
  .append (h₁.append_newline _) (.blank rfl (h₂.down line))

theorem ReadAs.newline_of_ok {text : List Char} (h₁ : ReadAs line (.ok ts₁))
    (h₂ : ReadAs text (.ok ts₂)) : ReadAs (line ++ '\n' :: text)
      (.ok (ts₁ ++ ts₂.map (Token.down (lineCount line)))) := by
  cases h₁ with
  | tokens h₁ =>
    cases h₂ with
    | tokens h₂ => exact .tokens (h₁.newline h₂)

theorem ReadAs.newline_of_error {e : LexError} {text : List Char} (h₁ : ReadAs line (.ok ts₁))
    (h₂ : ReadAs text (.error e)) :
    ReadAs (line ++ '\n' :: text) (.error (e.down (lineCount line))) := by
  cases h₁ with
  | tokens h₁ =>
    cases h₂ with
    | @refused text rest shown ts hsource h₂ hrefused =>
      have hread := ReadAs.refused rfl (h₁.newline h₂) hrefused
      rwa [Span.behind_newline, List.append_assoc, List.cons_append, ← hsource] at hread

theorem ReadAs.error_newline {e : LexError} (h : ReadAs line (.error e)) (more : List Char) :
    ReadAs (line ++ '\n' :: more) (.error e) := by
  cases h with
  | @refused text rest shown ts hsource h hrefused =>
    refine .refused ?_ (h.append_newline more) (hrefused.append_newline more)
    rw [hsource, List.append_assoc]

/-- The tokens of two texts with a newline between them are those of the first and, further down,
those of the second; the error is that of the first, or, further down, that of the second. -/
theorem tokenize_lines (s₁ s₂ : String) :
    tokenize (s₁ ++ "\n" ++ s₂) =
      match tokenize s₁, tokenize s₂ with
      | .error e, _ => .error e
      | .ok _, .error e => .error (e.down (1 + s₁.toList.count '\n'))
      | .ok ts₁, .ok ts₂ =>
        .ok (ts₁ ++ ts₂.map (Token.down (1 + s₁.toList.count '\n'))) := by
  have hlines : (s₁ ++ "\n" ++ s₂).toList = s₁.toList ++ '\n' :: s₂.toList := by simp
  have h₁ := readAs_tokenize s₁
  have h₂ := readAs_tokenize s₂
  apply ReadAs.tokenize_eq
  rw [hlines]
  split
  · rename_i e _ he
    exact (he ▸ h₁).error_newline _
  · rename_i ts₁ e hts₁ he
    exact (hts₁ ▸ h₁).newline_of_error (he ▸ h₂)
  · rename_i ts₁ ts₂ hts₁ hts₂
    exact (hts₁ ▸ h₁).newline_of_ok (hts₂ ▸ h₂)

end InvariantMachine

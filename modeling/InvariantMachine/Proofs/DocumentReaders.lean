import Mathlib
import InvariantMachine.Proofs.DocumentTexts

/-!
# Readings of documents

A reading gives a result for a document if it takes every text of the document, and nothing of what
follows, for that result. One rule for each way to put readings together leads from the results
for the parts of a document to the result for the whole.
-/

namespace InvariantMachine.Json

namespace Reading

variable {ε α β σ : Type} {read : Reading ε α} {a : α} {c : Char} {w cs rest : List Char}

/-! ## Single steps -/

theorem run_bind_of_ok {f : α → Reading ε β} (h : read.run cs = .ok (a, rest)) :
    (read >>= f).run cs = (f a).run rest := by
  rw [StateT.run_bind, h]
  rfl

theorem run_bind_of_error {f : α → Reading ε β} {e : ReadError ε} (h : read.run cs = .error e) :
    (read >>= f).run cs = .error e := by
  rw [StateT.run_bind, h]
  rfl

theorem nonBlank_append (hw : Blanks w) (cs : List Char) : nonBlank (w ++ cs) = nonBlank cs :=
  List.dropWhile_append_of_pos hw

theorem nonBlank_cons (hc : isBlank c = false) (cs : List Char) : nonBlank (c :: cs) = c :: cs :=
  List.dropWhile_cons_of_neg (by simp [hc])

theorem peek?_run (hw : Blanks w) (hc : isBlank c = false) (cs : List Char) :
    (peek? : Reading ε _).run (w ++ c :: cs) = .ok (some c, c :: cs) := by
  simp only [peek?, StateT.run, nonBlank_append hw, nonBlank_cons hc, List.head?_cons]

theorem expect_run (hw : Blanks w) (hc : isBlank c = false) (cs : List Char) :
    (expect c : Reading ε _).run (w ++ c :: cs) = .ok ((), cs) := by
  simp only [expect, StateT.run, nonBlank_append hw, nonBlank_cons hc, if_true]

theorem word_run (hw : Blanks w) (hc : isBlank c = false) (letters cs : List Char) :
    (word (c :: letters) : Reading ε _).run (w ++ (c :: letters ++ cs)) = .ok ((), cs) := by
  have hbegin : (c :: letters).isPrefixOf (c :: letters ++ cs) = true :=
    List.isPrefixOf_iff_prefix.mpr (List.prefix_append _ _)
  have hblank : nonBlank (w ++ (c :: letters ++ cs)) = c :: letters ++ cs := by
    rw [nonBlank_append hw, List.cons_append, nonBlank_cons hc]
  simp only [word, StateT.run, hblank, hbegin, if_true, List.drop_left]

/-! ## Quoted strings -/

theorem readDigits?_control : ∀ n < 0x20,
    readDigits? 16 ['0', '0', Nat.digitChar (n / 16), Nat.digitChar (n % 16)] = some n := by
  decide

theorem readQuoted_code {n : Nat} (hn : n < 0x20) (done cs : List Char) :
    readQuoted done ('\\' :: 'u' :: '0' :: '0' :: Nat.digitChar (n / 16) ::
      Nat.digitChar (n % 16) :: cs) = readQuoted (Char.ofNat n :: done) cs := by
  have hleading : isLeadingSurrogate n = false := by simp [isLeadingSurrogate]; omega
  have htrailing : isTrailingSurrogate n = false := by simp [isTrailingSurrogate]; omega
  by_cases hpair : ∃ e f g h rest, cs = '\\' :: 'u' :: e :: f :: g :: h :: rest
  · -- another code follows, of which only a leading surrogate would take notice
    obtain ⟨e, f, g, h, rest, rfl⟩ := hpair
    rw [readQuoted]
    simp [readDigits?_control n hn, hleading, htrailing]
  · rw [readQuoted]
    · simp [readDigits?_control n hn, hleading, htrailing]
    · intro e f g h rest hcs
      exact hpair ⟨e, f, g, h, rest, hcs⟩

theorem readQuoted_escape (done : List Char) (c : Char) (cs : List Char) :
    readQuoted done (escape c ++ cs) = readQuoted (c :: done) cs := by
  unfold escape
  split_ifs with h₁ h₂ h₃ h₄ h₅ h₆ h₇ hcontrol
  · subst h₁; simp [readQuoted, escapeMeaning?]
  · subst h₂; simp [readQuoted, escapeMeaning?]
  · subst h₃; simp [readQuoted, escapeMeaning?]
  · subst h₄; simp [readQuoted, escapeMeaning?]
  · subst h₅; simp [readQuoted, escapeMeaning?]
  · subst h₆; simp [readQuoted, escapeMeaning?]
  · subst h₇; simp [readQuoted, escapeMeaning?]
  · simp [readQuoted_code hcontrol]
  · rw [List.singleton_append, readQuoted]
    · simp [h₂, hcontrol]
    all_goals simp_all

theorem readQuoted_flatMap (done text rest : List Char) :
    readQuoted done (text.flatMap escape ++ '\x22' :: rest) =
      some (done.reverse ++ text, rest) := by
  induction text generalizing done with
  | nil => simp [readQuoted]
  | cons c text ih => simp [readQuoted_escape, ih]

theorem string_run (hw : Blanks w) (text : String) (rest : List Char) :
    (string : Reading ε _).run (w ++ ((quote text).toList ++ rest)) = .ok (text, rest) := by
  have hquote : (quote text).toList ++ rest =
      '\x22' :: (text.toList.flatMap escape ++ '\x22' :: rest) := by simp [quote]
  rw [string, hquote, run_bind_of_ok (expect_run hw rfl _)]
  simp [StateT.run, readQuoted_flatMap]

end Reading

open Reading

variable {ε α β σ : Type} {read : Reading ε α} {document : Json} {c : Char}
  {w cs rest tail : List Char} {items : List Json} {fields : List (String × Json)}

/-! ## First characters -/

/-- Every text of the document begins with a character of a kind, and none of the kind is blank. -/
def Opens (document : Json) (p : Char → Prop) : Prop :=
  (∀ c, p c → isBlank c = false) ∧
    ∀ cs, Spells document cs → ∃ c tail, cs = c :: tail ∧ p c

theorem opens_string (text : String) : Opens (.string text) (· = '\x22') := by
  refine ⟨fun c hc => hc ▸ rfl, ?_⟩
  rintro cs ⟨h⟩
  exact ⟨_, text.toList.flatMap escape ++ ['\x22'], by simp [leafText, quote], rfl⟩

theorem opens_object (fields : List (String × Json)) : Opens (.object fields) (· = '{') := by
  refine ⟨fun c hc => hc ▸ rfl, ?_⟩
  rintro cs h
  cases h with
  | leaf h => cases h
  | object h => exact ⟨_, _, rfl, rfl⟩

/-! ## What follows a part -/

/-- The characters that may stand behind a document inside another. -/
def delimits (c : Char) : Bool := isBlank c || c == ',' || c == ']' || c == '}'

def Delimited (rest : List Char) : Prop := ∀ c ∈ rest.head?, delimits c

theorem delimited_nil : Delimited [] := fun _ h => nomatch h

theorem Blanks.delimited (hw : Blanks w) (hc : delimits c) (rest : List Char) :
    Delimited (w ++ c :: rest) := by
  intro d hd
  cases w with
  | nil => cases hd; exact hc
  | cons b w =>
    cases hd
    have hb : isBlank d = true := hw d List.mem_cons_self
    simp [delimits, hb]

theorem SpellsMoreItems.delimited (h : SpellsMoreItems items tail) (rest : List Char) :
    Delimited (tail ++ ']' :: rest) := by
  cases h with
  | nil hw => exact hw.delimited rfl rest
  | cons hw h =>
    rw [List.append_assoc]
    exact hw.delimited rfl _

theorem SpellsMoreFields.delimited (h : SpellsMoreFields fields tail) (rest : List Char) :
    Delimited (tail ++ '}' :: rest) := by
  cases h with
  | nil hw => exact hw.delimited rfl rest
  | cons hw h =>
    rw [List.append_assoc]
    exact hw.delimited rfl _

/-! ## Results of readings -/

/-- How a reading ends: with a result in front of the rest, or because the form is wrong. -/
def outcome (result : Option α) (rest : List Char) : Except (ReadError ε) (α × List Char) :=
  match result with
  | some a => .ok (a, rest)
  | none => .error .malformed

/-- The reading gives the result for every text of the document and leaves what follows it; with
none, it finds the form wrong. -/
def Gives (read : Reading ε α) (document : Json) (result : Option α) : Prop :=
  ∀ w cs rest, Blanks w → Spells document cs → Delimited rest →
    read.run (w ++ (cs ++ rest)) = outcome result rest

namespace Gives

variable {result : Option α} {a : α}

theorem bind {f : α → Reading ε β} {g : α → Option β} (h : Gives read document result)
    (hf : ∀ a rest, (f a).run rest = outcome (g a) rest) :
    Gives (read >>= f) document (result.bind g) := by
  intro w cs rest hw hcs hrest
  have hread := h w cs rest hw hcs hrest
  cases result with
  | none => exact run_bind_of_error hread
  | some a => exact (run_bind_of_ok hread).trans (hf a rest)

theorem map (h : Gives read document result) (f : α → β) :
    Gives (do let a ← read; return f a) document (result.map f) := by
  rw [Option.map_eq_bind]
  exact h.bind fun _ _ => rfl

/-- A reading that looks at the first character, and then goes on as another one. -/
theorem peek {p : Char → Prop} {f : Option Char → Reading ε α} (hopen : Opens document p)
    (h : ∀ c, p c → Gives (f (some c)) document result) : Gives (peek? >>= f) document result := by
  intro w cs rest hw hcs hrest
  obtain ⟨c, tail, htail, hc⟩ := hopen.2 cs hcs
  have hblank := h c hc [] cs rest blanks_nil hcs hrest
  rw [htail, List.cons_append] at hblank ⊢
  rw [run_bind_of_ok (peek?_run hw (hopen.1 c hc) _)]
  exact hblank

theorem string (text : String) :
    Gives (Reading.string : Reading ε _) (.string text) (some text) := by
  rintro w cs rest hw ⟨-⟩ -
  exact string_run hw text rest

theorem char (c : Char) :
    Gives (Reading.char : Reading ε _) (.string (String.ofList [c])) (some c) := by
  rintro w cs rest hw ⟨-⟩ -
  refine (run_bind_of_ok (string_run hw _ rest)).trans ?_
  rw [String.toList_ofList]
  rfl

theorem boolean (b : Bool) : Gives (Reading.boolean : Reading ε _) (.boolean b) (some b) := by
  rintro w cs rest hw ⟨-⟩ -
  cases b with
  | true =>
    change (Reading.boolean).run (w ++ ('t' :: ['r', 'u', 'e'] ++ rest)) = _
    rw [Reading.boolean, List.cons_append, run_bind_of_ok (peek?_run hw rfl _), if_pos rfl]
    exact run_bind_of_ok (word_run blanks_nil rfl ['r', 'u', 'e'] rest)
  | false =>
    change (Reading.boolean).run (w ++ ('f' :: ['a', 'l', 's', 'e'] ++ rest)) = _
    rw [Reading.boolean, List.cons_append, run_bind_of_ok (peek?_run hw rfl _), if_neg (by decide)]
    exact run_bind_of_ok (word_run blanks_nil rfl ['a', 'l', 's', 'e'] rest)

theorem optional_null : Gives (Reading.optional read) .null (some none) := by
  rintro w cs rest hw ⟨-⟩ -
  change (Reading.optional read).run (w ++ ('n' :: ['u', 'l', 'l'] ++ rest)) = _
  rw [Reading.optional, List.cons_append, run_bind_of_ok (peek?_run hw rfl _), if_pos rfl]
  exact run_bind_of_ok (word_run blanks_nil rfl ['u', 'l', 'l'] rest)

theorem optional_of_opens {p : Char → Prop} (hopen : Opens document p) (hnull : ¬ p 'n')
    (h : Gives read document result) :
    Gives (Reading.optional read) document (result.map some) := by
  refine .peek hopen fun c hc => ?_
  have hne : c ≠ 'n' := fun heq => hnull (heq ▸ hc)
  rw [if_neg (by simpa using hne)]
  exact h.map some

theorem record {asArray : Reading ε α} (h : Gives read (.object fields) result) :
    Gives (Reading.record read asArray) (.object fields) result := by
  refine .peek (opens_object fields) ?_
  rintro c rfl
  exact h

theorem plain {plain : String → Option α} {carrying : String → Option (Reading ε α)}
    {name : String} (hname : plain name = some a) :
    Gives (alternative plain carrying) (.string name) (some a) := by
  refine .peek (opens_string name) ?_
  rintro c rfl w cs rest hw ⟨-⟩ -
  refine (run_bind_of_ok (string_run hw name rest)).trans ?_
  rw [hname]
  rfl

theorem tagged {plain : String → Option α} {carrying : String → Option (Reading ε α)}
    {name : String} (hplain : plain name = none) (hname : carrying name = some read)
    (h : Gives read document result) :
    Gives (alternative plain carrying) (.tagged name document) result := by
  refine .peek (opens_object _) ?_
  rintro c rfl w cs rest hw hcs hrest
  cases hcs with
  | leaf h => cases h
  | object hfields =>
    cases hfields with
    | @cons _ w₁ w₂ w₃ cs tail _ _ hw₁ hw₂ hw₃ hcs htail =>
      obtain ⟨hw₄⟩ := htail
      have htext :
          w ++ ('{' :: (w₁ ++ ((quote name).toList ++ (w₂ ++ ':' :: (w₃ ++ (cs ++ tail)))) ++
            ['}']) ++ rest) =
          w ++ '{' :: (w₁ ++ ((quote name).toList ++
            (w₂ ++ ':' :: (w₃ ++ (cs ++ (tail ++ '}' :: rest)))))) := by simp
      have hread := h w₃ cs _ hw₃ hcs (hw₄.delimited (c := '}') rfl rest)
      rw [htext]
      refine (run_bind_of_ok (expect_run hw rfl _)).trans ?_
      refine (run_bind_of_ok (string_run hw₁ name _)).trans ?_
      refine (run_bind_of_ok (expect_run hw₂ rfl _)).trans ?_
      rw [hplain, hname]
      cases result with
      | none => exact run_bind_of_error hread
      | some a =>
        refine (run_bind_of_ok hread).trans ?_
        exact run_bind_of_ok (expect_run hw₄ rfl rest)

end Gives

/-! ## Arrays -/

theorem SpellsMoreItems.length_le (h : SpellsMoreItems items tail) :
    items.length ≤ tail.length := by
  induction items generalizing tail with
  | nil => exact Nat.zero_le _
  | cons item items ih =>
    cases h with
    | cons hw h =>
      cases h with
      | cons hw' h ht =>
        have := ih ht
        simp only [List.length_append, List.length_cons]
        omega

theorem SpellsItems.length_le (h : SpellsItems items cs) : items.length ≤ cs.length + 1 := by
  cases h with
  | nil => exact Nat.zero_le _
  | cons hw h ht =>
    have := ht.length_le
    simp only [List.length_append, List.length_cons]
    omega

section Elements

variable {result : Option α} {p : Char → Prop}

theorem element?_run_end (hw : Blanks w) (first : Bool) (rest : List Char) :
    (element? first read).run (w ++ ']' :: rest) = .ok (none, ']' :: rest) :=
  run_bind_of_ok (peek?_run hw rfl rest)

theorem element?_run_first (hopen : Opens document p) (hp : ¬ p ']')
    (h : Gives read document result)
    (hw : Blanks w) (hcs : Spells document cs) (hrest : Delimited rest) :
    (element? true read).run (w ++ (cs ++ rest)) = outcome (result.map some) rest := by
  have hfirst : Gives (element? true read) document (result.map some) := by
    refine .peek hopen fun c hc => ?_
    split
    · rename_i heq
      cases heq
      exact absurd hc hp
    · exact h.map some
  exact hfirst w cs rest hw hcs hrest

theorem element?_run_more {w' : List Char} (hopen : Opens document p) (hp : ¬ p ']')
    (h : Gives read document result) (hw : Blanks w) (hw' : Blanks w')
    (hcs : Spells document cs) (hrest : Delimited rest) :
    (element? false read).run (w ++ ',' :: (w' ++ (cs ++ rest))) =
      outcome (result.map some) rest := by
  refine (run_bind_of_ok (peek?_run hw rfl _)).trans ?_
  refine (run_bind_of_ok (expect_run blanks_nil rfl _)).trans ?_
  have hnext : Gives (do
      if (← peek?) = some ']' then malformed
      return some (← read)) document (result.map some) := by
    refine .peek hopen fun c hc => ?_
    have hne : c ≠ ']' := fun heq => hp (heq ▸ hc)
    rw [if_neg (by simpa using hne)]
    exact h.map some
  exact hnext w' cs rest hw' hcs hrest

variable {write : β → Json} {f : β → Option α}

theorem elements_run_of_element {bound : Nat} (done : List α) {result : Option α}
    {cs' : List Char}
    (h : (element? done.isEmpty read).run cs = outcome (result.map some) cs') :
    (elements read (bound + 1) done).run cs =
      result.elim (.error .malformed) fun a => (elements read bound (a :: done)).run cs' := by
  cases result with
  | none => exact run_bind_of_error h
  | some a => exact run_bind_of_ok h

theorem elements_run_more {bs : List β} {done : List α} {bound : Nat}
    (hopen : ∀ b, Opens (write b) p) (hp : ¬ p ']') (h : ∀ b ∈ bs, Gives read (write b) (f b))
    (hdone : done.isEmpty = false) (hbound : bs.length < bound)
    (htail : SpellsMoreItems (bs.map write) tail) (rest : List Char) :
    (elements read bound done).run (tail ++ ']' :: rest) =
      outcome ((bs.mapM f).map (done.reverse ++ ·)) rest := by
  obtain ⟨bound, rfl⟩ := Nat.exists_eq_succ_of_ne_zero (Nat.ne_zero_of_lt hbound)
  induction bs generalizing done bound tail with
  | nil =>
    obtain ⟨hw⟩ := htail
    refine (run_bind_of_ok (element?_run_end hw _ rest)).trans ?_
    refine (run_bind_of_ok (expect_run blanks_nil rfl rest)).trans ?_
    simp [outcome]
    rfl
  | cons b bs ih =>
    obtain ⟨bound, rfl⟩ := Nat.exists_eq_succ_of_ne_zero (n := bound) (by simp at hbound; omega)
    cases htail with
    | @cons w _ _ _ hw hitems =>
      cases hitems with
      | @cons w' cs tail _ _ hw' hcs ht =>
        have htext : (w ++ ',' :: (w' ++ (cs ++ tail))) ++ ']' :: rest =
            w ++ ',' :: (w' ++ (cs ++ (tail ++ ']' :: rest))) := by simp
        rw [htext, elements_run_of_element done (hdone ▸ element?_run_more (hopen b) hp
          (h b List.mem_cons_self) hw hw' hcs (ht.delimited rest)), List.mapM_cons]
        cases f b with
        | none => rfl
        | some a =>
          refine (ih (fun b hb => h b (List.mem_cons_of_mem _ hb)) rfl ht bound
            (by simpa using hbound)).trans ?_
          cases bs.mapM f <;> simp [outcome]

end Elements

namespace Gives

theorem array {write : β → Json} {f : β → Option α} {p : Char → Prop} {bs : List β}
    (hopen : ∀ b, Opens (write b) p) (hp : ¬ p ']') (h : ∀ b ∈ bs, Gives read (write b) (f b)) :
    Gives (Reading.array read) (.array (bs.map write)) (bs.mapM f) := by
  intro w cs rest hw hcs hrest
  cases hcs with
  | leaf h => cases h
  | @array _ cs hitems =>
    have htext : w ++ ('[' :: (cs ++ [']']) ++ rest) = w ++ '[' :: (cs ++ ']' :: rest) := by simp
    rw [htext]
    refine (run_bind_of_ok (expect_run hw rfl _)).trans ?_
    change (elements read ((cs ++ ']' :: rest).length + 1) []).run (cs ++ ']' :: rest) = _
    have hlength : bs.length ≤ cs.length + 1 := by simpa using hitems.length_le
    cases bs with
    | nil =>
      obtain ⟨hw'⟩ := hitems
      refine (run_bind_of_ok (element?_run_end hw' true rest)).trans ?_
      exact run_bind_of_ok (expect_run blanks_nil rfl rest)
    | cons b bs =>
      cases hitems with
      | @cons w' cs tail _ _ hw' hcs ht =>
        rw [List.append_assoc, List.append_assoc]
        refine (elements_run_of_element [] (element?_run_first (hopen b) hp (h b List.mem_cons_self)
          hw' hcs (ht.delimited rest))).trans ?_
        rw [List.mapM_cons]
        cases f b with
        | none => rfl
        | some a =>
          refine (elements_run_more hopen hp (fun b hb => h b (List.mem_cons_of_mem _ hb)) rfl
            ?_ ht rest).trans ?_
          · simp only [List.length_cons, List.length_append] at hlength ⊢
            omega
          · cases bs.mapM f <;> simp [outcome]

end Gives

/-! ## Objects -/

theorem SpellsMoreFields.length_le (h : SpellsMoreFields fields tail) :
    fields.length ≤ tail.length := by
  induction fields generalizing tail with
  | nil => exact Nat.zero_le _
  | cons field fields ih =>
    cases h with
    | cons hw h =>
      cases h with
      | cons _ _ _ _ _ ht =>
        have := ih ht
        simp only [List.length_append, List.length_cons]
        omega

theorem SpellsFields.length_le (h : SpellsFields fields cs) : fields.length ≤ cs.length := by
  cases h with
  | nil => exact Nat.zero_le _
  | cons _ _ _ _ _ ht =>
    have := ht.length_le
    simp only [List.length_append, List.length_cons]
    omega

/-- The fields are read one by one onto a state, up to the first that has a wrong form. -/
inductive GivesFields (readField : String → σ → Reading ε σ) :
    List (String × Json) → σ → Option σ → Prop
  | nil {state : σ} : GivesFields readField [] state (some state)
  | cons {name : String} {content : Json} {fields : List (String × Json)} {state next : σ}
      {result : Option σ} (h : Gives (readField name state) content (some next))
      (ht : GivesFields readField fields next result) :
      GivesFields readField ((name, content) :: fields) state result
  | refused {name : String} {content : Json} {fields : List (String × Json)} {state : σ}
      (h : Gives (readField name state) content none) :
      GivesFields readField ((name, content) :: fields) state none

theorem GivesFields.last {readField : String → σ → Reading ε σ} {name : String} {content : Json}
    {state : σ} {result : Option σ} (h : Gives (readField name state) content result) :
    GivesFields readField [(name, content)] state result := by
  cases result with
  | none => exact .refused h
  | some next => exact .cons h .nil

section Fields

variable {readField : String → σ → Reading ε σ} {state : σ} {result : Option σ}

theorem field_run {name : String} {content : Json} (h : Gives (readField name state) content result)
    (hcs : SpellsFields ((name, content) :: fields) cs) : ∃ tail, SpellsMoreFields fields tail ∧
      ∀ (goOn : σ → Reading ε σ) (rest : List Char), (do
        let name ← Reading.string
        expect ':'
        let state ← readField name state
        goOn state).run (cs ++ '}' :: rest) =
          result.elim (.error .malformed) fun state => (goOn state).run (tail ++ '}' :: rest) := by
  cases hcs with
  | @cons _ w₁ w₂ w₃ cs tail _ _ hw₁ hw₂ hw₃ hcs htail =>
    refine ⟨tail, htail, fun goOn rest => ?_⟩
    have htext : w₁ ++ ((quote name).toList ++ (w₂ ++ ':' :: (w₃ ++ (cs ++ tail)))) ++ '}' :: rest =
        w₁ ++ ((quote name).toList ++ (w₂ ++ ':' :: (w₃ ++ (cs ++ (tail ++ '}' :: rest))))) := by
      simp
    have hread := h w₃ cs _ hw₃ hcs (htail.delimited rest)
    rw [htext]
    refine (run_bind_of_ok (string_run hw₁ name _)).trans ?_
    refine (run_bind_of_ok (expect_run hw₂ rfl _)).trans ?_
    cases result with
    | none => exact run_bind_of_error hread
    | some next => exact run_bind_of_ok hread

theorem fieldsOnto_run_end (hw : Blanks w) (bound : Nat) (first : Bool) (rest : List Char) :
    (fieldsOnto readField (bound + 1) first state).run (w ++ '}' :: rest) = .ok (state, rest) :=
  (run_bind_of_ok (peek?_run hw rfl _)).trans (run_bind_of_ok (expect_run blanks_nil rfl rest))

theorem fieldsOnto_run_more {bound : Nat} (h : GivesFields readField fields state result)
    (hbound : fields.length < bound) (htail : SpellsMoreFields fields tail) (rest : List Char) :
    (fieldsOnto readField bound false state).run (tail ++ '}' :: rest) = outcome result rest := by
  obtain ⟨bound, rfl⟩ := Nat.exists_eq_succ_of_ne_zero (Nat.ne_zero_of_lt hbound)
  have hcomma {w cs : List Char} (hw : Blanks w) (state : σ) (bound : Nat) :
      (fieldsOnto readField (bound + 1) false state).run (w ++ ',' :: cs ++ '}' :: rest) = (do
        let name ← Reading.string
        expect ':'
        let state ← readField name state
        fieldsOnto readField bound false state).run (cs ++ '}' :: rest) := by
    rw [List.append_assoc]
    exact (run_bind_of_ok (peek?_run hw rfl _)).trans (run_bind_of_ok (expect_run blanks_nil rfl _))
  induction h generalizing bound tail with
  | nil =>
    obtain ⟨hw⟩ := htail
    exact fieldsOnto_run_end hw bound false rest
  | cons h ht ih =>
    cases htail with
    | cons hw hfields =>
      obtain ⟨tail, htail, hfield⟩ := field_run h hfields
      obtain ⟨bound, rfl⟩ := Nat.exists_eq_succ_of_ne_zero (n := bound) (by simp at hbound; omega)
      rw [hcomma hw, hfield]
      exact ih htail bound (by simpa using hbound)
  | refused h =>
    cases htail with
    | cons hw hfields =>
      obtain ⟨tail, -, hfield⟩ := field_run h hfields
      rw [hcomma hw, hfield]
      rfl

theorem SpellsFields.exists_mark {name : String} {content : Json}
    (h : SpellsFields ((name, content) :: fields) cs) : ∃ w tail, Blanks w ∧
      cs = w ++ '\x22' :: tail ∧ SpellsFields ((name, content) :: fields) ('\x22' :: tail) := by
  cases h with
  | @cons _ w₁ w₂ w₃ cs tail _ _ hw₁ hw₂ hw₃ hcs htail =>
    obtain ⟨_, inside, hquote, rfl⟩ := (opens_string name).2 _ (.leaf rfl)
    change (quote name).toList = _ at hquote
    have hfields := SpellsFields.cons name blanks_nil hw₂ hw₃ hcs htail
    rw [hquote] at hfields ⊢
    exact ⟨w₁, _, hw₁, rfl, hfields⟩

theorem Gives.object (h : GivesFields readField fields state result) :
    Gives (Reading.object readField state) (.object fields) result := by
  intro w cs rest hw hcs hrest
  cases hcs with
  | leaf h => cases h
  | @object _ cs hfields =>
    have htext : w ++ ('{' :: (cs ++ ['}']) ++ rest) = w ++ '{' :: (cs ++ '}' :: rest) := by simp
    have hlength := hfields.length_le
    rw [htext]
    refine (run_bind_of_ok (expect_run hw rfl _)).trans ?_
    change (fieldsOnto readField ((cs ++ '}' :: rest).length + 1) true state).run
      (cs ++ '}' :: rest) = _
    have hbound : fields.length < (cs ++ '}' :: rest).length := by
      rw [List.length_append, List.length_cons]
      omega
    generalize (cs ++ '}' :: rest).length = bound at hbound
    cases h with
    | nil =>
      obtain ⟨hw'⟩ := hfields
      exact fieldsOnto_run_end hw' bound true rest
    | cons h ht =>
      obtain ⟨w', inside, hw', rfl, hmark⟩ := hfields.exists_mark
      obtain ⟨tail, htail, hfield⟩ := field_run h hmark
      rw [List.append_assoc]
      refine (run_bind_of_ok (peek?_run hw' rfl _)).trans ((hfield _ rest).trans ?_)
      exact fieldsOnto_run_more ht (Nat.lt_of_succ_lt hbound) htail rest
    | refused h =>
      obtain ⟨w', inside, hw', rfl, hmark⟩ := hfields.exists_mark
      obtain ⟨tail, -, hfield⟩ := field_run h hmark
      rw [List.append_assoc]
      exact (run_bind_of_ok (peek?_run hw' rfl _)).trans (hfield _ rest)

end Fields

/-! ## Whole texts -/

/-- A text of a document is read as a whole for what the document gives. -/
theorem Gives.whole {result : Option α} (h : Gives read document result) {text : String}
    (htext : Spells document text.toList) :
    Reading.whole read text = result.elim (.error .malformed) .ok := by
  have hread := h [] text.toList [] blanks_nil htext delimited_nil
  rw [List.nil_append, List.append_nil] at hread
  rw [Reading.whole, hread]
  cases result <;> rfl

end InvariantMachine.Json

import Mathlib
import InvariantMachine.Proofs.Grammar

/-!
# What encoding accepts

Encoding adds the phrases of a token list to a program one by one, so it accepts a list exactly
when the list is a sequence of phrases that stays within the limits of programs. The program then
has one instruction for each phrase and one string for each phrase with a text.
-/

namespace InvariantMachine

namespace Phrase

def text? : Phrase → Option String
  | string _ text => some text
  | _ => none

def offset? : Phrase → Option UInt32
  | entryPoint offset _ => some offset
  | _ => none

/-- The instruction of a phrase that `count` texts come before. -/
def instructionAfter (count : Nat) : Phrase → Instruction
  | instruction i => i
  | string op _ => .withOperand op (.stringIndex (UInt32.ofNat count))
  | entryPoint _ _ => .bare .nop

def texts (φs : List Phrase) : List String := φs.filterMap text?

def offsets (φs : List Phrase) : List UInt32 := φs.filterMap offset?

/-- One instruction for each phrase, the first of which `count` texts come before. -/
def instructionsAfter : Nat → List Phrase → List Instruction
  | _, [] => []
  | count, φ :: φs =>
    φ.instructionAfter count :: instructionsAfter (count + φ.text?.toList.length) φs

@[simp] theorem instructionsAfter_length (count : Nat) (φs : List Phrase) :
    (instructionsAfter count φs).length = φs.length := by
  induction φs generalizing count with
  | nil => rfl
  | cons φ φs ih => rw [instructionsAfter, List.length_cons, ih, List.length_cons]

/-- The entry point of a program of phrases: the declared one, else none and offset zero. -/
def entryOf (φs : List Phrase) : EntryPoint :=
  (offsets φs).head?.elim ⟨0, false⟩ (⟨·, true⟩)

/-- The limits of phrases that are to make a program. -/
structure WithinLimits (φs : List Phrase) : Prop where
  length_le : φs.length ≤ 1024
  bytes_le : totalBytes (texts φs) ≤ 65536
  offsets_le : (offsets φs).length ≤ 1

variable {φ : Phrase} {φs : List Phrase} {piece rest tokens : List Token} {p q : Program}

theorem encodeOnto_eq_drop (p : Program) (n : Nat) (tokens : List Token) :
    encodeOnto p n tokens = encodeOnto p 0 (tokens.drop n) := by
  induction tokens generalizing n with
  | nil => simp [encodeOnto]
  | cons token tokens ih =>
    cases n with
    | zero => rfl
    | succ n =>
      rw [encodeOnto, List.drop_succ_cons]
      exact ih n

theorem Spelled.encodeOnto_append (h : Spelled piece φ) (p : Program) (rest : List Token) :
    encodeOnto p 0 (piece ++ rest) = (φ.addTo p >>= fun q => encodeOnto q 0 rest) := by
  obtain ⟨head, operands, rfl, hcount, hread⟩ := h.read_append
  rw [List.cons_append, encodeOnto]
  simp only [hread rest]
  cases φ.addTo p with
  | error e => rfl
  | ok q =>
    change encodeOnto q φ.operandCount (operands ++ rest) = encodeOnto q 0 rest
    rw [encodeOnto_eq_drop, ← hcount, List.drop_left]

theorem Source.encodeOnto_eq (h : Source tokens φs) (p : Program) :
    encodeOnto p 0 tokens = φs.foldlM (fun p φ => φ.addTo p) p := by
  induction h generalizing p with
  | nil => rfl
  | cons hfirst _ ih =>
    rw [hfirst.encodeOnto_append, List.foldlM_cons]
    congr 1
    funext q
    exact ih q

theorem exists_source (h : encodeOnto p 0 tokens = .ok q) : ∃ φs, Source tokens φs := by
  induction hn : tokens.length using Nat.strong_induction_on generalizing p tokens with
  | _ n ih =>
    cases tokens with
    | nil => exact ⟨[], .nil⟩
    | cons head following =>
      rw [encodeOnto] at h
      split at h
      · cases h
      · rename_i φ hφ
        obtain ⟨operands, rest, rfl, hcount, hspelled⟩ := read_eq_ok hφ
        split at h
        · cases h
        · rename_i p' _
          rw [encodeOnto_eq_drop, ← hcount, List.drop_left] at h
          have hlt : rest.length < n := by
            simp only [List.length_cons, List.length_append] at hn
            omega
          obtain ⟨φs, hrest⟩ := ih rest.length hlt h rfl
          exact ⟨φ :: φs, .cons hspelled hrest⟩

/-! ### Adding phrases -/

theorem addTo_eq_ok (h : φ.addTo p = .ok q) :
    q.parts.instructions = p.parts.instructions ++ [φ.instructionAfter p.strings.size] ∧
      q.parts.strings = p.parts.strings ++ φ.text?.toList ∧
      q.entry = φ.offset?.elim p.entry (⟨·, true⟩) ∧
      (φ.offset?.isSome → p.entry.declared = false) := by
  cases φ with
  | instruction i =>
    obtain ⟨hparts, -, hentry⟩ := Program.push_eq_ok (mapError_eq_ok_iff.mp h)
    rw [hparts]
    exact ⟨rfl, (List.append_nil _).symm, hentry, nofun⟩
  | string op text =>
    obtain ⟨⟨k, p'⟩, hintern, hpush⟩ := bind_eq_ok_iff.mp h
    obtain ⟨rfl, hparts, hentry⟩ := Program.intern_eq_ok (mapError_eq_ok_iff.mp hintern)
    obtain ⟨hparts', -, hentry'⟩ := Program.push_eq_ok (mapError_eq_ok_iff.mp hpush)
    rw [hparts', hparts]
    exact ⟨rfl, rfl, hentry'.trans hentry, nofun⟩
  | entryPoint offset line =>
    simp only [addTo] at h
    split at h
    · cases h
    · rename_i p' hdeclare
      obtain ⟨hundeclared, rfl⟩ := Program.declareEntry?_eq_some_iff.mp hdeclare
      obtain ⟨hparts, -, hentry⟩ := Program.push_eq_ok (mapError_eq_ok_iff.mp h)
      rw [hparts]
      exact ⟨rfl, (List.append_nil _).symm, hentry, fun _ => hundeclared⟩

theorem texts_cons (φ : Phrase) (φs : List Phrase) :
    texts (φ :: φs) = φ.text?.toList ++ texts φs := by
  cases φ <;> rfl

theorem offsets_cons (φ : Phrase) (φs : List Phrase) :
    offsets (φ :: φs) = φ.offset?.toList ++ offsets φs := by
  cases φ <;> rfl

/-- The program has room for the phrases. -/
structure Room (p : Program) (φs : List Phrase) : Prop where
  length_le : p.parts.instructions.length + φs.length ≤ 1024
  strings_le : p.parts.strings.length + (texts φs).length ≤ 4096
  bytes_le : totalBytes p.parts.strings + totalBytes (texts φs) ≤ 65536
  offsets_le : p.entry.declared.toNat + (offsets φs).length ≤ 1

theorem Room.tail (hroom : Room p (φ :: φs)) (h : φ.addTo p = .ok q) : Room q φs := by
  obtain ⟨hinstructions, hstrings, hentry, -⟩ := addTo_eq_ok h
  obtain ⟨hlength, hcount, hbytes, hoffsets⟩ := hroom
  rw [texts_cons, List.length_append] at hcount
  rw [texts_cons, totalBytes_append] at hbytes
  rw [offsets_cons, List.length_append] at hoffsets
  rw [List.length_cons] at hlength
  refine ⟨?_, ?_, ?_, ?_⟩
  · rw [hinstructions, List.length_append, List.length_singleton]
    omega
  · rw [hstrings, List.length_append]
    omega
  · rw [hstrings, totalBytes_append]
    omega
  · rw [hentry]
    cases hoffset : φ.offset? with
    | none =>
      rw [hoffset] at hoffsets
      simpa using hoffsets
    | some offset =>
      rw [hoffset] at hoffsets
      simp only [Option.toList_some, List.length_singleton] at hoffsets
      simp only [Option.elim_some, Bool.toNat_true]
      omega

theorem Spelled.wellFormed {i : Instruction} (h : Spelled piece (.instruction i)) :
    i.isWellFormed := by
  cases h with
  | bare _ hshape => exact (Instruction.isWellFormed_iff _).mpr (.bare hshape)
  | target _ hshape _ _ => exact (Instruction.isWellFormed_iff _).mpr (.target _ hshape)
  | literal _ hshape hdenotes =>
    exact (Instruction.isWellFormed_iff _).mpr (.literal hshape hdenotes.isLiteral)
  | move _ hshape hdestination hoperand =>
    have hregister := hdestination.isLiteral
    rw [Instruction.isLiteral] at hregister
    simp only [Instruction.isWellFormed, hshape, hregister, Bool.true_and, Bool.or_eq_true,
      beq_iff_eq]
    exact hoperand.imp And.right Token.Denotes.isLiteral

theorem Spelled.refersBelow {i : Instruction} (h : Spelled piece (.instruction i)) (n : Nat) :
    i.RefersBelow n := by
  intro k hk
  cases h with
  | bare _ _ | target _ _ _ _ => cases hk
  | literal _ _ hdenotes =>
    cases hk
    cases hdenotes
  | move _ _ _ hoperand =>
    cases hk
    rcases hoperand with ⟨-, htop⟩ | hdenotes
    · cases htop
    · cases hdenotes

theorem exists_intern_push {op : Opcode} {text : String} (hshape : op.shape = .stringRef)
    (hlength : p.parts.instructions.length < 1024) (hvalid : (p.parts.withString text).Valid) :
    ∃ k p' q, p.intern text = .ok (k, p') ∧ p'.push (.withOperand op (.stringIndex k)) = .ok q := by
  obtain ⟨k, p', hintern⟩ := Program.exists_intern hvalid
  obtain ⟨-, hparts, -⟩ := Program.intern_eq_ok hintern
  have hlength' : p'.parts.instructions.length < 1024 := by
    rw [hparts]
    exact hlength
  obtain ⟨q, hq⟩ := Program.exists_push (p'.parts_valid.withInstruction_iff.mpr
    ⟨hlength', (Instruction.isWellFormed_iff _).mpr (.stringRef _ hshape),
      Program.refersBelow_of_intern hintern op⟩)
  exact ⟨k, p', q, hintern, hq⟩

theorem Spelled.exists_addTo (h : Spelled piece φ) (hroom : Room p (φ :: φs)) :
    ∃ q, φ.addTo p = .ok q := by
  have hlength : p.parts.instructions.length < 1024 := by
    have hle := hroom.length_le
    rw [List.length_cons] at hle
    omega
  cases φ with
  | instruction i =>
    obtain ⟨q, hq⟩ := Program.exists_push
      (p.parts_valid.withInstruction_iff.mpr ⟨hlength, h.wellFormed, h.refersBelow _⟩)
    exact ⟨q, mapError_eq_ok_iff.mpr hq⟩
  | string op text =>
    have hshape : op.shape = .stringRef := by
      cases h
      assumption
    have hcount := hroom.strings_le
    have hbytes := hroom.bytes_le
    rw [texts_cons, List.length_append] at hcount
    rw [texts_cons, totalBytes_append] at hbytes
    simp only [text?, Option.toList_some, List.length_singleton, totalBytes] at hcount hbytes
    have hvalid : (p.parts.withString text).Valid :=
      p.parts_valid.withString_iff.mpr ⟨by omega, by omega⟩
    obtain ⟨k, p', q, hintern, hq⟩ := exists_intern_push hshape hlength hvalid
    exact ⟨q, bind_eq_ok_iff.mpr
      ⟨(k, p'), mapError_eq_ok_iff.mpr hintern, mapError_eq_ok_iff.mpr hq⟩⟩
  | entryPoint offset line =>
    have hdeclared : p.entry.declared = false := by
      have hoffsets := hroom.offsets_le
      rw [offsets_cons, List.length_append] at hoffsets
      simp only [offset?, Option.toList_some, List.length_singleton] at hoffsets
      cases hd : p.entry.declared with
      | false => rfl
      | true =>
        rw [hd, Bool.toNat_true] at hoffsets
        omega
    have hnop : (Instruction.bare .nop).isWellFormed := rfl
    have hrefers : (Instruction.bare .nop).RefersBelow p.parts.strings.length := by
      intro k hk
      cases hk
    obtain ⟨q, hq⟩ := @Program.exists_push (p.setEntry ⟨offset, true⟩) (.bare .nop)
      (p.parts_valid.withInstruction_iff.mpr ⟨hlength, hnop, hrefers⟩)
    refine ⟨q, ?_⟩
    simp only [addTo, Program.declareEntry?_eq_some_iff.mpr ⟨hdeclared, rfl⟩]
    exact mapError_eq_ok_iff.mpr hq

theorem Source.exists_foldlM (h : Source tokens φs) (hroom : Room p φs) :
    ∃ q, φs.foldlM (fun p φ => φ.addTo p) p = .ok q := by
  induction h generalizing p with
  | nil => exact ⟨p, rfl⟩
  | cons hfirst _ ih =>
    obtain ⟨p', hp'⟩ := hfirst.exists_addTo hroom
    obtain ⟨q, hq⟩ := ih (hroom.tail hp')
    exact ⟨q, bind_eq_ok_iff.mpr ⟨p', hp', hq⟩⟩

theorem foldlM_eq_ok (h : φs.foldlM (fun p φ => φ.addTo p) p = .ok q) :
    q.parts.instructions = p.parts.instructions ++ instructionsAfter p.strings.size φs ∧
      q.parts.strings = p.parts.strings ++ texts φs ∧
      q.entry = (offsets φs).head?.elim p.entry (⟨·, true⟩) ∧
      p.entry.declared.toNat + (offsets φs).length ≤ 1 := by
  induction φs generalizing p with
  | nil =>
    cases h
    have hdeclared := q.entry.declared.toNat_le
    simpa [instructionsAfter, texts, offsets] using hdeclared
  | cons φ φs ih =>
    obtain ⟨p', hp', hq⟩ := bind_eq_ok_iff.mp h
    obtain ⟨hinstructions, hstrings, hentry, hdeclared⟩ := addTo_eq_ok hp'
    obtain ⟨hinstructions', hstrings', hentry', hoffsets⟩ := ih hq
    have hsize : p'.strings.size = p.strings.size + φ.text?.toList.length := by
      have hlen := congrArg List.length hstrings
      rw [List.length_append] at hlen
      exact hlen
    rw [hsize, hinstructions, List.append_assoc] at hinstructions'
    rw [hstrings, List.append_assoc, ← texts_cons] at hstrings'
    refine ⟨hinstructions', hstrings', ?_⟩
    rw [offsets_cons]
    cases hoffset : φ.offset? with
    | none =>
      rw [hoffset, Option.elim_none] at hentry
      rw [hentry] at hentry' hoffsets
      exact ⟨hentry', hoffsets⟩
    | some offset =>
      rw [hoffset, Option.elim_some] at hentry
      rw [hentry] at hentry' hoffsets
      have hnil : offsets φs = [] := by
        rw [Bool.toNat_true] at hoffsets
        exact List.length_eq_zero_iff.mp (by omega)
      have hundeclared : p.entry.declared = false := hdeclared (by rw [hoffset]; rfl)
      rw [hnil] at hentry'
      rw [hnil, hundeclared]
      exact ⟨hentry', le_rfl⟩

theorem WithinLimits.room (h : WithinLimits φs) : Room .empty φs where
  length_le := (Nat.zero_add φs.length).trans_le h.length_le
  strings_le := by
    have hcount : (texts φs).length ≤ φs.length := List.length_filterMap_le _ _
    have hlength := h.length_le
    have hempty : Program.empty.parts.strings.length = 0 := rfl
    omega
  bytes_le := (Nat.zero_add _).trans_le h.bytes_le
  offsets_le := (Nat.zero_add _).trans_le h.offsets_le

theorem encode_eq_ok (h : encode tokens = .ok p) :
    ∃ φs, Source tokens φs ∧ WithinLimits φs ∧ p.instructions.toList = instructionsAfter 0 φs ∧
      p.strings.toList = texts φs ∧ p.entry = entryOf φs := by
  obtain ⟨φs, hsource⟩ := exists_source h
  have hfold : φs.foldlM (fun p φ => φ.addTo p) .empty = .ok p :=
    (hsource.encodeOnto_eq .empty).symm.trans h
  obtain ⟨hinstructions, hstrings, hentry, hoffsets⟩ := foldlM_eq_ok hfold
  have hlength := p.parts_valid.length_le
  have hbytes := p.parts_valid.bytes_le
  rw [hinstructions, List.length_append, instructionsAfter_length] at hlength
  rw [hstrings, totalBytes_append] at hbytes
  exact ⟨φs, hsource, ⟨by omega, by omega, by omega⟩, hinstructions, hstrings, hentry⟩

theorem Source.exists_encode (h : Source tokens φs) (hlimits : WithinLimits φs) :
    ∃ p, encode tokens = .ok p := by
  obtain ⟨p, hp⟩ := h.exists_foldlM hlimits.room
  exact ⟨p, (h.encodeOnto_eq .empty).trans hp⟩

theorem Source.exists_program (h : Source tokens φs) (hlimits : WithinLimits φs) :
    ∃ p, encode tokens = .ok p ∧ p.instructions.toList = instructionsAfter 0 φs ∧
      p.strings.toList = texts φs ∧ p.entry = entryOf φs := by
  obtain ⟨p, hp⟩ := h.exists_encode hlimits
  obtain ⟨φs', hsource, -, hparts⟩ := encode_eq_ok hp
  obtain rfl := h.unique hsource
  exact ⟨p, hp, hparts⟩

end Phrase

open Phrase in
/-- Encoding accepts exactly the sequences of phrases that stay within the limits, and a sequence
is read in one way only. The program has one instruction for each phrase, in which a string is
numbered by the strings before it; the texts, none of them shared; and the declared entry point. -/
theorem encode_accepts_grammar (tokens : List Token) :
    ((∃ p, encode tokens = .ok p) ↔ ∃ φs, Source tokens φs ∧ WithinLimits φs) ∧
    ∀ p, encode tokens = .ok p ↔ ∃! φs, Source tokens φs ∧ WithinLimits φs ∧
      p.instructions.toList = instructionsAfter 0 φs ∧ p.strings.toList = texts φs ∧
      p.entry = entryOf φs := by
  refine ⟨⟨?_, ?_⟩, fun p => ⟨?_, ?_⟩⟩
  · rintro ⟨p, hp⟩
    obtain ⟨φs, hsource, hlimits, -⟩ := encode_eq_ok hp
    exact ⟨φs, hsource, hlimits⟩
  · rintro ⟨φs, hsource, hlimits⟩
    exact hsource.exists_encode hlimits
  · intro hp
    obtain ⟨φs, hφs⟩ := encode_eq_ok hp
    exact ⟨φs, hφs, fun φs' hφs' => hφs'.1.unique hφs.1⟩
  · rintro ⟨φs, ⟨hsource, hlimits, hinstructions, hstrings, hentry⟩, -⟩
    obtain ⟨q, hq⟩ := hsource.exists_encode hlimits
    obtain ⟨φs', hsource', -, hinstructions', hstrings', hentry'⟩ := encode_eq_ok hq
    obtain rfl := hsource.unique hsource'
    have hparts : p.parts = q.parts := by
      rw [Program.parts, Program.parts, hinstructions, hinstructions', hstrings, hstrings']
    rw [Program.ext_parts hparts (hentry.trans hentry'.symm)]
    exact hq

end InvariantMachine

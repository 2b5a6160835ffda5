import Mathlib
import InvariantMachine.Code.DocumentReading
import InvariantMachine.Proofs.Encoding
import InvariantMachine.Proofs.StoredPrograms

/-!
# Where programs come from

A program is encoded, read from a stored form or a document, or built call by call, and refused
calls may lie among those that built it. Its parts are valid wherever it comes from. The two ways
to read parts back accept the same ones, those that are valid, and make the same program of them.
-/

namespace InvariantMachine

/-- A call that builds a program. -/
inductive BuilderCall where
  | push (i : Instruction)
  | pushString (text : String)
  | intern (text : String)
  | declareEntry (offset : UInt32)
deriving DecidableEq

namespace BuilderCall

def perform (p : Program) : BuilderCall → Program
  | push i => (p.push i).toOption.getD p
  | pushString text => (p.pushString text).2
  | intern text => (p.intern text).toOption.elim p (·.2)
  | declareEntry offset => (p.declareEntry? offset).getD p

end BuilderCall

namespace Parts

/-- The next parts if they are valid, else the old ones. -/
def changeTo (parts next : Parts) : Parts := if next.Valid then next else parts

/-- The parts after a call. A string that is pushed is interned first, and the pool keeps it even
if the instruction is refused. -/
def after (parts : Parts) : BuilderCall → Parts
  | .push i => parts.changeTo (parts.withInstructions [i])
  | .pushString text =>
    let interned := parts.withString text
    if interned.Valid then
      interned.changeTo (interned.withInstructions
        [.withOperand .pushStr (.stringIndex (UInt32.ofNat parts.strings.length))])
    else parts
  | .intern text => parts.changeTo (parts.withString text)
  | .declareEntry _ => parts

end Parts

theorem Json.Reading.whole_eq_ok_iff {ε α : Type} {read : Reading ε α} {text : String} {a : α} :
    whole read text = .ok a ↔
      ∃ rest, read.run text.toList = .ok (a, rest) ∧ (nonBlank rest).isEmpty := by
  unfold whole
  cases read.run text.toList with
  | error e => simp
  | ok r =>
    obtain ⟨b, rest⟩ := r
    change (if (nonBlank rest).isEmpty then Except.ok b else .error ReadError.malformed) = .ok a ↔ _
    split
    · rename_i hblank
      constructor
      · rintro ⟨⟩
        exact ⟨rest, rfl, hblank⟩
      · rintro ⟨_, ⟨⟩, -⟩
        rfl
    · rename_i hblank
      constructor
      · rintro ⟨⟩
      · rintro ⟨_, ⟨⟩, hblank'⟩
        exact absurd hblank' hblank

namespace Program

variable {p q : Program} {i : Instruction} {text : String}

theorem parts_push (p : Program) (i : Instruction) :
    ((p.push i).toOption.getD p).parts = p.parts.changeTo (p.parts.withInstructions [i]) := by
  unfold Parts.changeTo
  cases h : p.push i with
  | error e =>
    have hinvalid : ¬(p.parts.withInstructions [i]).Valid := by
      intro hvalid
      obtain ⟨q, hq⟩ := exists_push hvalid
      rw [h] at hq
      cases hq
    rw [if_neg hinvalid]
    rfl
  | ok q =>
    obtain ⟨hvalid, hparts, -⟩ := push_eq_ok_iff.mp h
    rw [if_pos hvalid]
    exact hparts

theorem not_valid_of_intern_eq_error {cause : CapacityExceeded} (h : p.intern text = .error cause) :
    ¬(p.parts.withString text).Valid := by
  intro hvalid
  obtain ⟨k, q, hq⟩ := exists_intern hvalid
  rw [h] at hq
  cases hq

theorem parts_perform (p : Program) (call : BuilderCall) :
    (call.perform p).parts = p.parts.after call := by
  cases call with
  | push i => exact p.parts_push i
  | pushString text =>
    simp only [BuilderCall.perform, pushString, Parts.after]
    cases h : p.intern text with
    | error cause => rw [if_neg (not_valid_of_intern_eq_error h)]
    | ok r =>
      obtain ⟨k, p'⟩ := r
      obtain ⟨hvalid, rfl, hparts, -⟩ := intern_eq_ok_iff.mp h
      have hsize : p.parts.strings.length = p.strings.size := rfl
      -- the instruction is offered to the program that has the text already
      rw [if_pos hvalid, ← hparts, hsize, ← p'.parts_push]
      dsimp only
      cases p'.push _ <;> rfl
  | intern text =>
    simp only [BuilderCall.perform, Parts.after, Parts.changeTo]
    cases h : p.intern text with
    | error cause =>
      rw [if_neg (not_valid_of_intern_eq_error h)]
      rfl
    | ok r =>
      obtain ⟨hvalid, -, hparts, -⟩ := intern_eq_ok_iff.mp h
      rw [if_pos hvalid]
      exact hparts
  | declareEntry offset =>
    simp only [BuilderCall.perform, declareEntry?, Parts.after]
    split <;> rfl

theorem parts_foldl_perform (p : Program) (calls : List BuilderCall) :
    (calls.foldl BuilderCall.perform p).parts = calls.foldl Parts.after p.parts := by
  induction calls generalizing p with
  | nil => rfl
  | cons call calls ih =>
    rw [List.foldl_cons, List.foldl_cons, ih, parts_perform]

theorem built_run_eq_ok_iff {xs : List Instruction} {pool : StringPool} {entry : EntryPoint}
    {chars rest : List Char} :
    (built xs pool entry).run chars = .ok (p, rest) ↔
      ofParts xs pool entry = .ok p ∧ rest = chars := by
  unfold built
  cases ofParts xs pool entry with
  | error cause =>
    constructor
    · intro h
      cases h
    · rintro ⟨⟨⟩, -⟩
  | ok q =>
    constructor
    · intro h
      cases h
      exact ⟨rfl, rfl⟩
    · rintro ⟨⟨⟩, rfl⟩
      rfl

theorem ofDocumentText_eq_ok_iff {document : String} :
    ofDocumentText document = .ok p ↔ ∃ xs pool entry,
      Json.Reading.whole readParts document = .ok (xs, pool, entry) ∧
        ofParts xs pool entry = .ok p := by
  unfold ofDocumentText
  simp only [Json.Reading.whole_eq_ok_iff, read, StateT.run_bind, bind_eq_ok_iff]
  constructor
  · rintro ⟨rest, ⟨⟨⟨xs, pool, entry⟩, rest'⟩, hread, hbuilt⟩, hblank⟩
    obtain ⟨hparts, rfl⟩ := built_run_eq_ok_iff.mp hbuilt
    exact ⟨xs, pool, entry, ⟨rest, hread, hblank⟩, hparts⟩
  · rintro ⟨xs, pool, entry, ⟨rest, hread, hblank⟩, hparts⟩
    exact ⟨rest, ⟨_, hread, built_run_eq_ok_iff.mpr ⟨hparts, rfl⟩⟩, hblank⟩

theorem ofBytes_toBytes_eq_ok_iff {parts : Parts} (h : parts.Storable) {entry : EntryPoint} :
    ofBytes (parts.toBytes entry) = .ok p ↔ parts.Makes entry p := by
  have hmakes := ofBytes_of_ends (h.ends_load_toBytes entry) []
  rw [List.append_nil] at hmakes
  exact hmakes p

/-- The program comes from a producer. -/
inductive Produced : Program → Prop
  | encoded {tokens : List Token} {p : Program} (h : encode tokens = .ok p) : Produced p
  | loaded {bytes : List UInt8} {p : Program} (h : ofBytes bytes = .ok p) : Produced p
  | deserialized {text : String} {p : Program} (h : ofDocumentText text = .ok p) : Produced p
  | assembled {xs : List Instruction} {pool : StringPool} {entry : EntryPoint} {p : Program}
      (h : ofParts xs pool entry = .ok p) : Produced p
  | built (calls : List BuilderCall) : Produced (calls.foldl BuilderCall.perform .empty)

open Json.Reading in
/-- Every program that is produced has valid parts. After any calls, refused ones among them, it
has those that the accepted calls lead to; read from a document, it has those of the document. The
stored form of any parts is read as the program that the parts make, and they make one exactly
when they are valid. -/
theorem producers_valid_and_loaders_agree :
    (∀ p, Produced p → p.parts.Valid ∧ p.strings.byteSize = totalBytes p.strings.toList) ∧
    (∀ calls : List BuilderCall,
      (calls.foldl BuilderCall.perform empty).parts = calls.foldl Parts.after ⟨[], []⟩) ∧
    (∀ document p, ofDocumentText document = .ok p ↔ ∃ xs pool entry,
      whole readParts document = .ok (xs, pool, entry) ∧
        (Parts.mk xs pool.toList).Valid ∧ p.parts = ⟨xs, pool.toList⟩ ∧ p.entry = entry) ∧
    ∀ parts : Parts, parts.Storable → ∀ entry,
      (∀ p, ofBytes (parts.toBytes entry) = .ok p ↔ parts.Makes entry p) ∧
      (∀ p, parts.Makes entry p → p.parts = parts ∧ p.entry = entry) ∧
      ((∃ p, parts.Makes entry p) ↔ parts.Valid) := by
  refine ⟨fun p _ => ⟨p.parts_valid, p.strings.byteSize_eq⟩, empty.parts_foldl_perform, ?_, ?_⟩
  · intro document p
    simp only [ofDocumentText_eq_ok_iff, ofParts_eq_ok_iff]
  · intro parts hparts entry
    refine ⟨fun p => ofBytes_toBytes_eq_ok_iff hparts, ?_, ?_, ?_⟩
    · intro p hp
      exact (Parts.makes_iff_valid.mp hp).2
    · rintro ⟨p, hp⟩
      exact (Parts.makes_iff_valid.mp hp).1
    · intro hvalid
      obtain ⟨p, hp⟩ := exists_parts hvalid entry
      exact ⟨p, Parts.makes_iff_valid.mpr ⟨hvalid, hp⟩⟩

/-- Valid parts are read back from their stored form; parts whose string is missing are refused. -/
theorem producers_valid_and_loaders_agree_pushString :
    let push : Instruction := .withOperand .pushStr (.stringIndex 0)
    (∃ p, ofBytes (Parts.toBytes ⟨[push, .bare .halt], ["hi"]⟩ ⟨1, true⟩) = .ok p ∧
      p.parts = ⟨[push, .bare .halt], ["hi"]⟩) ∧
    (∀ p, ofBytes (Parts.toBytes ⟨[push], []⟩ ⟨0, false⟩) ≠ .ok p) ∧
    ([BuilderCall.push push, .pushString "hi"].foldl BuilderCall.perform empty).parts.Valid := by
  intro push
  obtain ⟨hproduced, -, -, hloaders⟩ := producers_valid_and_loaders_agree
  have hstored : Parts.Storable ⟨[push, .bare .halt], ["hi"]⟩ :=
    ⟨by decide, by decide, by decide, by decide⟩
  have hdangling : Parts.Storable ⟨[push], []⟩ := ⟨by decide, by decide, by decide, by decide⟩
  refine ⟨?_, ?_, (hproduced _ (.built _)).1⟩
  · obtain ⟨hload, hparts, hvalid⟩ := hloaders _ hstored ⟨1, true⟩
    obtain ⟨p, hp⟩ := hvalid.mpr (by decide)
    exact ⟨p, (hload p).mpr hp, (hparts p hp).1⟩
  · intro p hp
    obtain ⟨hload, -, hvalid⟩ := hloaders _ hdangling ⟨0, false⟩
    have hinvalid : ¬Parts.Valid ⟨[push], []⟩ := by decide
    exact hinvalid (hvalid.mp ⟨p, (hload p).mp hp⟩)

end Program

end InvariantMachine

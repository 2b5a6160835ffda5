import Mathlib
import InvariantMachine.Proofs.Validity

/-!
# Refused calls

A call that builds a program checks before it changes anything, so a refused call leaves the program
as it was. A string that is pushed is the exception: the text is interned before the instruction is
offered, and a full program that refuses the instruction keeps the text.
-/

namespace InvariantMachine

namespace BuilderCall

def op (opcode : Opcode) : BuilderCall := push (.bare opcode)

def opWith (opcode : Opcode) (operand : Operand) : BuilderCall := push (.withOperand opcode operand)

/-- Why a call was refused. -/
inductive Refusal where
  | program (cause : ProgramError)
  | pool (cause : CapacityExceeded)
  | entryPoint
deriving DecidableEq

/-- Why a program refuses a call, if it does. -/
def refusal? (p : Program) : BuilderCall → Option Refusal
  | push i =>
    match p.push i with
    | .ok _ => none
    | .error cause => some (.program cause)
  | pushString text =>
    match (p.pushString text).1 with
    | .ok _ => none
    | .error cause => some (.program cause)
  | intern text =>
    match p.intern text with
    | .ok _ => none
    | .error cause => some (.pool cause)
  | declareEntry offset =>
    match p.declareEntry? offset with
    | some _ => none
    | none => some .entryPoint

variable {p : Program} {i : Instruction} {text : String} {offset : UInt32} {cause : Refusal}

theorem perform_push_of_refused (h : (push i).refusal? p = some cause) :
    (push i).perform p = p := by
  simp only [refusal?] at h
  split at h
  · cases h
  · rename_i hpush
    simp only [perform, hpush]
    rfl

theorem perform_intern_of_refused (h : (intern text).refusal? p = some cause) :
    (intern text).perform p = p := by
  simp only [refusal?] at h
  split at h
  · cases h
  · rename_i hintern
    simp only [perform, hintern]
    rfl

theorem perform_declareEntry_of_refused (h : (declareEntry offset).refusal? p = some cause) :
    (declareEntry offset).perform p = p := by
  simp only [refusal?] at h
  split at h
  · cases h
  · rename_i hdeclare
    simp only [perform, hdeclare]
    rfl

theorem perform_pushString_of_no_room (hroom : ¬(p.parts.withString text).Valid) :
    (pushString text).perform p = p := by
  cases hintern : p.intern text with
  | error _ => simp only [perform, Program.pushString, hintern]
  | ok r => exact absurd (Program.intern_eq_ok_iff.mp hintern).1 hroom

theorem refusal?_pushString_of_room (hroom : (p.parts.withString text).Valid)
    (hsize : p.size < 1024) : (pushString text).refusal? p = none := by
  have hshape : Opcode.pushStr.shape = .stringRef := rfl
  obtain ⟨k, p', q, hintern, hpush⟩ := Phrase.exists_intern_push hshape hsize hroom
  simp only [refusal?, Program.pushString, hintern, hpush]

/-- A full program refuses the instruction, which fits its opcode and refers to the text, and keeps
the text. -/
theorem pushString_of_full (hroom : (p.parts.withString text).Valid) (hsize : p.size = 1024) :
    (pushString text).refusal? p = some (.program (.capacity ⟨.program, 1024⟩)) ∧
      ((pushString text).perform p).parts = p.parts.withString text ∧
      ((pushString text).perform p).entry = p.entry := by
  obtain ⟨k, p', hintern⟩ := Program.exists_intern hroom
  obtain ⟨-, hparts, hentry⟩ := Program.intern_eq_ok hintern
  cases hpush : p'.push (.withOperand .pushStr (.stringIndex k)) with
  | ok q =>
    have hlength := (p'.parts_valid.withInstruction_iff.mp (Program.push_eq_ok_iff.mp hpush).1).1
    rw [hparts] at hlength
    exact absurd hsize (Nat.ne_of_lt hlength)
  | error cause =>
    obtain ⟨-, rfl⟩ := Program.push_eq_error
      ((Instruction.isWellFormed_iff _).mpr (.stringRef k rfl))
      (Program.refersBelow_of_intern hintern .pushStr) hpush
    simp only [refusal?, perform, Program.pushString, hintern, hpush]
    exact ⟨trivial, hparts, hentry⟩

end BuilderCall

open BuilderCall in
/-- A refused call changes the program exactly when it pushes a string, the program is full and the
pool has room for the text. Then the refusal is that of the full program, which has the text in its
pool and the instructions and the entry point that it had. -/
theorem refused_call_changes_iff {p : Program} {call : BuilderCall} {cause : BuilderCall.Refusal}
    (h : call.refusal? p = some cause) :
    (call.perform p ≠ p ↔
      ∃ text, call = .pushString text ∧ p.size = 1024 ∧ (p.parts.withString text).Valid) ∧
    (call.perform p ≠ p → ∃ text, call = .pushString text ∧
      cause = .program (.capacity ⟨.program, 1024⟩) ∧
      (call.perform p).parts = p.parts.withString text ∧ (call.perform p).entry = p.entry) := by
  cases call with
  | push i => simp [perform_push_of_refused h]
  | intern text => simp [perform_intern_of_refused h]
  | declareEntry offset => simp [perform_declareEntry_of_refused h]
  | pushString text =>
    by_cases hroom : (p.parts.withString text).Valid
    · by_cases hsize : p.size = 1024
      · obtain ⟨hrefusal, hparts, hentry⟩ := pushString_of_full hroom hsize
        obtain rfl : cause = .program (.capacity ⟨.program, 1024⟩) :=
          Option.some.inj (h.symm.trans hrefusal)
        have hchanged : (pushString text).perform p ≠ p := by
          intro hsame
          rw [hsame] at hparts
          have hcount := congrArg (fun parts => parts.strings.length) hparts
          simp [Parts.withString] at hcount
        exact ⟨⟨fun _ => ⟨text, rfl, hsize, hroom⟩, fun _ => hchanged⟩,
          fun _ => ⟨text, rfl, rfl, hparts, hentry⟩⟩
      · -- a program that has room for both accepts the call
        have hlt : p.size < 1024 := Nat.lt_of_le_of_ne p.size_le hsize
        rw [refusal?_pushString_of_room hroom hlt] at h
        cases h
    · simp [perform_pushString_of_no_room hroom, hroom]

/-- An entry point that was declared before is refused, and the program stays as it was. -/
theorem refused_call_changes_iff_secondEntry :
    let p := [BuilderCall.op .halt, .opWith .push (.int 7), .declareEntry 2].foldl
      BuilderCall.perform .empty
    (BuilderCall.declareEntry 4).refusal? p = some .entryPoint ∧
      (BuilderCall.declareEntry 4).perform p = p := by
  intro p
  have hrefused : (BuilderCall.declareEntry 4).refusal? p = some .entryPoint := rfl
  refine ⟨hrefused, ?_⟩
  by_contra hchanged
  obtain ⟨text, ⟨⟩, -⟩ := (refused_call_changes_iff hrefused).1.mp hchanged

namespace Program

theorem parts_foldl_push {p : Program} {xs : List Instruction}
    (h : (p.parts.withInstructions xs).Valid) :
    ((xs.map BuilderCall.push).foldl BuilderCall.perform p).parts =
      p.parts.withInstructions xs := by
  induction xs generalizing p with
  | nil => simp
  | cons i xs ih =>
    have hcons : p.parts.withInstructions (i :: xs) =
        (p.parts.withInstructions [i]).withInstructions xs := by simp
    have hfirst : ((BuilderCall.push i).perform p).parts = p.parts.withInstructions [i] := by
      rw [hcons, Parts.withInstructions_withInstructions] at h
      rw [parts_perform, Parts.after, Parts.changeTo, if_pos h.of_withInstructions]
    rw [hcons, ← hfirst] at h ⊢
    exact ih h

theorem parts_foldl_op {opcode : Opcode} (hshape : opcode.shape = .none) {n : Nat} (hn : n ≤ 1024) :
    ((List.replicate n (BuilderCall.op opcode)).foldl BuilderCall.perform .empty).parts =
      ⟨List.replicate n (.bare opcode), []⟩ := by
  have hsame : ∀ i ∈ List.replicate n (Instruction.bare opcode), i = .bare opcode :=
    fun i hi => (List.mem_replicate.mp hi).2
  have hvalid : (empty.parts.withInstructions (List.replicate n (.bare opcode))).Valid := by
    refine ⟨(List.length_replicate ..).trans_le hn, ?_, ?_, Nat.zero_le _, Nat.zero_le _⟩
    · intro i hi
      rw [hsame i hi, Instruction.isWellFormed_iff]
      exact .bare hshape
    · intro i hi k hk
      rw [hsame i hi] at hk
      cases hk
  have hpushed := parts_foldl_push hvalid
  rw [List.map_replicate] at hpushed
  exact hpushed

theorem toList_of_parts_eq {p : Program} {parts : Parts} (h : p.parts = parts) :
    p.instructions.toList = parts.instructions ∧ p.strings.toList = parts.strings :=
  h ▸ ⟨rfl, rfl⟩

end Program

/-- A program that was filled instruction by instruction refuses to push a string and keeps the
text. -/
theorem full_program_keeps_refused_text :
    let p := (List.replicate 1024 (BuilderCall.op .nop)).foldl BuilderCall.perform .empty
    (BuilderCall.pushString "x").refusal? p = some (.program (.capacity ⟨.program, 1024⟩)) ∧
      p.strings.toList = [] ∧
      ((BuilderCall.pushString "x").perform p).strings.toList = ["x"] := by
  intro p
  have hparts : p.parts = ⟨List.replicate 1024 (.bare .nop), []⟩ :=
    Program.parts_foldl_op rfl le_rfl
  obtain ⟨hinstructions, hstrings⟩ := Program.toList_of_parts_eq hparts
  have hsize : p.size = 1024 := by
    rw [Program.size, ← Array.length_toList, hinstructions, List.length_replicate]
  have hroom : (p.parts.withString "x").Valid := by
    rw [p.parts_valid.withString_iff, hparts]
    decide
  obtain ⟨hrefusal, hkept, -⟩ := BuilderCall.pushString_of_full hroom hsize
  rw [hparts] at hkept
  exact ⟨hrefusal, hstrings, (Program.toList_of_parts_eq hkept).2⟩

end InvariantMachine

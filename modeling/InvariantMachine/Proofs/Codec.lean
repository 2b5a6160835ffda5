import Mathlib
import InvariantMachine.Code.Program
import InvariantMachine.Proofs.Decoding

/-!
# Reading operands and instructions back

The well-formed instructions, constructor by constructor, and what decoding makes of the bytes
of an operand and of an instruction: the operand and the instruction themselves.
-/

namespace InvariantMachine

namespace Operand

theorem charOfCodePoint?_toNat (c : Char) : charOfCodePoint? c.toNat = some c := by
  have hc : c.toNat.isValidChar := c.valid
  rw [charOfCodePoint?, dif_pos hc]
  exact congrArg some (Char.ext (UInt32.toNat_inj.mp rfl))

/-- The tagged form of an operand reads back as the operand, whatever follows it. -/
theorem reads_decode (o : Operand) : decode.Reads o.toBytes (· = o) := by
  rw [← List.nil_append o.toBytes]
  apply Decoding.reads_position.bind
  intro start _
  change Decoding.Reads _ ([o.tag] ++ o.payload) _
  refine (Decoding.reads_byte o.tag).bind ?_
  rintro _ rfl
  cases o with
  | none => exact Decoding.reads_pure rfl
  | int v =>
    apply (Decoding.reads_word64 v.toUInt64).map
    intro w h
    rw [h]
    rfl
  | float v =>
    apply (Decoding.reads_word64 v.bits).map
    intro w h
    rw [h]
  | char c =>
    change Decoding.Reads _ (littleEndian 4 c.val.toNat) _
    rw [← List.append_nil (littleEndian 4 c.val.toNat)]
    refine (Decoding.reads_word32 c.val).bind ?_
    rintro _ rfl
    have hc : charOfCodePoint? c.val.toNat = some c := charOfCodePoint?_toNat c
    simp only [hc]
    exact Decoding.reads_pure rfl
  | register r =>
    apply (Decoding.reads_byte r).map
    intro b h
    rw [h]
  | stringIndex k =>
    apply (Decoding.reads_word32 k).map
    intro w h
    rw [h]
  | top => exact Decoding.reads_pure rfl

end Operand

namespace Instruction

@[simp] theorem opcode_bare (op : Opcode) : (bare op).opcode = op := rfl

@[simp] theorem opcode_withOperand (op : Opcode) (o : Operand) :
    (withOperand op o).opcode = op := rfl

@[simp] theorem operand_withOperand (op : Opcode) (o : Operand) :
    (withOperand op o).operand = o := rfl

/-- The instructions that fit their opcodes. -/
inductive WellFormed : Instruction → Prop
  | bare {op : Opcode} (shape : op.shape = .none) : WellFormed (.bare op)
  | literal {op : Opcode} {o : Operand} (shape : op.shape = .literal) (operand : isLiteral o) :
      WellFormed (.withOperand op o)
  | target {op : Opcode} (t : Int64) (shape : op.shape = .target) :
      WellFormed (.withOperand op (.int t))
  | move {r : UInt8} {o : Operand} (register : isRegister r) (operand : o = .top ∨ isLiteral o) :
      WellFormed (.mov r o)
  | stringRef {op : Opcode} (k : UInt32) (shape : op.shape = .stringRef) :
      WellFormed (.withOperand op (.stringIndex k))

theorem isWellFormed_iff (i : Instruction) : i.isWellFormed ↔ i.WellFormed := by
  obtain ⟨op, register, operand⟩ := i
  constructor
  · intro h
    unfold isWellFormed at h
    cases hs : op.shape <;> cases register <;> simp only [hs] at h
    all_goals try contradiction
    case none.none =>
      obtain rfl : operand = .none := by simpa using h
      exact .bare hs
    case literal.none => exact .literal hs h
    case target.none =>
      cases operand <;> try contradiction
      exact .target _ hs
    case move.some r =>
      obtain rfl : op = .mov := by cases op <;> first | rfl | contradiction
      rw [Bool.and_eq_true, Bool.or_eq_true, beq_iff_eq] at h
      exact .move h.1 h.2
    case stringRef.none =>
      cases operand <;> try contradiction
      exact .stringRef _ hs
  · intro h
    cases h with
    | bare hs => simp [isWellFormed, hs]
    | literal hs ho => simp [isWellFormed, hs, ho]
    | target t hs => simp [isWellFormed, hs]
    | move hr ho => simpa [isWellFormed, Opcode.shape, hr] using ho
    | stringRef k hs => simp [isWellFormed, hs]

theorem shape_of_takesAddress {op : Opcode} (h : op.takesAddress) :
    op.shape = .target := by
  cases op <;> first | rfl | contradiction

theorem WellFormed.exists_target {i : Instruction} (hi : i.WellFormed)
    (h : i.opcode.takesAddress) : ∃ op t, i = .withOperand op (.int t) := by
  have hshape := shape_of_takesAddress h
  cases hi with
  | bare hs | literal hs _ | stringRef _ hs => exact absurd (hs.symm.trans hshape) (by decide)
  | move _ _ => contradiction
  | target t _ => exact ⟨_, t, rfl⟩

/-- What follows the opcode byte of a well-formed instruction reads back as the instruction, with
the operand that was written in place of its own. -/
theorem WellFormed.reads_decodeAfter {i : Instruction} (hi : i.WellFormed) {o : Operand}
    (ho : i.opcode.shape = .none → o = .none) :
    (decodeAfter i.opcode).Reads (i.imageBytesWith o).tail (· = { i with operand := o }) := by
  have read := o.reads_decode
  cases hi with
  | bare hs =>
    rw [ho hs]
    simp only [decodeAfter, imageBytesWith, opcode_bare, hs, List.tail_cons]
    exact Decoding.reads_pure rfl
  | literal hs _ | target _ hs | stringRef _ hs =>
    simp only [decodeAfter, imageBytesWith, opcode_withOperand, hs, List.tail_cons]
    exact read.map fun a h => congrArg (withOperand _) h
  | @move r _ _ _ =>
    change Decoding.Reads _ ([r] ++ o.toBytes) _
    refine (Decoding.reads_byte r).bind ?_
    rintro _ rfl
    exact read.map fun a h => congrArg (mov _) h

end Instruction

theorem Program.wellFormed_of_mem {p : Program} {i : Instruction} (h : i ∈ p.instructions) :
    i.WellFormed :=
  (i.isWellFormed_iff).mp (p.wellFormed i h)

end InvariantMachine

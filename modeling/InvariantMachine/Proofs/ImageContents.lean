import Mathlib
import InvariantMachine.Machine.State
import InvariantMachine.Proofs.Fetch

/-!
# What an image holds

The offsets of a program and the bytes of its image come from two passes over the instructions.
They agree: decoding at the offset of an instruction gives the instruction and stops at the next
offset. Only jumps and calls are changed on the way, from an index to its offset.
-/

namespace InvariantMachine

namespace Program

variable {p : Program} {i : Instruction} {j : Nat}

theorem image_length_le_mul (p : Program) : p.image.length ≤ 11 * p.size := by
  have hcode := codeSize_le p.instructions.toList
  rw [image_length, offset_of_size_le le_rfl]
  exact hcode

theorem faces_bytesOf (hi : p.instructions[j]? = some i) :
    ByteReader.Faces ⟨p.image.toArray, p.offset j⟩ (p.bytesOf i) := by
  have hj : j < p.size := (Array.getElem?_eq_some_iff.mp hi).1
  have hend : p.offset j < p.offset p.size := offset_lt_offset hj le_rfl
  refine ⟨?_, bytesOf_at_offset hi⟩
  rw [List.size_toArray, image_length]
  exact hend.le

theorem read_at_offset (hi : p.instructions[j]? = some i) :
    Decoding.byte.run ⟨p.image.toArray, p.offset j⟩ =
        (.ok i.opcode.byte, ⟨p.image.toArray, p.offset j + 1⟩) ∧
      (Instruction.decodeAfter i.opcode).run ⟨p.image.toArray, p.offset j + 1⟩ =
        (.ok (p.placed i), ⟨p.image.toArray, p.offset (j + 1)⟩) := by
  have hwell : i.WellFormed := wellFormed_of_mem (Array.mem_of_getElem? hi)
  have hsplit : p.bytesOf i = [i.opcode.byte] ++ (p.bytesOf i).tail := rfl
  have hfaces := faces_bytesOf hi
  rw [hsplit] at hfaces
  refine ⟨(Decoding.reads_byte i.opcode.byte).run_eq hfaces.left, ?_⟩
  have hread := (hwell.reads_decodeAfter (relocated_of_shape_none hwell)).run_eq hfaces.right
  have hnext : p.offset j + 1 + (p.bytesOf i).tail.length = p.offset (j + 1) := by
    have hlen := congrArg List.length hsplit
    rw [bytesOf_length, List.length_append, List.length_singleton] at hlen
    rw [offset_succ hi, hlen, Nat.add_assoc]
  rw [← hnext]
  exact hread

/-- From `here` to `after` the image holds an opcode byte and the rest of an instruction. -/
def HoldsBetween (p : Program) (here after : Nat) (i : Instruction) : Prop :=
  ∃ byte opcode,
    Decoding.byte.run ⟨p.image.toArray, here⟩ = (.ok byte, ⟨p.image.toArray, here + 1⟩) ∧
    Opcode.ofByte? byte = some opcode ∧
    (Instruction.decodeAfter opcode).run ⟨p.image.toArray, here + 1⟩ =
      (.ok i, ⟨p.image.toArray, after⟩)

/-- The target of a jump or a call becomes the offset of the index that it was; every other
instruction stays as it is. -/
inductive Relocates (p : Program) : Instruction → Instruction → Prop
  | kept {i : Instruction} (opcode : i.opcode ∉ [Opcode.jmp, .zjmp, .nzjmp, .call]) :
      Relocates p i i
  | moved {op : Opcode} {t v : Int64} (opcode : op ∈ [Opcode.jmp, .zjmp, .nzjmp, .call])
      (target : ∀ index : Nat, index ≤ p.size → t.toInt = index →
        ∃ offset : Nat, p.offsetOf? index = some offset ∧ v.toInt = offset) :
      Relocates p (.withOperand op (.int t)) (.withOperand op (.int v))

theorem holdsBetween_placed (hi : p.instructions[j]? = some i) :
    p.HoldsBetween (p.offset j) (p.offset (j + 1)) (p.placed i) :=
  ⟨i.opcode.byte, i.opcode, (read_at_offset hi).1, Opcode.ofByte?_byte _, (read_at_offset hi).2⟩

theorem mem_of_takesAddress {op : Opcode} :
    op ∈ [Opcode.jmp, .zjmp, .nzjmp, .call] ↔ op.takesAddress := by
  cases op <;> decide

theorem toInt_resolve (p : Program) (t : Int) :
    (Int64.ofNat (p.resolve t)).toInt = p.resolve t :=
  Int64.toInt_ofNat_of_lt (p.resolve_lt t)

theorem relocates_placed (p : Program) (hi : i.WellFormed) : p.Relocates i (p.placed i) := by
  by_cases h : i.opcode.takesAddress
  · obtain ⟨op, t, rfl⟩ := hi.exists_target h
    rw [Instruction.opcode_withOperand] at h
    rw [placed_target p h]
    refine .moved (mem_of_takesAddress.mpr h) ?_
    intro index hindex ht
    refine ⟨p.offset index, offsetOf?_eq_some hindex, ?_⟩
    rw [toInt_resolve, ht, resolve_of_le (by omega) (by omega), Int.toNat_natCast]
  · rw [placed_of_not_takesAddress (Bool.eq_false_iff.mpr h)]
    exact .kept fun hmem => h (mem_of_takesAddress.mp hmem)

end Program

namespace Machine

variable {p : Program} {config : Config}

theorem exists_ofProgram_iff :
    (∃ m, ofProgram p config = .ok m) ↔ p.image.length ≤ config.memorySize := by
  constructor
  · rintro ⟨m, hm⟩
    exact (ofProgram_eq_ok hm).1
  · intro h
    exact ⟨initial p config, ofProgram_of_le h⟩

end Machine

/-- An image is its program laid out: offsets start at zero, grow with the index and end at the
length of the image, and decoding at an offset gives the instruction of that index back. A machine
is made exactly when the image fits, and then its memory is the image followed by zeros. -/
theorem Program.image_holds_program (p : Program) :
    p.offsetOf? 0 = some 0 ∧
    (∀ j k, j < k → k ≤ p.size →
      ∃ a b, p.offsetOf? j = some a ∧ p.offsetOf? k = some b ∧ a < b) ∧
    p.offsetOf? p.size = some p.image.length ∧
    p.image.length ≤ 11 * p.size ∧
    (∀ j i, p.instructions[j]? = some i → ∃ here after i',
      p.offsetOf? j = some here ∧ p.offsetOf? (j + 1) = some after ∧
      p.HoldsBetween here after i' ∧ p.Relocates i i') ∧
    (∀ config, ((∃ m, Machine.ofProgram p config = .ok m) ↔
      p.image.length ≤ config.memorySize)) ∧
    (∀ config, 11 * 1024 ≤ config.memorySize → ∃ m, Machine.ofProgram p config = .ok m) ∧
    (∀ config m, Machine.ofProgram p config = .ok m →
      m.store.memory.bytes.toList =
        p.image ++ List.replicate (config.memorySize - p.image.length) 0) := by
  refine ⟨offsetOf?_eq_some (Nat.zero_le _), ?_, ?_, p.image_length_le_mul, ?_, ?_, ?_, ?_⟩
  · intro j k hjk hk
    exact ⟨p.offset j, p.offset k, offsetOf?_eq_some (hjk.le.trans hk), offsetOf?_eq_some hk,
      offset_lt_offset hjk hk⟩
  · rw [offsetOf?_eq_some le_rfl, image_length]
  · intro j i hi
    have hj : j < p.size := (Array.getElem?_eq_some_iff.mp hi).1
    have hwell := wellFormed_of_mem (Array.mem_of_getElem? hi)
    exact ⟨p.offset j, p.offset (j + 1), p.placed i, offsetOf?_eq_some hj.le,
      offsetOf?_eq_some hj, holdsBetween_placed hi, relocates_placed p hwell⟩
  · intro config
    exact Machine.exists_ofProgram_iff
  · intro config h
    exact Machine.exists_ofProgram_iff.mpr (p.image_length_le.trans h)
  · intro config m hm
    obtain ⟨-, rfl⟩ := Machine.ofProgram_eq_ok hm
    rfl

private def pushAndJump : Program :=
  ⟨#[.withOperand .push (.int 2), .withOperand .jmp (.int 2)], .empty, ⟨0, false⟩,
    by decide, by decide, by decide⟩

theorem Program.image_holds_program_pushAndJump :
    pushAndJump.instructions[1]? = some (.withOperand .jmp (.int 2)) ∧
    pushAndJump.HoldsBetween 10 20 (.withOperand .jmp (.int 20)) ∧
    (∃ a b, pushAndJump.offsetOf? 0 = some a ∧ pushAndJump.offsetOf? 2 = some b ∧ a < b) ∧
    ∃ m, Machine.ofProgram pushAndJump { Config.standard with memorySize := 11264 } = .ok m ∧
      m.store.memory.bytes.toList = pushAndJump.image ++ List.replicate 11244 0 := by
  obtain ⟨-, hmono, -, -, hholds, -, hmade, hmemory⟩ := image_holds_program pushAndJump
  obtain ⟨here, after, i', hhere, hafter, hbetween, hrelocates⟩ := hholds 1 _ rfl
  obtain ⟨m, hm⟩ := hmade { Config.standard with memorySize := 11264 } (by decide)
  have hoffset₁ : pushAndJump.offsetOf? 1 = some 10 := by decide
  have hoffset₂ : pushAndJump.offsetOf? 2 = some 20 := by decide
  rw [hoffset₁] at hhere
  cases hhere
  rw [hoffset₂] at hafter
  cases hafter
  refine ⟨rfl, ?_, hmono 0 2 (by decide) (by decide), m, hm, hmemory _ m hm⟩
  cases hrelocates with
  | kept hop => exact absurd hop (by decide)
  | @moved _ _ v _ target =>
    obtain ⟨offset, hoffset, hv⟩ := target 2 (by decide) rfl
    rw [hoffset₂] at hoffset
    cases hoffset
    obtain rfl : v = 20 := Int64.toInt_inj.mp hv
    exact hbetween

end InvariantMachine

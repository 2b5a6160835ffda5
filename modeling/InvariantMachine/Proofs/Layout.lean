import Mathlib
import InvariantMachine.Code.Image
import InvariantMachine.Proofs.Codec

/-!
# The layout of an image

Instructions lie end to end in an image, so the offset of an instruction is the length of the
bytes before it. Offsets grow with the index, stay small, and what stands in the image at an
offset are the bytes of the instruction with its target already made an offset.
-/

namespace InvariantMachine

theorem Operand.size_le (o : Operand) : o.size ≤ 9 := by
  cases o <;> simp [Operand.size]

namespace Instruction

theorem imageSize_pos (i : Instruction) : 0 < i.imageSize := by
  unfold imageSize
  split <;> omega

theorem imageSize_le (i : Instruction) : i.imageSize ≤ 11 := by
  have := i.operand.size_le
  unfold imageSize
  split <;> omega

theorem imageBytesWith_length_of_size {i : Instruction} {o : Operand}
    (h : o.size = i.operand.size) : (i.imageBytesWith o).length = i.imageSize := by
  unfold imageBytesWith imageSize
  split <;> simp [Operand.toBytes_length, h] <;> omega

end Instruction

theorem codeSize_append (xs ys : List Instruction) :
    codeSize (xs ++ ys) = codeSize xs + codeSize ys := by
  induction xs with
  | nil => simp [codeSize]
  | cons x xs ih => simp [codeSize, ih, Nat.add_assoc]

theorem codeSize_le (xs : List Instruction) : codeSize xs ≤ 11 * xs.length := by
  induction xs with
  | nil => simp [codeSize]
  | cons x xs ih =>
    have := x.imageSize_le
    simp only [codeSize, List.length_cons]
    omega

namespace Program

variable {p : Program} {i : Instruction} {j k : Nat}

/-- The bytes before the instruction of an index. Past the last instruction it is the whole
code. -/
def offset (p : Program) (j : Nat) : Nat := codeSize (p.instructions.toList.take j)

theorem offsetOf?_eq_some (h : j ≤ p.size) : p.offsetOf? j = some (p.offset j) := by
  rw [offsetOf?, if_pos h, offset]

theorem offsetOf?_eq_none (h : p.size < j) : p.offsetOf? j = none := by
  rw [offsetOf?, if_neg (Nat.not_le.mpr h)]

@[simp] theorem offset_zero (p : Program) : p.offset 0 = 0 := rfl

theorem take_succ (hi : p.instructions[j]? = some i) :
    p.instructions.toList.take (j + 1) = p.instructions.toList.take j ++ [i] := by
  rw [← Array.getElem?_toList] at hi
  rw [List.take_add_one, hi]
  rfl

theorem offset_succ (hi : p.instructions[j]? = some i) :
    p.offset (j + 1) = p.offset j + i.imageSize := by
  rw [offset, take_succ hi, codeSize_append]
  rfl

theorem offset_lt_succ (h : j < p.size) : p.offset j < p.offset (j + 1) := by
  have hi : p.instructions[j]? = some p.instructions[j] := Array.getElem?_eq_getElem h
  have := p.instructions[j].imageSize_pos
  rw [offset_succ hi]
  omega

theorem offset_lt_offset (hjk : j < k) (hk : k ≤ p.size) : p.offset j < p.offset k := by
  induction k with
  | zero => omega
  | succ k ih =>
    have hlast : p.offset k < p.offset (k + 1) := offset_lt_succ (by omega)
    rcases Nat.lt_or_eq_of_le (Nat.le_of_lt_succ hjk) with h | rfl
    · exact (ih h (by omega)).trans hlast
    · exact hlast

theorem offset_inj (hj : j ≤ p.size) (hk : k ≤ p.size) (h : p.offset j = p.offset k) : j = k := by
  rcases Nat.lt_trichotomy j k with hlt | heq | hgt
  · exact absurd h (offset_lt_offset hlt hk).ne
  · exact heq
  · exact absurd h (offset_lt_offset hgt hj).ne'

theorem offset_of_size_le (h : p.size ≤ j) :
    p.offset j = codeSize p.instructions.toList := by
  rw [offset, List.take_of_length_le]
  simpa [Program.size] using h

theorem offset_le (p : Program) (j : Nat) : p.offset j ≤ 11 * 1024 := by
  have hcode := codeSize_le (p.instructions.toList.take j)
  have hsize := p.size_le
  rw [List.length_take, Array.length_toList] at hcode
  rw [offset]
  simp only [maxProgramSize] at hsize
  omega

theorem offset_le_unresolvedTarget (p : Program) (j : Nat) : p.offset j ≤ unresolvedTarget :=
  (p.offset_le j).trans (by decide)

theorem resolve_of_le {t : Int} (h₀ : 0 ≤ t) (h : t ≤ p.size) :
    p.resolve t = p.offset t.toNat := by
  rw [resolve, if_neg (by omega), offsetOf?_eq_some (by omega), Option.getD_some]

theorem resolve_of_not_le {t : Int} (h : ¬(0 ≤ t ∧ t ≤ p.size)) :
    p.resolve t = unresolvedTarget := by
  unfold resolve
  split
  · rfl
  · rw [offsetOf?_eq_none (by omega), Option.getD_none]

theorem resolve_le (p : Program) (t : Int) : p.resolve t ≤ unresolvedTarget := by
  by_cases h : 0 ≤ t ∧ t ≤ p.size
  · rw [resolve_of_le h.1 h.2]
    exact p.offset_le_unresolvedTarget t.toNat
  · rw [resolve_of_not_le h]

theorem resolve_lt (p : Program) (t : Int) : p.resolve t < 2 ^ 63 :=
  (p.resolve_le t).trans_lt (by decide)

theorem relocated_size (p : Program) (i : Instruction) :
    (p.relocated i).size = i.operand.size := by
  unfold relocated
  split
  · rename_i t ht
    split <;> simp [Operand.size, ht]
  · rfl

theorem relocated_of_not_takesAddress (h : i.opcode.takesAddress = false) :
    p.relocated i = i.operand := by
  unfold relocated
  split <;> simp_all

theorem relocated_of_shape_none (hi : i.WellFormed) (hs : i.opcode.shape = .none) :
    p.relocated i = .none := by
  cases hi with
  | bare _ => rfl
  | literal h _ | target _ h | stringRef _ h => simp [h] at hs
  | move _ _ => contradiction

/-- The instruction as the image holds it. -/
def placed (p : Program) (i : Instruction) : Instruction := { i with operand := p.relocated i }

theorem placed_of_not_takesAddress (h : i.opcode.takesAddress = false) : p.placed i = i := by
  rw [placed, relocated_of_not_takesAddress h]

def bytesOf (p : Program) (i : Instruction) : List UInt8 := i.imageBytesWith (p.relocated i)

theorem bytesOf_length (p : Program) (i : Instruction) : (p.bytesOf i).length = i.imageSize :=
  Instruction.imageBytesWith_length_of_size (p.relocated_size i)

theorem flatMap_bytesOf_length (p : Program) (xs : List Instruction) :
    (xs.flatMap p.bytesOf).length = codeSize xs := by
  induction xs with
  | nil => rfl
  | cons x xs ih => rw [List.flatMap_cons, List.length_append, ih, bytesOf_length, codeSize]

theorem image_length (p : Program) : p.image.length = p.offset p.size := by
  rw [offset_of_size_le le_rfl]
  exact p.flatMap_bytesOf_length p.instructions.toList

theorem image_length_le (p : Program) : p.image.length ≤ 11 * 1024 := by
  rw [image_length]
  exact p.offset_le p.size

theorem image_length_le_unresolvedTarget (p : Program) : p.image.length ≤ unresolvedTarget := by
  rw [image_length]
  exact p.offset_le_unresolvedTarget p.size

theorem image_drop_offset (p : Program) (j : Nat) :
    p.image.drop (p.offset j) = (p.instructions.toList.drop j).flatMap p.bytesOf := by
  have hsplit : p.image = (p.instructions.toList.take j).flatMap p.bytesOf ++
      (p.instructions.toList.drop j).flatMap p.bytesOf := by
    rw [← List.flatMap_append, List.take_append_drop]
    rfl
  rw [hsplit, offset, ← p.flatMap_bytesOf_length, List.drop_left]

theorem bytesOf_at_offset (hi : p.instructions[j]? = some i) :
    p.bytesOf i <+: p.image.drop (p.offset j) := by
  rw [← Array.getElem?_toList] at hi
  obtain ⟨hj, rfl⟩ := List.getElem?_eq_some_iff.mp hi
  rw [image_drop_offset, List.drop_eq_getElem_cons hj, List.flatMap_cons]
  exact List.prefix_append _ _

end Program

end InvariantMachine

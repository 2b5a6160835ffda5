import Mathlib
import InvariantMachine.Machine.Step
import InvariantMachine.Proofs.Layout

/-!
# What a program fetches

A machine starts with the image of its program in memory and zeros behind it. While the image
stands there, a fetch at the offset of an instruction finds that instruction with its target made
an offset and ends at the next offset, and the first zero behind the code is a halt.
-/

namespace InvariantMachine

theorem Operand.target_int_ofNat {n : Nat} (h : n < 2 ^ 63) :
    (int (Int64.ofNat n)).target = n := by
  have hn : (Int64.ofNat n).toInt = n := Int64.toInt_ofNat_of_lt h
  rw [target, hn, if_neg (by omega), Int.toNat_natCast]

namespace Program

variable {op : Opcode} {t : Int64}

theorem placed_target (p : Program) (h : op.takesAddress) :
    p.placed (.withOperand op (.int t)) =
      .withOperand op (.int (Int64.ofNat (p.resolve t.toInt))) :=
  congrArg (Instruction.withOperand op) (if_pos h)

theorem target_placed (p : Program) (h : op.takesAddress) :
    (p.placed (.withOperand op (.int t))).operand.target = p.resolve t.toInt := by
  rw [placed_target p h, Instruction.operand_withOperand,
    Operand.target_int_ofNat (p.resolve_lt t.toInt)]

end Program

namespace Memory

variable {memory : Memory} {image : List UInt8} {size address : Nat}

/-- The memory of a given size that starts with an image. -/
def ofImage (image : List UInt8) (size : Nat) : Memory :=
  ⟨(image ++ List.replicate (size - image.length) 0).toArray⟩

theorem load_of_le (h : image.length ≤ size) :
    (ofSize size).load image = .ok (ofImage image size) := by
  have hsize : (ofSize size).size = size := Array.size_replicate
  rw [load, hsize, if_pos h, ofImage, ofSize]
  congr 2
  apply Array.ext'
  simp

theorem load_of_lt (h : size < image.length) :
    (ofSize size).load image = .error ⟨image.length, size⟩ := by
  have hsize : (ofSize size).size = size := Array.size_replicate
  rw [load, hsize, if_neg (by omega)]

theorem size_ofImage (h : image.length ≤ size) : (ofImage image size).size = size := by
  simp only [ofImage, Memory.size, List.size_toArray, List.length_append, List.length_replicate]
  omega

theorem image_isPrefix_ofImage (image : List UInt8) (size : Nat) :
    image <+: (ofImage image size).bytes.toList := by
  simp [ofImage]

theorem bytes_ofImage_of_le (ha : image.length ≤ address) (h : address < size) :
    (ofImage image size).bytes[address]? = some 0 := by
  have hlt : address - image.length < size - image.length := by omega
  simp [ofImage, List.getElem?_append_right ha, hlt]

theorem image_halt_isPrefix_ofImage (h : image.length < size) :
    image ++ [0] <+: (ofImage image size).bytes.toList := by
  obtain ⟨n, hn⟩ : ∃ n, size - image.length = n + 1 := ⟨size - image.length - 1, by omega⟩
  refine ⟨List.replicate n 0, ?_⟩
  simp [ofImage, hn, List.replicate_succ]

theorem fetch_of_size_le (h : memory.size ≤ address) :
    memory.fetch address = .error (.pcOutOfBounds address) := by
  rw [fetch, Array.getElem?_eq_none h]

theorem fetch_of_bytes {i : Instruction} {o : Operand} (hi : i.WellFormed)
    (ho : i.opcode.shape = .none → o = .none)
    (h : i.imageBytesWith o <+: memory.bytes.toList.drop address) :
    memory.fetch address =
      .ok (.instruction { i with operand := o } (address + (i.imageBytesWith o).length)) := by
  obtain ⟨t, ht⟩ := h
  rw [Instruction.imageBytesWith, List.cons_append] at ht
  have hbyte : memory.bytes[address]? = some i.opcode.byte := by
    rw [← Array.getElem?_toList, ← Nat.add_zero address, ← List.getElem?_drop, ← ht]
    rfl
  have hlt : address < memory.bytes.size := (Array.getElem?_eq_some_iff.mp hbyte).1
  have hfaces : (memory.readerAt (address + 1)).Faces (i.imageBytesWith o).tail := by
    refine ⟨hlt, t, ?_⟩
    have htail := congrArg List.tail ht
    rw [List.tail_drop] at htail
    exact htail
  have hrun := (hi.reads_decodeAfter ho).run_eq hfaces
  rw [fetch, hbyte]
  simp only [Opcode.ofByte?_byte, hrun]
  congr 2
  simp only [ByteReader.skip, readerAt, Instruction.imageBytesWith, List.tail_cons,
    List.length_cons]
  omega

theorem fetch_offset {p : Program} {i : Instruction} {j : Nat}
    (h : p.image <+: memory.bytes.toList) (hi : p.instructions[j]? = some i) :
    memory.fetch (p.offset j) = .ok (.instruction (p.placed i) (p.offset (j + 1))) := by
  have hwell := Program.wellFormed_of_mem (Array.mem_of_getElem? hi)
  have hbytes : p.bytesOf i <+: memory.bytes.toList.drop (p.offset j) :=
    (Program.bytesOf_at_offset hi).trans (h.drop _)
  rw [Program.offset_succ hi, ← p.bytesOf_length]
  exact fetch_of_bytes hwell (Program.relocated_of_shape_none hwell) hbytes

theorem fetch_zero (h : memory.bytes[address]? = some 0) :
    memory.fetch address = .ok (.instruction (.bare .halt) (address + 1)) := by
  rw [fetch, h]
  rfl

/-- Behind the image control finds the end of the memory, or a zero, which halts. -/
theorem fetch_behind (hfit : image.length ≤ size) (h : image.length ≤ address) :
    (size ≤ address ∧ (ofImage image size).fetch address = .error (.pcOutOfBounds address)) ∨
      (ofImage image size).fetch address = .ok (.instruction (.bare .halt) (address + 1)) := by
  rcases Nat.lt_or_ge address size with hlt | hge
  · exact .inr (fetch_zero (bytes_ofImage_of_le h hlt))
  · exact .inl ⟨hge, fetch_of_size_le ((size_ofImage hfit).trans_le hge)⟩

end Memory

namespace Machine

variable {p : Program} {config : Config} {m : Machine}

/-- The machine that a program starts with. -/
def initial (p : Program) (config : Config) : Machine where
  config := config
  strings := p.strings
  store := {
    stack := .ofCapacity config.stackCapacity
    registers := Vector.replicate registerCount default
    memory := .ofImage p.image config.memorySize
    output := "" }
  pc := p.start
  status := .running
  violation := none
  registration := .initial
  activity := .idle
  cycles := 0
  softFindings := 0
  recheck := false

theorem ofProgram_of_le (h : p.image.length ≤ config.memorySize) :
    ofProgram p config = .ok (initial p config) := by
  rw [ofProgram, Memory.load_of_le h]
  rfl

theorem ofProgram_eq_ok (h : ofProgram p config = .ok m) :
    p.image.length ≤ config.memorySize ∧ m = initial p config := by
  by_cases hle : p.image.length ≤ config.memorySize
  · rw [ofProgram_of_le hle] at h
    exact ⟨hle, (Except.ok.inj h).symm⟩
  · rw [ofProgram, Memory.load_of_lt (by omega)] at h
    contradiction

end Machine

end InvariantMachine

import InvariantMachine.Code.Program

/-!
# Program images

The bytes of a program as the machine runs them, from address zero. Instructions lie end to end,
so each has an offset; the targets of jumps and calls, which sources count in instructions, become
offsets. The end of the code counts as the offset of the index after the last instruction.
-/

namespace InvariantMachine

/-- The offset of a target that names no instruction, past every address of a usual memory. -/
def unresolvedTarget : Nat := 0xffffffff

/-- The bytes of instructions that lie end to end. -/
def codeSize : List Instruction → Nat
  | [] => 0
  | i :: rest => i.imageSize + codeSize rest

namespace Program

/-- The offset of an instruction, or of the end of the code. -/
def offsetOf? (p : Program) (index : Nat) : Option Nat :=
  if index ≤ p.size then
    some (codeSize (p.instructions.toList.take index))
  else none

/-- The offset that a target counted in instructions stands for. -/
def resolve (p : Program) (index : Int) : Nat :=
  if index < 0 then unresolvedTarget else (p.offsetOf? index.toNat).getD unresolvedTarget

/-- The operand of an instruction as the image holds it. -/
def relocated (p : Program) (i : Instruction) : Operand :=
  match i.operand with
  | .int index =>
    if i.opcode.takesAddress then .int (Int64.ofNat (p.resolve index.toInt)) else i.operand
  | operand => operand

def image (p : Program) : List UInt8 :=
  p.instructions.toList.flatMap fun i => i.imageBytesWith (p.relocated i)

/-- The address where execution starts: zero unless an entry point was declared. -/
def start (p : Program) : Nat :=
  match p.entryPoint? with
  | some index => p.resolve index.toNat
  | none => 0

end Program

end InvariantMachine

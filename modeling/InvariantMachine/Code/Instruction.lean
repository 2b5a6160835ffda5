import InvariantMachine.Code.Opcode
import InvariantMachine.Code.Operand

/-!
# Instructions

An instruction is an opcode with an operand and, for a move, a destination register. In an image
its opcode byte is followed by the register of a move and by the operand of every shape that has
one, so its length is known from the bytes themselves.
-/

namespace InvariantMachine

def registerCount : Nat := 8

/-- The byte that stands for an absent register. -/
def noRegister : UInt8 := 0xff

structure Instruction where
  opcode : Opcode
  register : Option UInt8
  operand : Operand
deriving DecidableEq, Repr, Inhabited

namespace Instruction

def bare (opcode : Opcode) : Instruction := ⟨opcode, none, .none⟩

def withOperand (opcode : Opcode) (operand : Operand) : Instruction := ⟨opcode, none, operand⟩

def mov (register : UInt8) (source : Operand) : Instruction := ⟨.mov, some register, source⟩

def isRegister (r : UInt8) : Bool := decide (r.toNat < registerCount)

/-- Whether an operand is a literal; a register counts if the machine has it. -/
def isLiteral : Operand → Bool
  | .int _ | .float _ | .char _ => true
  | .register r => isRegister r
  | _ => false

/-- Whether register and operand are those that the shape of the opcode asks for. -/
def isWellFormed (i : Instruction) : Bool :=
  match i.opcode.shape, i.register with
  | .move, some r => isRegister r && (i.operand == .top || isLiteral i.operand)
  | .move, none => false
  | _, some _ => false
  | .none, none => i.operand == .none
  | .literal, none => isLiteral i.operand
  | .target, none => (i.operand matches .int _)
  | .stringRef, none => (i.operand matches .stringIndex _)

def imageSize (i : Instruction) : Nat :=
  match i.opcode.shape with
  | .none => 1
  | .move => 2 + i.operand.size
  | _ => 1 + i.operand.size

/-- The bytes in an image, with `operand` in the place of the operand of the instruction. -/
def imageBytesWith (i : Instruction) (operand : Operand) : List UInt8 :=
  i.opcode.byte ::
    match i.opcode.shape with
    | .none => []
    | .move => i.register.getD noRegister :: operand.toBytes
    | _ => operand.toBytes

/-- Reads what follows an opcode in an image. -/
def decodeAfter (opcode : Opcode) : Decoding Instruction :=
  match opcode.shape with
  | .none => return bare opcode
  | .move => do
    let register ← Decoding.byte
    let source ← Operand.decode
    return ⟨opcode, some register, source⟩
  | _ => do return withOperand opcode (← Operand.decode)

def text (i : Instruction) : String :=
  match i.register, i.operand with
  | some r, operand => s!"{i.opcode.mnemonic} r{r} {operand.text}"
  | none, .none => i.opcode.mnemonic
  | none, operand => s!"{i.opcode.mnemonic} {operand.text}"

theorem imageBytesWith_length (i : Instruction) :
    (i.imageBytesWith i.operand).length = i.imageSize := by
  unfold imageBytesWith imageSize
  split <;> simp_all [Operand.toBytes_length] <;> omega

end Instruction

end InvariantMachine

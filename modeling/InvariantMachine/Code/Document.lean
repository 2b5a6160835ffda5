import InvariantMachine.Code.Program
import InvariantMachine.Json.Writer

/-!
# Documents of programs

Operands, instructions and programs as JSON documents, with fields in a fixed order.
-/

namespace InvariantMachine

def Opcode.document (opcode : Opcode) : Json := .string opcode.name

def Operand.document : Operand → Json
  | .none => .string "None"
  | .int v => .tagged "Int" (.integer v.toInt)
  | .float v => .tagged "Float" (.number v)
  | .char c => .tagged "Char" (.string (String.ofList [c]))
  | .register r => .tagged "Register" (.integer r.toNat)
  | .stringIndex i => .tagged "StringIndex" (.integer i.toNat)
  | .top => .string "Top"

def Instruction.document (i : Instruction) : Json :=
  .object [
    ("opcode", i.opcode.document),
    ("register", .optional (fun r => .integer r.toNat) i.register),
    ("operand", i.operand.document)]

def StringPool.document (pool : StringPool) : Json := .array (pool.toList.map .string)

def EntryPoint.document (entry : EntryPoint) : Json :=
  .object [("offset", .integer entry.offset.toNat), ("declared", .boolean entry.declared)]

def Program.document (p : Program) : Json :=
  .object [
    ("instructions", .array (p.instructions.toList.map Instruction.document)),
    ("strings", p.strings.document),
    ("entry", p.entry.document)]

end InvariantMachine

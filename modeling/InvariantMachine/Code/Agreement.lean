import InvariantMachine.Code.Program

/-!
# Agreement of programs

Programs compared as what they compute with: floats count as numbers, so the two zeros agree and
a NaN agrees with nothing, not even with itself. Equality of programs is finer, for it tells words
apart.
-/

namespace InvariantMachine

def Operand.agrees : Operand → Operand → Bool
  | .float x, .float y => x.numEq y
  | a, b => a == b

def Instruction.agrees (i j : Instruction) : Bool :=
  i.opcode == j.opcode && i.register == j.register && i.operand.agrees j.operand

def Program.agrees (p q : Program) : Bool :=
  p.size == q.size &&
    (p.instructions.toList.zip q.instructions.toList).all (fun pair => pair.1.agrees pair.2) &&
    decide (p.strings = q.strings) && p.entry == q.entry

end InvariantMachine

import InvariantMachine.Code.Opcode

/-!
# Activity

Every instruction that is carried out leaves an activity on three channels. It is fixed by the
opcode, so the activities of a run are those of the instructions it went through.
-/

namespace InvariantMachine

structure Activity where
  gate : Binary64
  memory : Binary64
  branch : Binary64
deriving DecidableEq, Repr, Inhabited

namespace Activity

def gateBaseline : Binary64 := 0.01

def gateArithmetic : Binary64 := 0.2

def gateMirror : Binary64 := 0.5

def memoryStack : Binary64 := 0.1

def memoryLinear : Binary64 := 0.3

def branchTaken : Binary64 := 0.1

/-- No activity at all, as before the first instruction. -/
def idle : Activity := ⟨0, 0, 0⟩

/-- The activity of an instruction that works on no channel, and of a byte that is no opcode. -/
def nominal : Activity := ⟨gateBaseline, 0, 0⟩

def ofFamily : OpcodeFamily → Activity
  | .arithmetic | .compare | .convert => ⟨gateArithmetic, 0, 0⟩
  | .stack => ⟨gateBaseline, memoryStack, 0⟩
  | .memory => ⟨gateBaseline, memoryLinear, 0⟩
  | .branch => ⟨gateBaseline, 0, branchTaken⟩
  | .control | .system | .registration => nominal

/-- The activity of an opcode, or of a byte that is none. Calls and returns use the stack as well
as the branch channel. -/
def ofOpcode? : Option Opcode → Activity
  | none => nominal
  | some .mirror => ⟨gateMirror, 0, 0⟩
  | some .call | some .ret => ⟨gateBaseline, memoryStack, branchTaken⟩
  | some opcode => ofFamily opcode.family

end Activity

end InvariantMachine

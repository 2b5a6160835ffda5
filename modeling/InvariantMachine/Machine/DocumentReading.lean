import InvariantMachine.Code.DocumentReading
import InvariantMachine.Machine.Document

/-!
# Reading documents of machines

Values, activities, states and configurations from JSON texts. A configuration may leave out any
field, which then has its standard value.
-/

namespace InvariantMachine

open Json (Reading)
open Json.Reading

variable {ε : Type}

namespace Value

/-- What a value of a name carries. -/
def carried? : String → Option (Reading ε Value)
  | "Int" => some do return int (← Operand.readInt)
  | "Float" => some do return float (← number)
  | "Char" => some do return char (← Json.Reading.char)
  | "Str" => some do return str (← Operand.readIndex)
  | _ => none

def read : Reading ε Value := alternative (fun _ => none) carried?

end Value

def Status.read : Reading ε Status :=
  alternative
    (fun name => [.running, .haltedNominal, .haltedViolation].find? fun s => s.name == name)
    fun _ => none

namespace Activity

/-- The channels of an activity that have been read. -/
structure Fields where
  gate : Option Binary64 := none
  memory : Option Binary64 := none
  branch : Option Binary64 := none

def readField (name : String) (f : Fields) : Reading ε Fields :=
  match name with
  | "gate" => do return { f with gate := ← once f.gate number }
  | "memory" => do return { f with memory := ← once f.memory number }
  | "branch" => do return { f with branch := ← once f.branch number }
  | _ => do
    skip
    return f

def read : Reading ε Activity :=
  record
    (do
      let f ← object readField {}
      return ⟨← required f.gate, ← required f.memory, ← required f.branch⟩)
    (do return ⟨← element true number, ← element false number, ← element false number⟩)

end Activity

namespace Config

/-- The fields of a configuration that have been read. -/
structure Fields where
  stackCapacity : Option Nat := none
  memorySize : Option Nat := none
  complexityCeiling : Option Binary64 := none
  mode : Option ExecutionMode := none
  severity : Option Severity := none
  cycleBudget : Option Nat := none

def readMode : Reading ε ExecutionMode := alternative ExecutionMode.ofName? fun _ => none

def readSeverity : Reading ε Severity := alternative Severity.ofName? fun _ => none

def readField (name : String) (f : Fields) : Reading ε Fields :=
  match name with
  | "stack_capacity" => do
    return { f with stackCapacity := ← once f.stackCapacity (natural greatestSize) }
  | "memory_size" => do return { f with memorySize := ← once f.memorySize (natural greatestSize) }
  | "c_reg_max" => do return { f with complexityCeiling := ← once f.complexityCeiling number }
  | "execution_mode" => do return { f with mode := ← once f.mode readMode }
  | "efficiency_severity" => do return { f with severity := ← once f.severity readSeverity }
  | "cycle_budget" => do
    return { f with cycleBudget := ← once f.cycleBudget (natural greatestSize) }
  | _ => do
    skip
    return f

/-- The configuration with the fields that were read and the standard ones for the others. -/
def ofFields (f : Fields) : Config where
  stackCapacity := f.stackCapacity.getD standard.stackCapacity
  memorySize := f.memorySize.getD standard.memorySize
  complexityCeiling := f.complexityCeiling.getD standard.complexityCeiling
  mode := f.mode.getD standard.mode
  severity := f.severity.getD standard.severity
  cycleBudget := f.cycleBudget.getD standard.cycleBudget

def read : Reading ε Config :=
  record
    (do return ofFields (← object readField {}))
    (do return ofFields {
      stackCapacity := ← element? true (natural greatestSize)
      memorySize := ← element? false (natural greatestSize)
      complexityCeiling := ← element? false number
      mode := ← element? false readMode
      severity := ← element? false readSeverity
      cycleBudget := ← element? false (natural greatestSize) })

end Config

end InvariantMachine

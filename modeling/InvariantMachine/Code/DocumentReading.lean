import InvariantMachine.Code.Program
import InvariantMachine.Json.Reader

/-!
# Reading documents of programs

Programs and their parts from JSON texts. A program that was read is built from its parts by the
same steps as any other, so a text can have the right form and still be refused.
-/

namespace InvariantMachine

open Json (Reading)
open Json.Reading

variable {ε : Type}

def greatestIndex : Nat := 0xffffffff

def Opcode.read : Reading ε Opcode := alternative Opcode.ofName? fun _ => none

namespace Operand

def readRegister : Reading ε UInt8 := do return UInt8.ofNat (← natural 255)

def readIndex : Reading ε UInt32 := do return UInt32.ofNat (← natural greatestIndex)

def readInt : Reading ε Int64 := do return Int64.ofInt (← integer leastInt greatestInt)

def ofName? : String → Option Operand
  | "None" => some none
  | "Top" => some top
  | _ => Option.none

/-- What an operand of a name carries. -/
def carried? : String → Option (Reading ε Operand)
  | "Int" => some do return int (← readInt)
  | "Float" => some do return float (← number)
  | "Char" => some do return char (← Json.Reading.char)
  | "Register" => some do return register (← readRegister)
  | "StringIndex" => some do return stringIndex (← readIndex)
  | _ => Option.none

def read : Reading ε Operand := alternative ofName? carried?

end Operand

namespace Instruction

/-- The fields of an instruction that have been read. -/
structure Fields where
  opcode : Option Opcode := none
  register : Option (Option UInt8) := none
  operand : Option Operand := none

def readField (name : String) (f : Fields) : Reading ε Fields :=
  match name with
  | "opcode" => do return { f with opcode := ← once f.opcode Opcode.read }
  | "register" => do return { f with register := ← once f.register (optional Operand.readRegister) }
  | "operand" => do return { f with operand := ← once f.operand Operand.read }
  | _ => do
    skip
    return f

/-- A missing register is none. -/
def read : Reading ε Instruction :=
  record
    (do
      let f ← object readField {}
      return ⟨← required f.opcode, f.register.getD none, ← required f.operand⟩)
    (do return ⟨← element true Opcode.read, ← element false (optional Operand.readRegister),
      ← element false Operand.read⟩)

end Instruction

namespace EntryPoint

/-- The fields of an entry point that have been read. -/
structure Fields where
  offset : Option UInt32 := none
  declared : Option Bool := none

def readField (name : String) (f : Fields) : Reading ε Fields :=
  match name with
  | "offset" => do return { f with offset := ← once f.offset Operand.readIndex }
  | "declared" => do return { f with declared := ← once f.declared boolean }
  | _ => do
    skip
    return f

def read : Reading ε EntryPoint :=
  record
    (do
      let f ← object readField {}
      return ⟨← required f.offset, ← required f.declared⟩)
    (do return ⟨← element true Operand.readIndex, ← element false boolean⟩)

end EntryPoint

/-- A pool that overflows is refused as soon as its last string has been read. -/
def StringPool.read : Reading ProgramError StringPool := do
  match StringPool.ofList (← array Json.Reading.string) with
  | .ok pool => return pool
  | .error cause => throw (.refused (.capacity cause))

namespace Program

/-- The fields of a program that have been read. -/
structure Fields where
  instructions : Option (List Instruction) := none
  strings : Option StringPool := none
  entry : Option EntryPoint := none

def readField (name : String) (f : Fields) : Reading ProgramError Fields :=
  match name with
  | "instructions" => do
    return { f with instructions := ← once f.instructions (array Instruction.read) }
  | "strings" => do return { f with strings := ← once f.strings StringPool.read }
  | "entry" => do return { f with entry := ← once f.entry EntryPoint.read }
  | _ => do
    skip
    return f

/-- Builds a program from parts that have been read. -/
def built (instructions : List Instruction) (strings : StringPool) (entry : EntryPoint) :
    Reading ProgramError Program :=
  match ofParts instructions strings entry with
  | .ok p => return p
  | .error cause => throw (.refused cause)

def readParts : Reading ProgramError (List Instruction × StringPool × EntryPoint) :=
  record
    (do
      let f ← object readField {}
      return (← required f.instructions, ← required f.strings, ← required f.entry))
    (do return (← element true (array Instruction.read), ← element false StringPool.read,
      ← element false EntryPoint.read))

/-- The parts are read to their end before the program is built. -/
def read : Reading ProgramError Program := do
  let (instructions, strings, entry) ← readParts
  built instructions strings entry

def ofDocumentText (text : String) : Except (Json.ReadError ProgramError) Program :=
  whole read text

end Program

end InvariantMachine

import InvariantMachine.Code.Program
import InvariantMachine.Text.Padding
import InvariantMachine.Text.Utf8

/-!
# Stored programs

The file format of programs. A header of nineteen bytes holds the magic bytes, the version, the
flags, the entry point and the two counts; then come the instructions, each with its register byte
and tagged operand, and the strings, each with its length. All integers are little-endian.
Reading checks every part against the limits that a program keeps; bytes after the last string
are not looked at.
-/

namespace InvariantMachine

/-- Why stored bytes are not a program. -/
inductive StoreError where
  | badMagic (found : List UInt8)
  | unsupportedVersion (version : Nat)
  | truncated (offset : Nat)
  | invalidOpcode (opcode : UInt8) (offset : Nat)
  | invalidOperandTag (tag : UInt8) (offset : Nat)
  | malformedInstruction (offset : Nat)
  | invalidUtf8 (index : Nat)
  | capacity (cause : CapacityExceeded)
  | program (cause : ProgramError)
deriving DecidableEq, Repr

namespace Stored

def magic : List UInt8 := [0x54, 0x49, 0x4d, 0x42]

def version : Nat := 0x0100

/-- The flag of a declared entry point; the other flags are reserved. -/
def entryDeclaredFlag : UInt8 := 1

private def byteList (bytes : List UInt8) : String :=
  "[" ++ ", ".intercalate (bytes.map fun b => toString b.toNat) ++ "]"

end Stored

namespace StoreError

def ofFault : DecodeFault → StoreError
  | .truncated position => .truncated position
  | .invalidTag tag position => .invalidOperandTag tag position

/-- A full program or pool counts as a capacity, whoever reports it. -/
def ofProgramError : ProgramError → StoreError
  | .capacity cause => .capacity cause
  | cause => .program cause

def message : StoreError → String
  | badMagic found =>
    s!"invalid magic: expected {Stored.byteList Stored.magic}, got {Stored.byteList found}"
  | unsupportedVersion version => s!"unsupported bytecode version 0x{paddedHex 4 version}"
  | truncated offset => s!"bytecode truncated at offset {offset}"
  | invalidOpcode opcode offset =>
    s!"invalid opcode 0x{paddedHex 2 opcode.toNat} at offset {offset}"
  | invalidOperandTag tag offset => s!"invalid operand tag {tag} at offset {offset}"
  | malformedInstruction offset => s!"malformed instruction at offset {offset}"
  | invalidUtf8 index => s!"string pool entry {index} is not valid UTF-8"
  | capacity cause => cause.message
  | program cause => cause.message

end StoreError

/-- A computation that reads stored bytes. -/
abbrev Loading := StateT ByteReader (Except StoreError)

namespace Stored

def instructionBytes (i : Instruction) : List UInt8 :=
  i.opcode.byte :: i.register.getD noRegister :: i.operand.toBytes

def stringBytes (text : String) : List UInt8 :=
  littleEndian 4 text.utf8ByteSize ++ utf8Bytes text

def headerBytes (p : Program) : List UInt8 :=
  magic ++ littleEndian 2 version ++ [if p.entry.declared then entryDeclaredFlag else 0] ++
    littleEndian 4 p.entry.offset.toNat ++ littleEndian 4 p.size ++
    littleEndian 4 p.strings.size

/-- Runs a decoding; its fault becomes an error of the format. -/
def decode {α : Type} (decoding : Decoding α) : Loading α := fun r =>
  match decoding.run r with
  | (.ok a, r') => .ok (a, r')
  | (.error fault, _) => .error (.ofFault fault)

/-- One instruction with the offset that it starts at. Its shape is not checked yet. -/
def loadInstruction : Loading (Nat × Instruction) := do
  let offset ← decode Decoding.position
  let byte ← decode Decoding.byte
  match Opcode.ofByte? byte with
  | none => throw (.invalidOpcode byte offset)
  | some opcode =>
    let register ← decode Decoding.byte
    let operand ← decode Operand.decode
    return (offset, ⟨opcode, if register = noRegister then none else some register, operand⟩)

def loadInstructions : Nat → Loading (List (Nat × Instruction))
  | 0 => return []
  | count + 1 => do
    let first ← loadInstruction
    let rest ← loadInstructions count
    return first :: rest

/-- One string, interned in the pool; `index` is its place in the file. -/
def loadString (index : Nat) (pool : StringPool) : Loading StringPool := do
  let length ← decode (Decoding.natural 4)
  let bytes ← decode (Decoding.bytes length)
  match utf8Text? bytes with
  | none => throw (.invalidUtf8 index)
  | some text =>
    match pool.intern text with
    | .error cause => throw (.capacity cause)
    | .ok (_, pool) => return pool

/-- The next `count` strings, from the one at `index` on. -/
def loadStrings : (count index : Nat) → StringPool → Loading StringPool
  | 0, _, pool => return pool
  | count + 1, index, pool => do
    let pool ← loadString index pool
    loadStrings count (index + 1) pool

/-- Appends an instruction that was read at an offset. -/
def pushLoaded (p : Program) (loaded : Nat × Instruction) : Except StoreError Program :=
  if loaded.2.isWellFormed then (p.push loaded.2).mapError .ofProgramError
  else .error (.malformedInstruction loaded.1)

/-- Reads a program. The instructions are checked only when the strings are known. -/
def load : Loading Program := do
  let found ← decode (Decoding.bytes 4)
  if found ≠ magic then throw (.badMagic found)
  let found ← decode (Decoding.natural 2)
  if found ≠ version then throw (.unsupportedVersion found)
  let flags ← decode Decoding.byte
  let offset ← decode Decoding.word32
  let instructionCount ← decode (Decoding.natural 4)
  let stringCount ← decode (Decoding.natural 4)
  let loaded ← loadInstructions instructionCount
  let strings ← loadStrings stringCount 0 .empty
  let program ← loaded.foldlM (m := Except StoreError) pushLoaded (Program.withStrings strings)
  return program.setEntry ⟨offset, flags &&& entryDeclaredFlag ≠ 0⟩

end Stored

namespace Program

def toBytes (p : Program) : List UInt8 :=
  Stored.headerBytes p ++ p.instructions.toList.flatMap Stored.instructionBytes ++
    p.strings.toList.flatMap Stored.stringBytes

/-- The program whose stored form the bytes begin with. -/
def ofBytes (bytes : List UInt8) : Except StoreError Program :=
  (Stored.load.run (.ofList bytes)).map (·.1)

end Program

end InvariantMachine

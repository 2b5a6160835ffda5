import InvariantMachine.Number.Reading

/-!
# Opcodes

The operations of the machine. Each has a byte, a mnemonic that sources may write in any letter
case, a family that fixes the activity it is charged with, the shape of the operand that follows
it, and the number of stack entries it consumes.
-/

namespace InvariantMachine

inductive Opcode where
  | halt | push | pop | add | sub | mul | div | jmp | zjmp | nzjmp | load | store | nop
  | mod | and | or | addF | subF | mulF | divF | modF
  | cmpe | cmpne | cmpg | cmpl | cmpge | cmple
  | itof | ftoi | itoc
  | dup | indup | swap | inswap | mov
  | call | ret | native
  | pushStr | getStr | strlen | print
  | regCommit | regCheck | mirror
deriving DecidableEq, Repr, Inhabited

/-- What an operation is about. -/
inductive OpcodeFamily where
  | control | stack | arithmetic | compare | convert | memory | branch | system | registration
deriving DecidableEq, Repr

/-- The operand that follows an opcode. -/
inductive OperandShape where
  | none
  /-- An integer, float, character or register. -/
  | literal
  /-- An integer: the index of an instruction in a program, an offset in an image. -/
  | target
  /-- A destination register, then a literal or the top of the stack. -/
  | move
  /-- An index in the string pool. -/
  | stringRef
deriving DecidableEq, Repr

namespace Opcode

/-- Every opcode, in the order of the mnemonic table. -/
def all : List Opcode :=
  [halt, push, pop, add, sub, mul, div, jmp, zjmp, nzjmp, load, store, nop, mod, and, or,
    addF, subF, mulF, divF, modF, cmpe, cmpne, cmpg, cmpl, cmpge, cmple, itof, ftoi, itoc,
    dup, indup, swap, inswap, mov, call, ret, native, pushStr, getStr, strlen, print,
    regCommit, regCheck, mirror]

def byte : Opcode → UInt8
  | halt => 0x00 | push => 0x01 | pop => 0x02 | add => 0x03 | sub => 0x04 | mul => 0x05
  | div => 0x06 | jmp => 0x07 | zjmp => 0x08 | nzjmp => 0x09 | load => 0x0a | store => 0x0b
  | nop => 0x0c | mod => 0x0d | and => 0x0e | or => 0x0f | addF => 0x10 | subF => 0x11
  | mulF => 0x12 | divF => 0x13 | modF => 0x14 | cmpe => 0x18 | cmpne => 0x19 | cmpg => 0x1a
  | cmpl => 0x1b | cmpge => 0x1c | cmple => 0x1d | itof => 0x20 | ftoi => 0x21 | itoc => 0x22
  | dup => 0x28 | indup => 0x29 | swap => 0x2a | inswap => 0x2b | mov => 0x2c | call => 0x30
  | ret => 0x31 | native => 0x32 | pushStr => 0x38 | getStr => 0x39 | strlen => 0x3a
  | print => 0x3b | regCommit => 0xf0 | regCheck => 0xf1 | mirror => 0xf2

def ofByte? (b : UInt8) : Option Opcode := all.find? fun op => op.byte == b

def mnemonic : Opcode → String
  | halt => "halt" | push => "push" | pop => "pop" | add => "add" | sub => "sub" | mul => "mul"
  | div => "div" | jmp => "jmp" | zjmp => "zjmp" | nzjmp => "nzjmp" | load => "load"
  | store => "store" | nop => "nop" | mod => "mod" | and => "and" | or => "or" | addF => "addf"
  | subF => "subf" | mulF => "mulf" | divF => "divf" | modF => "modf" | cmpe => "cmpe"
  | cmpne => "cmpne" | cmpg => "cmpg" | cmpl => "cmpl" | cmpge => "cmpge" | cmple => "cmple"
  | itof => "itof" | ftoi => "ftoi" | itoc => "itoc" | dup => "dup" | indup => "indup"
  | swap => "swap" | inswap => "inswap" | mov => "mov" | call => "call" | ret => "ret"
  | native => "native" | pushStr => "push_str" | getStr => "get_str" | strlen => "strlen"
  | print => "print" | regCommit => "reg_commit" | regCheck => "reg_check" | mirror => "mirror"

/-- The name that documents write. -/
def name : Opcode → String
  | halt => "Halt" | push => "Push" | pop => "Pop" | add => "Add" | sub => "Sub" | mul => "Mul"
  | div => "Div" | jmp => "Jmp" | zjmp => "Zjmp" | nzjmp => "Nzjmp" | load => "Load"
  | store => "Store" | nop => "Nop" | mod => "Mod" | and => "And" | or => "Or" | addF => "AddF"
  | subF => "SubF" | mulF => "MulF" | divF => "DivF" | modF => "ModF" | cmpe => "Cmpe"
  | cmpne => "Cmpne" | cmpg => "Cmpg" | cmpl => "Cmpl" | cmpge => "Cmpge" | cmple => "Cmple"
  | itof => "Itof" | ftoi => "Ftoi" | itoc => "Itoc" | dup => "Dup" | indup => "Indup"
  | swap => "Swap" | inswap => "Inswap" | mov => "Mov" | call => "Call" | ret => "Ret"
  | native => "Native" | pushStr => "PushStr" | getStr => "GetStr" | strlen => "Strlen"
  | print => "Print" | regCommit => "RegCommit" | regCheck => "RegCheck" | mirror => "Mirror"

/-- The mnemonics that sources may write: that of every opcode, and a second one for `halt`. -/
def mnemonics : List (String × Opcode) := all.map (fun op => (op.mnemonic, op)) ++ [("hlt", halt)]

/-- The opcode that a mnemonic names; the case of ASCII letters does not matter. -/
def ofMnemonic? (text : String) : Option Opcode :=
  (mnemonics.find? fun entry => entry.1 == asciiLowerAll text).map (·.2)

def ofName? (text : String) : Option Opcode := all.find? fun op => op.name == text

def family : Opcode → OpcodeFamily
  | halt | nop => .control
  | push | pop | dup | indup | swap | inswap | mov | pushStr | getStr => .stack
  | add | sub | mul | div | mod | and | or | addF | subF | mulF | divF | modF | strlen =>
    .arithmetic
  | cmpe | cmpne | cmpg | cmpl | cmpge | cmple => .compare
  | itof | ftoi | itoc => .convert
  | load | store => .memory
  | jmp | zjmp | nzjmp | call | ret => .branch
  | native | print => .system
  | regCommit | regCheck | mirror => .registration

def shape : Opcode → OperandShape
  | call | native | jmp | zjmp | nzjmp => .target
  | push | inswap | indup | getStr => .literal
  | mov => .move
  | pushStr => .stringRef
  | _ => .none

/-- Whether the operand is a position in the code. That of `native` looks like one and is not. -/
def takesAddress : Opcode → Bool
  | jmp | zjmp | nzjmp | call => true
  | _ => false

/-- The number of entries that the operation takes from the stack. -/
def stackInputs : Opcode → Nat
  | add | sub | mul | div | mod | and | or | addF | subF | mulF | divF | modF
  | cmpe | cmpne | cmpg | cmpl | cmpge | cmple | swap | store => 2
  | pop | itof | ftoi | itoc | dup | zjmp | nzjmp | ret | strlen | print | load => 1
  | _ => 0

theorem mem_all (op : Opcode) : op ∈ all := by cases op <;> decide

@[simp] theorem ofByte?_byte (op : Opcode) : ofByte? op.byte = some op := by cases op <;> rfl

theorem byte_eq_of_ofByte? {b : UInt8} {op : Opcode} (h : ofByte? b = some op) : op.byte = b := by
  simpa using List.find?_some h

end Opcode

end InvariantMachine

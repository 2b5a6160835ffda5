import InvariantMachine.Code.Instruction
import InvariantMachine.Machine.Config

/-!
# Values

What the stack and the registers hold. Every value has a reading as an integer and one as a
float, so that arithmetic never refuses a value.
-/

namespace InvariantMachine

inductive Value where
  | int (value : Int64)
  | float (value : Binary64)
  | char (value : Char)
  /-- An index in the string pool. -/
  | str (index : UInt32)
deriving DecidableEq, Repr

namespace Value

instance : Inhabited Value := ⟨int 0⟩

/-- The reading as an integer; a float is truncated. -/
def asInt : Value → Int64
  | int v => v
  | float v => v.toInt64
  | char c => Int64.ofNat c.toNat
  | str index => Int64.ofNat index.toNat

/-- The reading as a float; an integer is rounded to the nearest. -/
def asFloat : Value → Binary64
  | int v => Binary64.ofInt v.toInt
  | float v => v
  | char c => Binary64.ofNat c.toNat
  | str index => Binary64.ofNat index.toNat

/-- The condition of the conditional jumps. -/
def isZero : Value → Bool
  | int v => v == 0
  | float v => v.numEq 0
  | char c => c == '\x00'
  | str _ => false

/-- The operand that pushes the value. -/
def literal : Value → Operand
  | int v => .int v
  | float v => .float v
  | char c => .char c
  | str index => .stringIndex index

/-- The tag of the operand that pushes the value. -/
def tag (v : Value) : UInt8 := v.literal.tag

def text (v : Value) : String := v.literal.text

/-- The order of two values: as floats if either is one, else as integers. Floats without an order
have none. -/
def compare? (a b : Value) : Option Ordering :=
  match a, b with
  | float x, _ => x.compare? b.asFloat
  | _, float y => a.asFloat.compare? y
  | _, _ => some (compare a.asInt.toInt b.asInt.toInt)

/-- The reading as an address. A negative one is past every memory. -/
def asAddress (v : Value) : Nat :=
  if v.asInt.toInt < 0 then greatestSize else v.asInt.toInt.toNat

/-- The character of the reading as a code point, or the replacement character. -/
def asChar (v : Value) : Char :=
  let codePoint := v.asInt.toInt
  let char? := if 0 ≤ codePoint then Operand.charOfCodePoint? codePoint.toNat else none
  char?.getD '\ufffd'

end Value

end InvariantMachine

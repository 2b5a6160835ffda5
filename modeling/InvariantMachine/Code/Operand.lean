import InvariantMachine.Bytes.Reader
import InvariantMachine.Number.Layout
import InvariantMachine.Text.Quoted

/-!
# Operands

What an instruction carries, and its tagged little-endian form: a tag byte, then the payload that
the tag calls for. The same form serves the image in memory and the stored program.
-/

namespace InvariantMachine

inductive Operand where
  | none
  | int (value : Int64)
  | float (value : Binary64)
  | char (value : Char)
  | register (index : UInt8)
  /-- An index in the string pool. -/
  | stringIndex (index : UInt32)
  /-- The top of the stack, as the source of a move. -/
  | top
deriving DecidableEq, Repr, Inhabited

namespace Operand

def tag : Operand → UInt8
  | none => 0
  | int _ => 1
  | float _ => 2
  | char _ => 3
  | register _ => 4
  | stringIndex _ => 5
  | top => 6

/-- The number of bytes of the tagged form. -/
def size : Operand → Nat
  | none | top => 1
  | int _ | float _ => 9
  | char _ | stringIndex _ => 5
  | register _ => 2

/-- What diagnostics call the operand. -/
def kind : Operand → String
  | none => "none"
  | int _ => "integer"
  | float _ => "float"
  | char _ => "char"
  | register _ => "register"
  | stringIndex _ => "string"
  | top => "top"

def payload : Operand → List UInt8
  | none | top => []
  | int v => littleEndian 8 v.toUInt64.toNat
  | float v => littleEndian 8 v.bits.toNat
  | char c => littleEndian 4 c.toNat
  | register r => [r]
  | stringIndex i => littleEndian 4 i.toNat

def toBytes (operand : Operand) : List UInt8 := operand.tag :: operand.payload

/-- The character of a code point that is one. -/
def charOfCodePoint? (n : Nat) : Option Char :=
  if h : n.isValidChar then some (Char.ofNatAux n h) else Option.none

def decode : Decoding Operand := do
  let start ← Decoding.position
  let tag ← Decoding.byte
  match tag with
  | 0 => return none
  | 1 => return int (← Decoding.word64).toInt64
  | 2 => return float ⟨← Decoding.word64⟩
  | 3 =>
    match charOfCodePoint? (← Decoding.word32).toNat with
    | some c => return char c
    | Option.none => Decoding.fail (.invalidTag tag start)
  | 4 => return register (← Decoding.byte)
  | 5 => return stringIndex (← Decoding.word32)
  | 6 => return top
  | _ => Decoding.fail (.invalidTag tag start)

/-- The text of an operand in a listing; that of no operand is empty. -/
def text : Operand → String
  | none => ""
  | int v => toString v
  | float v => DecimalLayout.listing.write v
  | char c => listedChar c
  | register r => s!"r{r}"
  | stringIndex i => s!"${i}"
  | top => "top"

theorem toBytes_length (operand : Operand) : operand.toBytes.length = operand.size := by
  cases operand <;> simp [toBytes, payload, size]

end Operand

end InvariantMachine

import InvariantMachine.Number.Layout
import InvariantMachine.Text.Padding

/-!
# Violations

The conditions that stop a machine for good, in three classes: a bound was passed, a registration
invariant is broken, or an instruction cannot be executed.
-/

namespace InvariantMachine

inductive ViolationClass where
  | bounds
  | invariant
  | execution
deriving DecidableEq, Repr

inductive Violation where
  | stackOverflow (capacity : Nat)
  | stackUnderflow (required : Nat) (available : Nat)
  | pcOutOfBounds (pc : Nat)
  | memoryOutOfBounds (address : Nat)
  | registerOutOfBounds (index : UInt8)
  | stringOutOfBounds (index : UInt32)
  | invalidOperand (tag : UInt8) (address : Nat)
  | divisionByZero
  | nativeCallUnsupported (id : Int64)
  | simplexBroken (sum : Binary64)
  | efficiencyExceeded (eta : Binary64) (bound : Binary64)
  | complexityBomb (complexity : Binary64) (ceiling : Binary64)
deriving DecidableEq, Repr

namespace Violation

def kind : Violation → ViolationClass
  | stackOverflow _ | stackUnderflow _ _ | pcOutOfBounds _ | memoryOutOfBounds _
  | registerOutOfBounds _ | stringOutOfBounds _ => .bounds
  | simplexBroken _ | efficiencyExceeded _ _ | complexityBomb _ _ => .invariant
  | invalidOperand _ _ | divisionByZero | nativeCallUnsupported _ => .execution

private def hexAddress (n : Nat) : String := "0x" ++ paddedHex 8 n

private def number (x : Binary64) : String := DecimalLayout.plain.write x

def message : Violation → String
  | stackOverflow capacity => s!"stack overflow (capacity {capacity})"
  | stackUnderflow required available =>
    s!"stack underflow: {required} operand(s) required, {available} available"
  | pcOutOfBounds pc => s!"program counter out of bounds: {hexAddress pc}"
  | memoryOutOfBounds address => s!"memory access out of bounds: {hexAddress address}"
  | registerOutOfBounds index => s!"register index {index} out of bounds"
  | stringOutOfBounds index => s!"string index {index} out of bounds"
  | invalidOperand tag address => s!"invalid operand tag {tag} at {hexAddress address}"
  | divisionByZero => "integer division by zero"
  | nativeCallUnsupported id => s!"native call {id} unsupported"
  | simplexBroken sum => s!"simplex broken: probability sum = {number sum}"
  | efficiencyExceeded eta bound =>
    s!"efficiency bound exceeded: eta {number eta} > max {number bound}"
  | complexityBomb complexity ceiling =>
    s!"complexity bomb: c_reg {number complexity} > {number ceiling}"

end Violation

end InvariantMachine

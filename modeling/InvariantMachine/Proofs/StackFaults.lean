import Mathlib
import InvariantMachine.Machine.Step
import InvariantMachine.Proofs.Effects

/-!
# Stack faults

A violation of the stack is that it held too many entries or too few. Only pushing a value and
finding too few entries report one: neither a fetch, nor an access to the memory, nor the reading
of an operand or of a string does.
-/

namespace InvariantMachine

namespace Violation

variable {violation : Violation}

/-- Whether a violation is that the stack held too many entries or too few. -/
def isStackFault : Violation → Bool
  | stackOverflow _ | stackUnderflow _ _ => true
  | _ => false

theorem isStackFault_of_kind (h : violation.kind = .invariant) :
    violation.isStackFault = false := by
  cases violation <;> first | rfl | contradiction

end Violation

theorem Memory.isStackFault_of_fetch {memory : Memory} {a : Nat} {violation : Violation}
    (h : memory.fetch a = .error violation) : violation.isStackFault = false := by
  unfold fetch at h
  split at h
  · rw [← Except.error.inj h]
    rfl
  · split at h
    · contradiction
    · split at h
      · contradiction
      · rename_i fault _ _
        rw [← Except.error.inj h]
        cases fault <;> rfl

theorem Memory.isStackFault_of_read {memory : Memory} {a : Nat} {violation : Violation}
    (h : memory.read a = .error violation) : violation.isStackFault = false := by
  unfold read at h
  split at h
  · contradiction
  · rw [← Except.error.inj h]
    rfl

theorem Memory.isStackFault_of_write {memory : Memory} {a : Nat} {b : UInt8}
    {violation : Violation} (h : memory.write a b = .error violation) :
    violation.isStackFault = false := by
  unfold write at h
  split at h
  · contradiction
  · rw [← Except.error.inj h]
    rfl

theorem Store.isStackFault_of_operandValue {s : Store} {here : Nat} {o : Operand}
    {violation : Violation} (h : s.operandValue here o = .error violation) :
    violation.isStackFault = false := by
  unfold operandValue at h
  split at h <;> try contradiction
  · split at h
    · contradiction
    · rw [← Except.error.inj h]
      rfl
  all_goals
    rw [← Except.error.inj h]
    rfl

theorem Store.isStackFault_of_stringIndexOf {s : Store} {here : Nat} {o : Operand}
    {violation : Violation} (h : s.stringIndexOf here o = .error violation) :
    violation.isStackFault = false := by
  unfold stringIndexOf at h
  split at h
  · contradiction
  · cases hv : s.operandValue here o with
    | error e =>
      rw [hv] at h
      obtain rfl : e = violation := Except.error.inj h
      exact isStackFault_of_operandValue hv
    | ok v =>
      rw [hv] at h
      contradiction

theorem Context.isStackFault_of_textOf {ctx : Context} {v : Value} {violation : Violation}
    (h : ctx.textOf v = .error violation) : violation.isStackFault = false := by
  unfold textOf at h
  split at h
  · split at h
    · contradiction
    · rw [← Except.error.inj h]
      rfl
  · rw [← Except.error.inj h]
    rfl

theorem Context.isStackFault_of_printed {ctx : Context} {v : Value} {violation : Violation}
    (h : ctx.printed v = .error violation) : violation.isStackFault = false := by
  cases v with
  | str index =>
    have htext : ctx.textOf (.str index) = .error violation := h
    exact isStackFault_of_textOf htext
  | int _ | float _ | char _ => contradiction

theorem Opcode.isStackFault_of_unary {op : Opcode} {ctx : Context} {s : Store}
    {f : Value → Except Violation Value} {v : Value} {violation : Violation}
    (h : op.unary? ctx s = some f) (hf : f v = .error violation) :
    violation.isStackFault = false := by
  cases op <;> simp only [unary?, reduceCtorEq] at h <;> obtain rfl := Option.some.inj h
  case load => exact Memory.isStackFault_of_read (map_eq_error hf)
  case strlen => exact Context.isStackFault_of_textOf (map_eq_error hf)
  all_goals contradiction

end InvariantMachine

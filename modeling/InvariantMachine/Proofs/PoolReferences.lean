import Mathlib
import InvariantMachine.Code.Program
import InvariantMachine.Proofs.Codec
import InvariantMachine.Proofs.Effects

/-!
# References to the string pool

Every string value of a store refers to a string that the pool holds, and every instruction of a
program keeps this. It follows which violations are left for an instruction of a program: none of
a register, and those of a string, of an operand and of a memory access only where the instruction
takes its index, its value or its address from the store.
-/

namespace InvariantMachine

variable {pool : StringPool}

/-- The value refers to no string that the pool does not hold. -/
def Value.InPool (pool : StringPool) : Value → Prop
  | .str index => index.toNat < pool.size
  | _ => True

/-- All values of the store refer to strings that the pool holds. -/
structure Store.Typed (pool : StringPool) (s : Store) : Prop where
  stack : ∀ v ∈ s.stack.items, v.InPool pool
  registers : ∀ v ∈ s.registers, v.InPool pool

/-- The violations that are left for an instruction of a program that is carried out on a typed
store. -/
def Violation.Excused (s : Store) (i : Instruction) : Violation → Prop
  | .registerOutOfBounds _ | .pcOutOfBounds _ => False
  | .invalidOperand _ _ =>
    i.opcode = .strlen ∧ ∃ v, s.stack.peek? = some v ∧ ∀ index, v ≠ .str index
  | .stringOutOfBounds _ => i.opcode = .getStr
  | .memoryOutOfBounds _ => i.opcode = .load
  | _ => True

theorem Violation.excused_of_kind {s : Store} {i : Instruction} {violation : Violation}
    (h : violation.kind = .invariant) : violation.Excused s i := by
  cases violation <;> trivial

namespace StringPool

theorem get?_eq_some {index : UInt32} (h : index.toNat < pool.size) :
    ∃ text, pool.get? index = some text :=
  ⟨_, Array.getElem?_eq_getElem h⟩

end StringPool

namespace Instruction

variable {i : Instruction} {k : UInt32}

theorem lt_size_of_dangling? (h : i.dangling? pool = none) (ho : i.operand = .stringIndex k) :
    k.toNat < pool.size := by
  rw [dangling?, ho] at h
  dsimp only at h
  by_contra hk
  rw [if_neg hk] at h
  contradiction

theorem WellFormed.isLiteral_operand (hi : i.WellFormed) (h : i.opcode.shape = .literal) :
    isLiteral i.operand := by
  cases hi with
  | literal _ ho => exact ho
  | bare hs | target _ hs | stringRef _ hs => exact absurd (hs.symm.trans h) (by decide)
  | move _ _ => contradiction

theorem WellFormed.operand_stringRef (hi : i.WellFormed) (h : i.opcode.shape = .stringRef) :
    ∃ k, i.operand = .stringIndex k := by
  cases hi with
  | stringRef k _ => exact ⟨k, rfl⟩
  | bare hs | literal hs _ | target _ hs => exact absurd (hs.symm.trans h) (by decide)
  | move _ _ => contradiction

theorem WellFormed.operands_mov (hi : i.WellFormed) (h : i.opcode = .mov) :
    ∃ r o, i = .mov r o ∧ isRegister r ∧ (o = .top ∨ isLiteral o) := by
  cases hi with
  | move hr ho => exact ⟨_, _, rfl, hr, ho⟩
  | bare hs | literal hs _ | target _ hs | stringRef _ hs =>
    obtain rfl := h
    contradiction

end Instruction

namespace Store

variable {s : Store} {o : Operand}

theorem operandValue_of_isLiteral (hs : s.Typed pool) (h : Instruction.isLiteral o) (here : Nat) :
    ∃ v, s.operandValue here o = .ok v ∧ v.InPool pool := by
  cases o with
  | int n => exact ⟨.int n, rfl, trivial⟩
  | float x => exact ⟨.float x, rfl, trivial⟩
  | char c => exact ⟨.char c, rfl, trivial⟩
  | register r =>
    have hr : r.toNat < registerCount := of_decide_eq_true h
    have hget : s.registers[r.toNat]? = some s.registers[r.toNat] :=
      Vector.getElem?_eq_getElem hr
    refine ⟨s.registers[r.toNat], ?_, hs.registers _ (Vector.getElem_mem hr)⟩
    rw [operandValue, hget]
  | none | stringIndex _ | top => contradiction

theorem Typed.setRegister (hs : s.Typed pool) (index : UInt8) {v : Value} (hv : v.InPool pool) :
    (s.setRegister index v).Typed pool := by
  refine ⟨hs.stack, fun w hw => ?_⟩
  obtain ⟨j, hj, hget⟩ := Vector.getElem_of_mem hw
  rw [Store.setRegister, Vector.getElem_setIfInBounds] at hget
  split at hget
  · exact hget ▸ hv
  · exact hget ▸ hs.registers _ (Vector.getElem_mem hj)

theorem Typed.withStack (hs : s.Typed pool) {stack : BoundedStack Value}
    (h : ∀ v ∈ stack.items, v.InPool pool) : Typed pool { s with stack } :=
  ⟨h, hs.registers⟩

end Store

namespace Context

variable {ctx : Context} {v : Value} {violation : Violation}

theorem textOf_str {index : UInt32} (h : (Value.str index).InPool ctx.strings) :
    ∃ text, ctx.textOf (.str index) = .ok text := by
  obtain ⟨text, htext⟩ := StringPool.get?_eq_some h
  refine ⟨text, ?_⟩
  rw [textOf, htext]

theorem printed_of_inPool (h : v.InPool ctx.strings) : ∃ text, ctx.printed v = .ok text := by
  cases v with
  | int n => exact ⟨_, rfl⟩
  | float x => exact ⟨_, rfl⟩
  | char c => exact ⟨_, rfl⟩
  | str index => exact textOf_str h

theorem textOf_eq_error (hv : v.InPool ctx.strings) (h : ctx.textOf v = .error violation) :
    (∀ index, v ≠ .str index) ∧ violation = .invalidOperand v.tag ctx.here := by
  cases v with
  | str index =>
    obtain ⟨text, htext⟩ := textOf_str hv
    rw [htext] at h
    contradiction
  | int _ | float _ | char _ => exact ⟨fun _ h => by contradiction, (Except.error.inj h).symm⟩

end Context

namespace Opcode

variable {op : Opcode} {a b v : Value}

theorem binary?_inPool {f : Value → Value → Except Violation Value} (h : op.binary? = some f)
    (hf : f a b = .ok v) : v.InPool pool := by
  cases op <;> simp only [binary?, reduceCtorEq] at h <;> obtain rfl := Option.some.inj h
  case div | mod =>
    dsimp only at hf
    split at hf
    · contradiction
    · rw [← Except.ok.inj hf]
      trivial
  all_goals
    rw [← Except.ok.inj hf]
    trivial

theorem binary?_eq_error {f : Value → Value → Except Violation Value} {violation : Violation}
    (h : op.binary? = some f) (hf : f a b = .error violation) : violation = .divisionByZero := by
  cases op <;> simp only [binary?, reduceCtorEq] at h <;> obtain rfl := Option.some.inj h
  case div | mod =>
    dsimp only at hf
    split at hf
    · exact (Except.error.inj hf).symm
    · contradiction
  all_goals contradiction

theorem unary?_inPool {ctx : Context} {s : Store} {f : Value → Except Violation Value}
    (h : op.unary? ctx s = some f) (hf : f a = .ok v) : v.InPool pool := by
  cases op <;> simp only [unary?, reduceCtorEq] at h <;> obtain rfl := Option.some.inj h
  case load | strlen =>
    obtain ⟨_, -, rfl⟩ := map_eq_ok hf
    trivial
  all_goals
    rw [← Except.ok.inj hf]
    trivial

end Opcode

/-! ### Instructions on typed stores -/

namespace Effect

variable {ctx : Context} {s s' : Store} {i : Instruction}

/-- The effect leaves a typed store, and a failure has an excused violation. -/
def Safe (pool : StringPool) (s : Store) (i : Instruction) (e : Effect) : Prop :=
  e.Meets (fun s' _ => s'.Typed pool) fun failure =>
    failure.violation.Excused s i ∧ failure.store.Typed pool

theorem safe_fail (hs' : s'.Typed pool) {violation : Violation} (h : violation.Excused s i) :
    (fail ctx s' violation).Safe pool s i := ⟨h, hs'⟩

theorem safe_push (hs' : s'.Typed pool) {v : Value} (hv : v.InPool pool) :
    (push ctx s' v).Safe pool s i := by
  apply meets_push
  · intro t hitems _
    apply hs'.withStack
    rw [hitems]
    exact List.forall_mem_cons.mpr ⟨hv, hs'.stack⟩
  · exact fun _ => ⟨trivial, hs'⟩

theorem safe_pushResult (hs' : s'.Typed pool) {result : Except Violation Value}
    (hok : ∀ v, result = .ok v → v.InPool pool)
    (herror : ∀ violation, result = .error violation → violation.Excused s i) :
    (pushResult ctx s' result).Safe pool s i := by
  cases result with
  | ok v => exact safe_push hs' (hok v rfl)
  | error violation => exact ⟨herror violation rfl, hs'⟩

theorem safe_underflow (hs : s.Typed pool) (required : Nat) :
    (underflow ctx s required).Safe pool s i :=
  meets_underflow (fun _ => hs) fun _ => safe_fail hs trivial

theorem safe_withOne (hs : s.Typed pool) {next : Value → BoundedStack Value → Effect}
    (h : ∀ a rest, s.stack.items = a :: rest.items → a.InPool pool →
      Store.Typed pool { s with stack := rest } → (next a rest).Safe pool s i) :
    (withOne ctx s next).Safe pool s i := by
  apply meets_withOne
  · exact fun _ => safe_underflow hs 1
  · intro a rest hitems _
    have hall := hs.stack
    rw [hitems, List.forall_mem_cons] at hall
    exact h a rest hitems hall.1 (hs.withStack hall.2)

theorem safe_withTwo (hs : s.Typed pool) {next : Value → Value → BoundedStack Value → Effect}
    (h : ∀ a b rest, Store.Typed pool { s with stack := rest } →
      (next a b rest).Safe pool s i) :
    (withTwo ctx s next).Safe pool s i := by
  apply meets_withTwo
  · exact fun _ => safe_underflow hs 2
  · intro a b rest hitems _
    have hall := hs.stack
    rw [hitems, List.forall_mem_cons, List.forall_mem_cons] at hall
    exact h a b rest (hs.withStack hall.2.2)

theorem safe_atDepth (hs : s.Typed pool) (hliteral : Instruction.isLiteral i.operand)
    {act : Nat → Option Effect} (h : ∀ depth e, act depth = some e → e.Safe pool s i) :
    (s.atDepth ctx i.operand act).Safe pool s i := by
  obtain ⟨v, hv, -⟩ := Store.operandValue_of_isLiteral hs hliteral ctx.here
  apply meets_atDepth
  · intro violation he
    rw [hv] at he
    contradiction
  · exact fun w e _ he => h _ e he
  · exact fun _ _ _ => safe_underflow hs _

end Effect

open Effect

variable {ctx : Context} {s : Store} {i : Instruction}

theorem Opcode.unary?_excused {f : Value → Except Violation Value} {a : Value}
    {rest : List Value} {violation : Violation} (h : i.opcode.unary? ctx s = some f)
    (hitems : s.stack.items = a :: rest) (ha : a.InPool ctx.strings)
    (hf : f a = .error violation) : violation.Excused s i := by
  cases hop : i.opcode <;> rw [hop] at h <;> simp only [unary?, reduceCtorEq] at h <;>
    obtain rfl := Option.some.inj h
  case load =>
    have hread := map_eq_error hf
    unfold Memory.read at hread
    split at hread
    · contradiction
    · rw [← Except.error.inj hread]
      exact hop
  case strlen =>
    obtain ⟨hstr, rfl⟩ := Context.textOf_eq_error ha (map_eq_error hf)
    refine ⟨hop, a, ?_, hstr⟩
    rw [BoundedStack.peek?, hitems]
    rfl
  all_goals contradiction

private theorem safe_move (hs : s.Typed ctx.strings) {r : UInt8} {o : Operand}
    (hr : Instruction.isRegister r) (ho : o = .top ∨ Instruction.isLiteral o) :
    (s.move ctx r o).Safe ctx.strings s i := by
  rcases ho with rfl | hliteral
  · rw [Store.move_top hr]
    apply safe_withOne hs
    intro v rest _ hv hrest
    exact hrest.setRegister r hv
  · obtain ⟨v, hv, hpool⟩ := Store.operandValue_of_isLiteral hs hliteral ctx.here
    have htop : o ≠ .top := by
      rintro rfl
      contradiction
    have hmove : s.move ctx r o = .ok (s.setRegister r v, .next) := by
      rw [Store.move, if_pos hr, hv]
      exact htop
    rw [hmove]
    exact hs.setRegister r hpool

private theorem safe_pushIndex (hs : s.Typed ctx.strings) (index : UInt32)
    (h : i.opcode = .getStr ∨ index.toNat < ctx.strings.size) :
    Safe ctx.strings s i (match ctx.strings.get? index with
      | none => fail ctx s (.stringOutOfBounds index)
      | some _ => push ctx s (.str index)) := by
  by_cases hlt : index.toNat < ctx.strings.size
  · obtain ⟨text, htext⟩ := StringPool.get?_eq_some hlt
    rw [htext]
    exact safe_push hs hlt
  · have hnone : ctx.strings.get? index = none := Array.getElem?_eq_none (Nat.le_of_not_lt hlt)
    rw [hnone]
    exact safe_fail hs (h.resolve_right hlt)

private theorem safe_pushStringOf (hs : s.Typed ctx.strings) (hi : i.WellFormed)
    (hresolved : i.dangling? ctx.strings = none)
    (hop : i.opcode = .pushStr ∨ i.opcode = .getStr) :
    (s.pushStringOf ctx i.operand).Safe ctx.strings s i := by
  rcases hop with hop | hop
  · obtain ⟨k, hk⟩ := hi.operand_stringRef (by rw [hop]; rfl)
    have hlt := Instruction.lt_size_of_dangling? hresolved hk
    rw [hk]
    exact safe_pushIndex hs k (.inr hlt)
  · have hliteral := hi.isLiteral_operand (by rw [hop]; rfl)
    obtain ⟨v, hv, -⟩ := Store.operandValue_of_isLiteral hs hliteral ctx.here
    obtain ⟨index, hindex⟩ : ∃ index, s.stringIndexOf ctx.here i.operand = .ok index := by
      unfold Store.stringIndexOf
      split
      · exact ⟨_, rfl⟩
      · rw [hv]
        exact ⟨_, rfl⟩
    rw [Store.pushStringOf, hindex]
    exact safe_pushIndex hs index (.inl hop)

/-- Every instruction of a program but a store leaves a typed store, and a violation of it is one
of those that are left. -/
theorem execute_safe (hs : s.Typed ctx.strings) (hi : i.WellFormed)
    (hresolved : i.dangling? ctx.strings = none) (hstore : i.opcode ≠ .store)
    (henforced : ∀ violation, ctx.enforced = .error violation → violation.kind = .invariant) :
    (execute ctx s i).Safe ctx.strings s i := by
  have literal : ∀ {op : Opcode}, i.opcode = op → op.shape = .literal →
      Instruction.isLiteral i.operand := by
    rintro _ rfl hshape
    exact hi.isLiteral_operand hshape
  apply execute_elim (motive := fun e => e.Safe ctx.strings s i)
  case binary =>
    intro f hf
    apply safe_withTwo hs
    intro a b rest hrest
    apply safe_pushResult hrest
    · exact fun v => Opcode.binary?_inPool hf
    · intro violation he
      rw [Opcode.binary?_eq_error hf he]
      trivial
  case unary =>
    intro f hf
    apply safe_withOne hs
    intro a rest hitems ha hrest
    apply safe_pushResult hrest
    · exact fun v => Opcode.unary?_inPool hf
    · exact fun violation => Opcode.unary?_excused hf hitems ha
  case halt | idle | jmp => exact fun _ => hs
  case check =>
    intro _
    split
    · rename_i violation he
      exact safe_fail hs (Violation.excused_of_kind (henforced violation he))
    · exact hs
  case push =>
    intro hop
    obtain ⟨v, hv, hpool⟩ := Store.operandValue_of_isLiteral hs (literal hop rfl) ctx.here
    rw [hv]
    exact safe_push hs hpool
  case pop => exact fun _ => safe_withOne hs fun _ _ _ _ hrest => hrest
  case dup => exact fun _ => safe_withOne hs fun v _ _ hv _ => safe_push hs hv
  case swap =>
    intro _
    split
    · exact safe_underflow hs 2
    · rename_i stack hswap
      exact hs.withStack fun v hv => hs.stack v (BoundedStack.mem_of_swapWithTop? hswap hv)
  case indup =>
    intro hop
    apply safe_atDepth hs (literal hop rfl)
    intro depth e he
    obtain ⟨v, hv, rfl⟩ := Option.map_eq_some_iff.mp he
    exact safe_push hs (hs.stack v (BoundedStack.mem_of_peekAt?_eq_some hv))
  case inswap =>
    intro hop
    apply safe_atDepth hs (literal hop rfl)
    intro depth e he
    obtain ⟨stack, hswap, rfl⟩ := Option.map_eq_some_iff.mp he
    exact hs.withStack fun v hv => hs.stack v (BoundedStack.mem_of_swapWithTop? hswap hv)
  case mov =>
    intro hop
    obtain ⟨r, o, rfl, hr, ho⟩ := hi.operands_mov hop
    exact safe_move hs hr ho
  case string => exact safe_pushStringOf hs hi hresolved
  case store => exact fun hop => absurd hop hstore
  case print =>
    intro _
    apply safe_withOne hs
    intro v rest _ hv hrest
    obtain ⟨text, htext⟩ := Context.printed_of_inPool hv
    rw [htext]
    exact ⟨hrest.stack, hrest.registers⟩
  case branch => exact fun _ _ => safe_withOne hs fun _ _ _ _ hrest => hrest
  case call =>
    intro _
    apply meets_call
    · intro t ht _
      apply hs.withStack
      rw [ht]
      exact List.forall_mem_cons.mpr ⟨trivial, hs.stack⟩
    · exact fun _ => safe_fail hs trivial
  case ret => exact fun _ => safe_withOne hs fun _ _ _ _ hrest => hrest
  case native => exact fun _ _ => safe_fail hs trivial

end InvariantMachine

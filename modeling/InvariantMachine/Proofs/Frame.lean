import Mathlib
import InvariantMachine.Proofs.Effects

/-!
# What instructions leave alone

Most instructions change the stack and nothing else, and execution goes on behind them. The others
are the halt, the transfers of control, the move to a register, the store and the print. Control
leaves the straight line only by a target or by a popped address, and memory changes only by a
store, in the byte that it names. An instruction that fails has changed nothing but the stack.
-/

namespace InvariantMachine

/-- A failure that has changed nothing but the stack, and stands behind the instruction. -/
structure Failure.OnStack (ctx : Context) (s : Store) (failure : Failure) : Prop where
  store_eq : failure.store = { s with stack := failure.store.stack }
  pc_eq : failure.pc = ctx.after
  registration_eq : failure.registration = ctx.registration

namespace Failure.OnStack

variable {ctx : Context} {s : Store} {failure : Failure}

theorem registers_eq (h : failure.OnStack ctx s) : failure.store.registers = s.registers := by
  rw [h.store_eq]

theorem memory_eq (h : failure.OnStack ctx s) : failure.store.memory = s.memory := by
  rw [h.store_eq]

theorem output_eq (h : failure.OnStack ctx s) : failure.store.output = s.output := by
  rw [h.store_eq]

end Failure.OnStack

theorem Context.onStack_failure (ctx : Context) (s : Store) (stack : BoundedStack Value)
    (violation : Violation) : (ctx.failure { s with stack } violation).OnStack ctx s :=
  ⟨rfl, rfl, rfl⟩

namespace Effect

variable {ctx : Context} {s : Store} {stack : BoundedStack Value}

/-- However the effect ends, it changes the stack alone, and it goes on behind the instruction. -/
def StackOnly (ctx : Context) (s : Store) (e : Effect) : Prop :=
  e.Meets (fun s' flow => (∃ t, s' = { s with stack := t }) ∧ flow = .next) (Failure.OnStack ctx s)

theorem stackOnly_ok (stack : BoundedStack Value) :
    StackOnly ctx s (.ok ({ s with stack }, .next)) :=
  ⟨⟨stack, rfl⟩, rfl⟩

theorem stackOnly_fail (violation : Violation) : (fail ctx s violation).StackOnly ctx s :=
  ctx.onStack_failure s s.stack violation

theorem stackOnly_pushResult (stack : BoundedStack Value) (result : Except Violation Value) :
    (pushResult ctx { s with stack } result).StackOnly ctx s := by
  apply meets_pushResult
  · intro _ _ t _ _
    exact ⟨⟨t, rfl⟩, rfl⟩
  · exact fun _ => ctx.onStack_failure s stack _
  · exact fun violation _ => ctx.onStack_failure s stack violation

theorem stackOnly_push (v : Value) : (push ctx s v).StackOnly ctx s :=
  stackOnly_pushResult s.stack (.ok v)

theorem stackOnly_underflow (required : Nat) : (underflow ctx s required).StackOnly ctx s := by
  apply meets_underflow
  · exact fun _ => ⟨⟨s.stack, rfl⟩, rfl⟩
  · exact fun _ => stackOnly_fail _

theorem stackOnly_withOne {next : Value → BoundedStack Value → Effect}
    (h : ∀ a rest, (next a rest).StackOnly ctx s) : (withOne ctx s next).StackOnly ctx s :=
  meets_withOne (fun _ => stackOnly_underflow 1) fun a rest _ _ => h a rest

theorem stackOnly_withTwo {next : Value → Value → BoundedStack Value → Effect}
    (h : ∀ a b rest, (next a b rest).StackOnly ctx s) : (withTwo ctx s next).StackOnly ctx s :=
  meets_withTwo (fun _ => stackOnly_underflow 2) fun a b rest _ _ => h a b rest

theorem stackOnly_atDepth {α : Type} {o : Operand} {find : Nat → Option α} {next : α → Effect}
    (h : ∀ a, (next a).StackOnly ctx s) :
    (s.atDepth ctx o fun depth => (find depth).map next).StackOnly ctx s := by
  apply meets_atDepth
  · exact fun violation _ => stackOnly_fail violation
  · intro v effect _ he
    obtain ⟨a, -, rfl⟩ := Option.map_eq_some_iff.mp he
    exact h a
  · exact fun _ _ _ => stackOnly_underflow _

end Effect

namespace Opcode

/-- Whether the operation works on the stack alone and never transfers control. -/
def onlyStack : Opcode → Bool
  | halt | mov | store | print | jmp | zjmp | nzjmp | call | ret => false
  | _ => true

end Opcode

open Effect

variable {ctx : Context} {s s' : Store} {i : Instruction} {flow : Flow}

theorem execute_stackOnly (h : i.opcode.onlyStack) : (execute ctx s i).StackOnly ctx s := by
  apply execute_elim (motive := fun e => e.StackOnly ctx s)
  case binary =>
    intro f _
    apply stackOnly_withTwo
    intro a b rest
    exact stackOnly_pushResult rest (f a b)
  case unary =>
    intro f _
    apply stackOnly_withOne
    intro v rest
    exact stackOnly_pushResult rest (f v)
  case idle => exact fun _ => stackOnly_ok s.stack
  case check =>
    intro _
    split
    · exact stackOnly_fail _
    · exact stackOnly_ok s.stack
  case push => exact fun _ => stackOnly_pushResult s.stack _
  case pop => exact fun _ => stackOnly_withOne fun _ rest => stackOnly_ok rest
  case dup => exact fun _ => stackOnly_withOne fun v _ => stackOnly_push v
  case swap =>
    intro _
    split
    · exact stackOnly_underflow 2
    · exact stackOnly_ok _
  case indup => exact fun _ => stackOnly_atDepth stackOnly_push
  case inswap => exact fun _ => stackOnly_atDepth stackOnly_ok
  case string =>
    intro _
    unfold Store.pushStringOf
    split
    · exact stackOnly_fail _
    · split
      · exact stackOnly_fail _
      · exact stackOnly_push _
  case native => exact fun _ _ => stackOnly_fail _
  case branch =>
    intro onZero hop
    cases onZero <;> rw [hop] at h <;> contradiction
  all_goals
    intro hop
    rw [hop] at h
    contradiction

namespace Memory

variable {memory memory' : Memory} {a : Nat} {b : UInt8}

theorem write_eq_ok (h : memory.write a b = .ok memory') :
    memory'.bytes.toList = memory.bytes.toList.set a b := by
  unfold write at h
  split at h
  · rw [← Except.ok.inj h, Array.toList_set]
  · contradiction

theorem size_of_write (h : memory.write a b = .ok memory') : memory'.size = memory.size := by
  have hlen := congrArg List.length (write_eq_ok h)
  rw [List.length_set] at hlen
  exact hlen

end Memory

/-- Where control goes after an instruction other than behind it. -/
def Flow.Justified (s : Store) (i : Instruction) : Flow → Prop
  | .next => True
  | .halt => i.opcode = .halt
  | .goto address =>
    (i.opcode.takesAddress ∧ address = i.operand.target) ∨
      (i.opcode = .ret ∧ ∃ v rest, s.stack.items = v :: rest ∧ address = v.asAddress)

/-- The memory of a later store is that of an earlier one, but for the byte that a store
instruction with its two entries writes. -/
def Store.MemoryKept (s : Store) (i : Instruction) (s' : Store) : Prop :=
  s'.memory = s.memory ∨ (i.opcode = .store ∧ ∃ address v rest,
    s.stack.items = address :: v :: rest ∧
      s.memory.write address.asAddress (UInt8.ofNat v.asInt.toUInt64.toNat) = .ok s'.memory)

theorem Store.MemoryKept.size_eq (h : s.MemoryKept i s') : s'.memory.size = s.memory.size := by
  rcases h with hsame | ⟨-, _, _, _, -, hwrite⟩
  · rw [hsame]
  · exact Memory.size_of_write hwrite

/-- What an instruction leaves alone. A success keeps to the straight line, but for a reason, and
keeps the memory, but for a store; a failure changes nothing but the stack. -/
def Effect.Framed (ctx : Context) (s : Store) (i : Instruction) (e : Effect) : Prop :=
  e.Meets (fun s' flow => flow.Justified s i ∧ s.MemoryKept i s') (Failure.OnStack ctx s)

private theorem framed_next (h : s'.memory = s.memory) : Framed ctx s i (.ok (s', .next)) :=
  ⟨trivial, .inl h⟩

private theorem framed_fail (stack : BoundedStack Value) (violation : Violation) :
    Framed ctx s i (fail ctx { s with stack } violation) :=
  ctx.onStack_failure s stack violation

private theorem framed_underflow (required : Nat) :
    (underflow ctx s required).Framed ctx s i := by
  apply meets_underflow
  · exact fun _ => ⟨trivial, .inl rfl⟩
  · exact fun _ => ctx.onStack_failure s s.stack _

private theorem framed_withOne {next : Value → BoundedStack Value → Effect}
    (h : ∀ a rest, s.stack.items = a :: rest.items → (next a rest).Framed ctx s i) :
    (withOne ctx s next).Framed ctx s i :=
  meets_withOne (fun _ => framed_underflow 1) fun a rest hitems _ => h a rest hitems

private theorem framed_withTwo {next : Value → Value → BoundedStack Value → Effect}
    (h : ∀ a b rest, s.stack.items = b :: a :: rest.items → (next a b rest).Framed ctx s i) :
    (withTwo ctx s next).Framed ctx s i :=
  meets_withTwo (fun _ => framed_underflow 2) fun a b rest hitems _ => h a b rest hitems

private theorem framed_goto (h : i.opcode.takesAddress) (hmemory : s'.memory = s.memory) :
    Framed ctx s i (.ok (s', .goto i.operand.target)) :=
  ⟨.inl ⟨h, rfl⟩, .inl hmemory⟩

private theorem framed_branch (onZero : Bool) (hop : i.opcode = if onZero then .zjmp else .nzjmp) :
    (execute ctx s i).Framed ctx s i := by
  rw [execute_branch onZero hop]
  apply framed_withOne
  intro v rest _
  split
  · exact framed_goto (by cases onZero <;> rw [hop] <;> rfl) rfl
  · exact framed_next rfl

private theorem framed_move (index : UInt8) : (s.move ctx index i.operand).Framed ctx s i := by
  unfold Store.move
  split
  · split
    · split
      · exact framed_next rfl
      · exact framed_underflow 1
    · split
      · exact framed_fail s.stack _
      · exact framed_next rfl
  · exact framed_fail s.stack _

theorem execute_framed : (execute ctx s i).Framed ctx s i := by
  by_cases h : i.opcode.onlyStack
  · apply (execute_stackOnly h).imp
    · rintro _ _ ⟨⟨t, rfl⟩, rfl⟩
      exact ⟨trivial, .inl rfl⟩
    · exact fun _ hfailure => hfailure
  · -- Only the instructions that do more than change the stack are left.
    cases hop : i.opcode <;> rw [hop] at h <;> try exact absurd rfl h
    case halt =>
      rw [execute_of_none hop rfl, perform, hop]
      exact ⟨hop, .inl rfl⟩
    case mov =>
      rw [execute_of_none hop rfl, perform, hop]
      exact framed_move _
    case store =>
      rw [execute_store hop]
      apply framed_withTwo
      intro v address rest hitems
      split
      · exact framed_fail rest _
      · rename_i memory hwrite
        exact ⟨trivial, .inr ⟨hop, address, v, rest.items, hitems, hwrite⟩⟩
    case print =>
      rw [execute_print hop]
      apply framed_withOne
      intro v rest _
      split
      · exact framed_fail rest _
      · exact framed_next rfl
    case jmp =>
      rw [execute_of_none hop rfl, perform, hop]
      exact framed_goto (by rw [hop]; rfl) rfl
    case zjmp => exact framed_branch true hop
    case nzjmp => exact framed_branch false hop
    case call =>
      rw [execute_of_none hop rfl, perform, hop]
      apply meets_call
      · exact fun t _ _ => ⟨.inl ⟨by rw [hop]; rfl, rfl⟩, .inl rfl⟩
      · exact fun _ => ctx.onStack_failure s s.stack _
    case ret =>
      rw [execute_ret hop]
      apply framed_withOne
      intro v rest hitems
      exact ⟨.inr ⟨hop, v, rest.items, hitems, rfl⟩, .inl rfl⟩

end InvariantMachine

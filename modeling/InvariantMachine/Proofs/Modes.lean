import Mathlib
import InvariantMachine.Proofs.Bounds
import InvariantMachine.Proofs.PoolReferences
import InvariantMachine.Proofs.StackFaults

/-!
# Strict and lenient machines

The modes of a machine differ in what an underflow does and in nothing else. Where an instruction
finds its entries, both modes carry it out alike; where it does not, nothing has changed yet, and
the strict mode fails while the lenient mode passes the instruction over. So two machines of one
program go through the same states until the first underflow, and there the lenient one goes on.
-/

namespace InvariantMachine

namespace Violation

variable {violation : Violation}

/-- Whether a violation is that too few entries were on the stack. -/
def isUnderflow : Violation → Bool
  | stackUnderflow _ _ => true
  | _ => false

theorem isUnderflow_of_isStackFault (h : violation.isStackFault = false) :
    violation.isUnderflow = false := by
  cases violation <;> first | rfl | contradiction

theorem isUnderflow_of_kind (h : violation.kind = .invariant) : violation.isUnderflow = false :=
  isUnderflow_of_isStackFault (isStackFault_of_kind h)

end Violation

theorem Store.isUnderflow_of_operandValue {s : Store} {here : Nat} {o : Operand}
    {violation : Violation} (h : s.operandValue here o = .error violation) :
    violation.isUnderflow = false :=
  Violation.isUnderflow_of_isStackFault (isStackFault_of_operandValue h)

def Context.withMode (ctx : Context) (mode : ExecutionMode) : Context := { ctx with mode }

namespace Effect

variable {ctx : Context} {s : Store}

/-- An effect that does not fail on an underflow. -/
def Supplied (e : Effect) : Prop :=
  e.Meets (fun _ _ => True) fun failure => failure.violation.isUnderflow = false

theorem supplied_ok {flow : Flow} : Supplied (.ok (s, flow)) := trivial

theorem supplied_fail {violation : Violation} (h : violation.isUnderflow = false) :
    (fail ctx s violation).Supplied := h

theorem supplied_push (v : Value) : (push ctx s v).Supplied := by
  apply meets_push
  · exact fun _ _ _ => trivial
  · exact fun _ => rfl

theorem supplied_pushResult {result : Except Violation Value}
    (h : ∀ violation, result = .error violation → violation.isUnderflow = false) :
    (pushResult ctx s result).Supplied := by
  cases result with
  | ok v => exact supplied_push v
  | error violation => exact supplied_fail (h violation rfl)

/-- What the modes make of an instruction, the strict one first: the same, or a failure before
anything changed and nothing at all. -/
inductive Modes (ctx : Context) (s : Store) : Effect → Effect → Prop
  | same {e : Effect} (supplied : e.Supplied) : Modes ctx s e e
  | underflow {required : Nat} (short : min (s.stack.size + 1) greatestSize ≤ required) :
      Modes ctx s (fail ctx s (.stackUnderflow required s.stack.size)) (.ok (s, .next))

theorem Modes.of_eq {e e' : Effect} (heq : e = e') (h : e.Supplied) : Modes ctx s e e' := by
  subst heq
  exact .same h

theorem modes_underflow {required : Nat} (h : min (s.stack.size + 1) greatestSize ≤ required) :
    Modes ctx s (Effect.underflow (ctx.withMode .strict) s required)
      (Effect.underflow (ctx.withMode .lenient) s required) := .underflow h

theorem modes_withOne {next next' : Value → BoundedStack Value → Effect} (heq : next = next')
    (h : ∀ a rest, (next a rest).Supplied) :
    Modes ctx s (withOne (ctx.withMode .strict) s next)
      (withOne (ctx.withMode .lenient) s next') := by
  subst heq
  unfold withOne
  cases hpop : s.stack.pop? with
  | none =>
    have hsize := BoundedStack.size_of_pop?_eq_none hpop
    apply modes_underflow
    omega
  | some entry => exact .same (h entry.1 entry.2)

theorem modes_withTwo {next next' : Value → Value → BoundedStack Value → Effect}
    (heq : next = next') (h : ∀ a b rest, (next a b rest).Supplied) :
    Modes ctx s (withTwo (ctx.withMode .strict) s next)
      (withTwo (ctx.withMode .lenient) s next') := by
  subst heq
  unfold withTwo
  cases hpop : s.stack.pop? with
  | none =>
    have hsize := BoundedStack.size_of_pop?_eq_none hpop
    apply modes_underflow
    omega
  | some entry =>
    obtain ⟨b, below⟩ := entry
    have hsize := BoundedStack.size_of_pop?_eq_some hpop
    dsimp only
    cases hpop' : below.pop? with
    | none =>
      have hsize' := BoundedStack.size_of_pop?_eq_none hpop'
      apply modes_underflow
      omega
    | some entry' => exact .same (h entry'.1 b entry'.2)

theorem modes_atDepth {o : Operand} {act act' : Nat → Option Effect} (heq : act = act')
    (hact : ∀ depth e, act depth = some e → e.Supplied)
    (hshort : ∀ depth, act depth = none → s.stack.size ≤ depth) :
    Modes ctx s (s.atDepth (ctx.withMode .strict) o act)
      (s.atDepth (ctx.withMode .lenient) o act') := by
  subst heq
  unfold Store.atDepth
  have hvalue : s.operandValue (ctx.withMode .strict).here o =
      s.operandValue (ctx.withMode .lenient).here o := rfl
  rw [hvalue]
  cases hv : s.operandValue (ctx.withMode .lenient).here o with
  | error violation =>
    have hsupplied : (fail ctx s violation).Supplied :=
      supplied_fail (Store.isUnderflow_of_operandValue hv)
    exact .same hsupplied
  | ok v =>
    dsimp only
    cases he : act v.asAddress with
    | some e => exact .same (hact _ e he)
    | none =>
      have hdeep := hshort _ he
      apply modes_underflow
      omega

end Effect

open Effect

variable {ctx : Context} {s : Store} {i : Instruction}

theorem Opcode.unary?_withMode (op : Opcode) (mode : ExecutionMode) :
    op.unary? (ctx.withMode mode) s = op.unary? ctx s := by
  cases op <;> rfl

theorem Opcode.supplied_unary {f : Value → Except Violation Value} {v : Value} {ctx' : Context}
    {s' : Store} (h : i.opcode.unary? ctx s = some f) : (pushResult ctx' s' (f v)).Supplied := by
  apply supplied_pushResult
  intro _ hf
  exact Violation.isUnderflow_of_isStackFault (Opcode.isStackFault_of_unary h hf)

theorem supplied_binary {f : Value → Value → Except Violation Value} {a b : Value}
    (h : i.opcode.binary? = some f) : (pushResult ctx s (f a b)).Supplied := by
  apply supplied_pushResult
  intro violation hf
  rw [Opcode.binary?_eq_error h hf]
  rfl

theorem supplied_call {o : Operand} : (s.call ctx o).Supplied := by
  apply meets_call
  · exact fun _ _ _ => trivial
  · exact fun _ => rfl

theorem supplied_pushStringOf {o : Operand} : (s.pushStringOf ctx o).Supplied := by
  unfold Store.pushStringOf
  split
  · rename_i violation h
    exact Violation.isUnderflow_of_isStackFault (Store.isStackFault_of_stringIndexOf h)
  · split
    · exact supplied_fail rfl
    · exact supplied_push _

theorem modes_move (index : UInt8) (o : Operand) :
    Modes ctx s (s.move (ctx.withMode .strict) index o)
      (s.move (ctx.withMode .lenient) index o) := by
  by_cases hindex : Instruction.isRegister index
  · by_cases htop : o = .top
    · rw [htop, Store.move_top hindex, Store.move_top hindex]
      exact modes_withOne rfl fun _ _ => supplied_ok
    · rw [Store.move_of_ne_top hindex htop, Store.move_of_ne_top hindex htop]
      apply Modes.of_eq rfl
      split
      · rename_i violation h
        exact supplied_fail (Store.isUnderflow_of_operandValue h)
      · exact supplied_ok
  · rw [Store.move_of_not_isRegister hindex, Store.move_of_not_isRegister hindex]
    exact .of_eq rfl (supplied_fail rfl)

/-- An instruction fails on an underflow in the strict mode only, and is then passed over in the
lenient mode; all else it does alike. -/
theorem execute_modes
    (henforced : ∀ violation, ctx.enforced = .error violation → violation.isUnderflow = false) :
    Modes ctx s (execute (ctx.withMode .strict) s i) (execute (ctx.withMode .lenient) s i) := by
  apply execute_elim_uniform (motive := fun e =>
    Modes ctx s (e (ctx.withMode .strict) s) (e (ctx.withMode .lenient) s))
  case binary => exact fun f hf => modes_withTwo rfl fun a b rest => supplied_binary hf
  case unary =>
    intro f hf
    have hsame : f (ctx.withMode .strict) s = f (ctx.withMode .lenient) s := by
      apply Option.some.inj
      rw [← hf, ← hf, Opcode.unary?_withMode, Opcode.unary?_withMode]
    dsimp only
    rw [hsame]
    exact modes_withOne rfl fun v rest => Opcode.supplied_unary (hf (ctx.withMode .lenient) s)
  case halt | idle | jmp => exact fun _ => .same supplied_ok
  case check =>
    intro _
    have henforced' : (ctx.withMode .strict).enforced = ctx.enforced := rfl
    have henforced'' : (ctx.withMode .lenient).enforced = ctx.enforced := rfl
    dsimp only
    rw [henforced', henforced'']
    cases he : ctx.enforced with
    | error violation => exact .of_eq rfl (supplied_fail (henforced violation he))
    | ok _ => exact .same supplied_ok
  case push =>
    intro _
    apply Modes.of_eq rfl
    apply supplied_pushResult
    exact fun _ h => Store.isUnderflow_of_operandValue h
  case pop => exact fun _ => modes_withOne rfl fun _ _ => supplied_ok
  case dup => exact fun _ => modes_withOne rfl fun v _ => supplied_push v
  case swap =>
    intro _
    dsimp only
    cases hswap : s.stack.swapWithTop? 1 with
    | none =>
      have hsize := BoundedStack.size_le_of_swapWithTop?_eq_none hswap
      apply modes_underflow
      omega
    | some stack => exact .same supplied_ok
  case indup =>
    intro _
    apply modes_atDepth rfl
    · intro depth e he
      obtain ⟨v, -, rfl⟩ := Option.map_eq_some_iff.mp he
      exact supplied_push v
    · intro depth hnone
      exact List.getElem?_eq_none_iff.mp (Option.map_eq_none_iff.mp hnone)
  case inswap =>
    intro _
    apply modes_atDepth rfl
    · intro depth e he
      obtain ⟨stack, -, rfl⟩ := Option.map_eq_some_iff.mp he
      exact supplied_ok
    · intro depth hnone
      exact BoundedStack.size_le_of_swapWithTop?_eq_none (Option.map_eq_none_iff.mp hnone)
  case mov => exact fun _ => modes_move _ _
  case string => exact fun _ => .of_eq rfl supplied_pushStringOf
  case store =>
    intro _
    apply modes_withTwo rfl
    intro v address rest
    split
    · rename_i violation h
      exact Violation.isUnderflow_of_isStackFault (Memory.isStackFault_of_write h)
    · exact supplied_ok
  case print =>
    intro _
    apply modes_withOne rfl
    intro v rest
    split
    · rename_i violation h
      exact Violation.isUnderflow_of_isStackFault (Context.isStackFault_of_printed h)
    · exact supplied_ok
  case branch => exact fun _ _ => modes_withOne rfl fun _ _ => supplied_ok
  case call => exact fun _ => .of_eq rfl supplied_call
  case ret => exact fun _ => modes_withOne rfl fun _ _ => supplied_ok
  case native => exact fun _ _ => .of_eq rfl (supplied_fail rfl)

theorem Context.withMode_eq_self {mode : ExecutionMode} (h : ctx.mode = mode) :
    ctx.withMode mode = ctx := by
  subst h
  rfl

namespace Machine

variable {m : Machine}

def withMode (m : Machine) (mode : ExecutionMode) : Machine :=
  { m with config := { m.config with mode } }

theorem checked_withMode (m : Machine) (mode : ExecutionMode) :
    (m.withMode mode).checked = m.checked.withMode mode :=
  checked_comm (f := (withMode · mode)) rfl (fun _ => rfl) rfl

theorem retired_withMode (m : Machine) (mode : ExecutionMode) (fetched : Fetched) (store : Store)
    (flow : Flow) :
    (m.withMode mode).retired fetched store flow =
      (m.retired fetched store flow).withMode mode := by
  cases flow <;> rfl

theorem effect_modes (h : m.config.mode = .strict) (fetched : Fetched) :
    Effect.Modes (m.context fetched.after) m.store (m.effect fetched)
      ((m.withMode .lenient).effect fetched) := by
  cases fetched with
  | unknown after => exact .same supplied_ok
  | instruction i after =>
    have hmode : (m.context after).mode = .strict := h
    have hmodes : Effect.Modes (m.context after) m.store
        (execute ((m.context after).withMode .strict) m.store i)
        (execute ((m.context after).withMode .lenient) m.store i) := by
      apply execute_modes
      intro violation he
      exact Violation.isUnderflow_of_kind (Verifier.enforce_error_kind he)
    rw [Context.withMode_eq_self hmode] at hmodes
    exact hmodes

/-- A strict machine that recorded no underflow and has no edit to verify. -/
structure Strict (m : Machine) : Prop where
  mode : m.config.mode = .strict
  recheck : m.recheck = false
  supplied : ∀ violation, m.violation = some violation → violation.isUnderflow = false

/-- What is fetched fails on an underflow, with the entries that it requires and those that are
there, and is passed over by the lenient machine. -/
structure MeetsUnderflow (m : Machine) (required : Nat) : Prop where
  short : min (m.store.stack.size + 1) greatestSize ≤ required
  passed : ∃ fetched, m.store.memory.fetch m.pc = .ok fetched ∧
    m.effect fetched = Effect.fail (m.context fetched.after) m.store
      (.stackUnderflow required m.store.stack.size) ∧
    (m.withMode .lenient).effect fetched = .ok (m.store, .next)

theorem Strict.of_checkEnd {m' : Machine} (hm : m.Strict) (h : CheckEnd m m') : m'.Strict := by
  cases h with
  | @rejected violation hverify =>
    refine ⟨hm.mode, hm.recheck, fun v hv => ?_⟩
    obtain rfl : violation = v := Option.some.inj hv
    exact Violation.isUnderflow_of_kind (Verifier.verify_error_kind hverify)
  | accepted _ _ => exact ⟨hm.mode, hm.recheck, hm.supplied⟩

theorem Strict.fail {violation : Violation} (hm : m.Strict)
    (h : violation.isUnderflow = false) : (m.fail violation).Strict := by
  refine ⟨hm.mode, hm.recheck, fun v hv => ?_⟩
  rw [← Option.some.inj hv]
  exact h

/-- A cycle of a strict machine is one of the lenient machine, or meets an underflow. -/
theorem Strict.cycle (hm : m.Strict) :
    (m.cycle.Strict ∧ (m.withMode .lenient).cycle = m.cycle.withMode .lenient) ∨
    ∃ required, m.MeetsUnderflow required ∧ m.cycle.status = .haltedViolation ∧
      m.cycle.violation = some (.stackUnderflow required m.store.stack.size) := by
  cases hfetch : m.store.memory.fetch m.pc with
  | error violation =>
    have hfetch' : (m.withMode .lenient).store.memory.fetch (m.withMode .lenient).pc =
        .error violation := hfetch
    rw [cycle_of_unfetched hfetch, cycle_of_unfetched hfetch']
    exact .inl ⟨hm.fail (Violation.isUnderflow_of_isStackFault
      (Memory.isStackFault_of_fetch hfetch)), rfl⟩
  | ok fetched =>
    have hfetch' : (m.withMode .lenient).store.memory.fetch (m.withMode .lenient).pc =
        .ok fetched := hfetch
    have hmodes := effect_modes hm.mode fetched
    generalize he : m.effect fetched = e at hmodes
    generalize he' : (m.withMode .lenient).effect fetched = e' at hmodes
    cases hmodes with
    | same hsupplied =>
      left
      cases e with
      | error failure =>
        rw [cycle_of_failed hfetch he, cycle_of_failed hfetch' he']
        exact ⟨⟨hm.mode, hm.recheck, (hm.fail hsupplied).supplied⟩, rfl⟩
      | ok result =>
        obtain ⟨store, flow⟩ := result
        rw [cycle_of_retired hfetch he, cycle_of_retired hfetch' he', retired_withMode,
          checked_withMode]
        refine ⟨Strict.of_checkEnd ?_ (check_ends _), rfl⟩
        refine ⟨?_, ?_, fun v hv => hm.supplied v ?_⟩
        · exact (congrArg Config.mode (config_proceed store fetched.after flow)).trans hm.mode
        · exact (recheck_proceed store fetched.after flow).trans hm.recheck
        · exact (violation_proceed store fetched.after flow).symm.trans hv
    | @underflow required hshort =>
      right
      refine ⟨required, ⟨hshort, fetched, hfetch, he, he'⟩, ?_⟩
      rw [cycle_of_failed hfetch he]
      exact ⟨rfl, rfl⟩

theorem Strict.step (hm : m.Strict) :
    (m.step.Strict ∧ (m.withMode .lenient).step = m.step.withMode .lenient) ∨
    ∃ required, m.status = .running ∧ m.begun.MeetsUnderflow required ∧
      m.step.status = .haltedViolation ∧
      m.step.violation = some (.stackUnderflow required m.store.stack.size) := by
  refine step_together (R := fun a b => (a.Strict ∧ b = a.withMode .lenient) ∨
    ∃ required, m.status = .running ∧ m.begun.MeetsUnderflow required ∧
      a.status = .haltedViolation ∧
      a.violation = some (.stackUnderflow required m.store.stack.size))
    rfl hm.recheck hm.recheck (fun hrun => ?_) fun _ => .inl ⟨hm, rfl⟩
  have hbegun : m.begun.Strict := ⟨hm.mode, rfl, hm.supplied⟩
  exact hbegun.cycle.imp_right fun ⟨required, hunderflow⟩ => ⟨required, hrun, hunderflow⟩

theorem Strict.steps (hm : m.Strict) (n : Nat) :
    ((m.steps n).Strict ∧ (m.withMode .lenient).steps n = (m.steps n).withMode .lenient) ∨
    (m.steps n).HaltedOn (·.isUnderflow) := by
  apply steps_related (R := fun a b => a.Strict ∧ b = a.withMode .lenient)
    (S := fun a _ => a.HaltedOn (·.isUnderflow))
  · rintro a _ ⟨ha, rfl⟩
    rcases ha.step with htogether | ⟨required, -, -, hstatus, hviolation⟩
    · exact .inl htogether
    · exact .inr ⟨hstatus, _, hviolation, rfl⟩
  · exact fun a _ ha => ha.step
  · exact ⟨hm, rfl⟩

/-- The entries that were required are more than those that were there, where a word can count
that far. -/
theorem MeetsUnderflow.size_lt {required : Nat} (h : m.MeetsUnderflow required)
    (hsize : m.store.stack.size < greatestSize) : m.store.stack.size < required := by
  have := h.short
  omega

theorem kind_of_passed {fetched : Fetched} {violation : Violation} (hrun : m.status = .running)
    (hrecheck : m.recheck = false) (hnone : m.violation = none)
    (hfetch : m.store.memory.fetch m.pc = .ok fetched)
    (hpassed : m.begun.effect fetched = .ok (m.store, .next))
    (h : m.step.violation = some violation) : violation.kind = .invariant := by
  rw [step_of_retired hrun hrecheck hfetch hpassed] at h
  exact (check_ends (m.begun.retired fetched m.store .next)).kind_of_violation hnone h

/-- A strict and a lenient machine of one program agree in everything but their modes until the
strict one halts on an underflow. The step at which it does so finds fewer entries than are
required, as long as the capacity of the stack or the number of steps is below the greatest size.
The lenient machine fetches and decodes the same there and passes it over, so only the verification
that ends the step can stop it. -/
theorem lenient_steps_eq_strict_steps {p : Program} {config : Config} {strict : Machine}
    (h₀ : ofProgram p { config with mode := .strict } = .ok strict) :
    ∃ lenient, ofProgram p { config with mode := .lenient } = .ok lenient ∧
      (∀ n, (∀ required available,
          (strict.steps n).violation ≠ some (.stackUnderflow required available)) →
        lenient.steps n = (strict.steps n).withMode .lenient) ∧
      ∀ k required available, (strict.steps k).status = .running →
        (strict.steps (k + 1)).violation = some (.stackUnderflow required available) →
        lenient.steps k = (strict.steps k).withMode .lenient ∧
        available = (strict.steps k).store.stack.size ∧
        (k < greatestSize ∨ config.stackCapacity < greatestSize → available < required) ∧
        (∃ fetched, (lenient.steps k).store.memory.fetch (lenient.steps k).pc = .ok fetched ∧
          (lenient.steps k).begun.effect fetched = .ok ((lenient.steps k).store, .next)) ∧
        ∀ violation, (lenient.steps (k + 1)).violation = some violation →
          violation.kind = .invariant := by
  obtain ⟨hfit, rfl⟩ := ofProgram_eq_ok h₀
  have hstrict : (initial p { config with mode := .strict }).Strict :=
    ⟨rfl, rfl, fun _ h => by contradiction⟩
  refine ⟨(initial p { config with mode := .strict }).withMode .lenient, ofProgram_of_le hfit,
    ?_, ?_⟩
  · intro n hsupplied
    rcases hstrict.steps n with ⟨-, htogether⟩ | ⟨-, violation, hviolation, hunderflow⟩
    · exact htogether
    · cases violation <;> try contradiction
      exact absurd hviolation (hsupplied _ _)
  · intro k required available hrun hviolation
    obtain ⟨hk, htogether⟩ := (hstrict.steps k).resolve_right fun h => by
      rw [h.1] at hrun
      contradiction
    obtain ⟨required', -, hmeets, -, hviolation'⟩ := hk.step.resolve_left fun h => by
      have := h.1.supplied _ hviolation
      contradiction
    obtain ⟨rfl, rfl⟩ : required' = required ∧ _ = available := by
      rw [steps, hviolation', Option.some.injEq, Violation.stackUnderflow.injEq] at hviolation
      exact hviolation
    obtain ⟨fetched, hfetch, -, hpassed⟩ := hmeets.passed
    rw [htogether]
    refine ⟨rfl, rfl, fun hbound => hmeets.size_lt ?_, ⟨fetched, hfetch, hpassed⟩, ?_⟩
    · obtain ⟨hsteps, hcapacity⟩ :=
        stack_size_steps_initial_le p { config with mode := .strict } k
      exact hbound.elim hsteps.trans_lt hcapacity.trans_lt
    · intro violation h
      rw [steps, htogether] at h
      have hnone : ((initial p { config with mode := .strict }).steps k).violation = none :=
        violation_of_running_steps hrun
      exact kind_of_passed (m := (Machine.steps _ k).withMode .lenient) hrun hk.recheck hnone
        hfetch hpassed h

private def copyTooDeep : Program :=
  ⟨#[.withOperand .push (.int 5), .withOperand .indup (.int 3), .bare .halt], .empty, ⟨0, false⟩,
    by decide, by decide, by decide⟩

theorem lenient_steps_eq_strict_steps_copyTooDeep :
    ∃ strict lenient,
      ofProgram copyTooDeep { Config.standard with memorySize := 24, mode := .strict } =
        .ok strict ∧
      ofProgram copyTooDeep { Config.standard with memorySize := 24, mode := .lenient } =
        .ok lenient ∧
      (strict.steps 2).violation = some (.stackUnderflow 4 1) ∧
      lenient.steps 1 = (strict.steps 1).withMode .lenient ∧
      (strict.steps 1).store.stack.size = 1 ∧ 1 < 4 ∧
      (lenient.steps 3).status = .haltedNominal ∧ (lenient.steps 3).store.stack.size = 1 := by
  have h₀ := @ofProgram_of_le copyTooDeep
    { Config.standard with memorySize := 24, mode := .strict } (by decide)
  have hlast : ((initial copyTooDeep
      { Config.standard with memorySize := 24, mode := .strict }).steps 2).violation =
      some (.stackUnderflow 4 1) := by decide +kernel
  obtain ⟨lenient, hlenient, -, hunderflow⟩ :=
    @lenient_steps_eq_strict_steps copyTooDeep { Config.standard with memorySize := 24 } _ h₀
  obtain ⟨hsame, havailable, hlt, -, -⟩ := hunderflow 1 4 1 (by decide +kernel) hlast
  obtain ⟨-, rfl⟩ := ofProgram_eq_ok hlenient
  exact ⟨_, _, h₀, hlenient, hlast, hsame, havailable.symm, hlt (.inl (by decide)),
    by decide +kernel, by decide +kernel⟩

end Machine

end InvariantMachine

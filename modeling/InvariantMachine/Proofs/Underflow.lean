import Mathlib
import InvariantMachine.Proofs.Containment
import InvariantMachine.Proofs.Steps

/-!
# Instructions that lack entries

An instruction underflows when it finds fewer entries than it takes, when the entry at its depth is
not there, or when it moves the top of an empty stack. Each of these is found before anything has
changed. A lenient machine then goes on behind the instruction, wherever the instruction would have
gone, and accounts for it as for any other.
-/

namespace InvariantMachine

namespace Effect

variable {ctx : Context} {s : Store}

theorem underflow_of_lenient (h : ctx.mode = .lenient) (required : Nat) :
    underflow ctx s required = .ok (s, .next) := by
  rw [underflow, h]

theorem withOne_of_short {next : Value → BoundedStack Value → Effect} (h : s.stack.size < 1) :
    withOne ctx s next = underflow ctx s 1 := by
  unfold withOne
  cases hpop : s.stack.pop? with
  | none => rfl
  | some entry =>
    have hsize := BoundedStack.size_of_pop?_eq_some hpop
    omega

theorem atDepth_of_deep {o : Operand} {v : Value} {act : Nat → Option Effect}
    (hvalue : s.operandValue ctx.here o = .ok v) (hact : act v.asAddress = none) :
    s.atDepth ctx o act = underflow ctx s (min (v.asAddress + 1) greatestSize) := by
  rw [Store.atDepth, hvalue]
  dsimp only
  rw [hact]

end Effect

/-- As a depth, a negative integer is as deep as can be. -/
theorem Value.le_asAddress {v : Value} {n : Nat} (hn : n ≤ greatestSize)
    (h : v.asInt.toInt < 0 ∨ (n : Int) ≤ v.asInt.toInt) : n ≤ v.asAddress := by
  unfold asAddress
  split
  · exact hn
  · omega

/-- What an instruction at an address lacks on the stack: entries that it takes, the entry at the
depth that it names, or a top to be moved to a register. -/
inductive Store.Lacks (s : Store) (here : Nat) (i : Instruction) : Prop
  | inputs (short : s.stack.size < i.opcode.stackInputs)
  | depth {v : Value} (opcode : i.opcode = .indup ∨ i.opcode = .inswap)
      (value : s.operandValue here i.operand = .ok v)
      (deep : v.asInt.toInt < 0 ∨ (s.stack.size : Int) ≤ v.asInt.toInt)
  | top {index : UInt8} (opcode : i.opcode = .mov) (register : i.register = some index)
      (valid : Instruction.isRegister index) (operand : i.operand = .top)
      (empty : s.stack.size = 0)

open Effect

variable {ctx : Context} {s : Store} {i : Instruction}

namespace Store.Lacks

/-- Whatever an instruction lacks is an underflow, where a word can count the entries. -/
theorem execute_eq (h : s.Lacks ctx.here i) (hsize : s.stack.size ≤ greatestSize) :
    ∃ required, execute ctx s i = underflow ctx s required := by
  cases h with
  | inputs hshort => exact ⟨_, execute_of_short hshort⟩
  | @depth v hop hvalue hdeep =>
    have hpast : s.stack.size ≤ v.asAddress := Value.le_asAddress hsize hdeep
    refine ⟨min (v.asAddress + 1) greatestSize, ?_⟩
    rcases hop with hop | hop
    · rw [execute_of_none hop rfl, perform, hop]
      apply atDepth_of_deep hvalue
      rw [BoundedStack.peekAt?_eq_none hpast]
      rfl
    · rw [execute_of_none hop rfl, perform, hop]
      apply atDepth_of_deep hvalue
      rw [BoundedStack.swapWithTop?_eq_none hpast]
      rfl
  | top hop hregister hvalid hoperand hempty =>
    refine ⟨1, ?_⟩
    rw [execute_of_none hop rfl, perform, hop, hregister, hoperand]
    dsimp only [Option.getD_some]
    rw [move_top hvalid]
    apply withOne_of_short
    omega

theorem opcode_ne_regCommit {here : Nat} (h : s.Lacks here i) : i.opcode ≠ .regCommit := by
  intro hop
  cases h with
  | inputs hshort =>
    rw [hop] at hshort
    exact Nat.not_lt_zero _ hshort
  | depth hdepth _ _ => simp [hop] at hdepth
  | top hmov _ _ _ _ => simp [hop] at hmov

end Store.Lacks

theorem Registration.retire_of_ne_regCommit (r : Registration) {op : Opcode}
    (h : op ≠ .regCommit) : r.retire (some op) = (r.observe (.ofOpcode? (some op))).advance := by
  rw [retire, if_neg (by simpa using h)]

namespace Machine

variable {m : Machine} {i : Instruction} {after : Nat}

/-- A step passed an instruction over: the machine goes on behind the instruction with everything
that the instruction could have worked on as it was, the instruction is accounted for like any
other, and nothing but the verification at the end of the step can have stopped the machine. -/
structure PassedOver (m : Machine) (i : Instruction) (m' : Machine) : Prop where
  store : m'.store = m.store
  complexity : m'.registration.complexity = m.registration.complexity
  basins : m'.registration.basins = m.registration.basins
  pc : m'.pc = m.pc + i.imageSize
  cycles : m'.cycles = m.cycles + 1
  activity : m'.activity = .ofOpcode? (some i.opcode)
  eta : m'.registration.eta = m'.activity.eta
  properTime : m'.registration.properTime = m.registration.properTime + (1 - m'.activity.eta)
  verified : (m'.status = .running ∧ m'.violation = m.violation) ∨
    ∃ violation, m.verifier.verify m'.registration = .error violation ∧
      m'.status = .haltedViolation ∧ m'.violation = some violation

theorem PassedOver.of_checkEnd {m' checked : Machine} (h : m.PassedOver i m')
    (hrun : m'.status = .running) (hviolation : m'.violation = m.violation)
    (hverifier : m'.verifier = m.verifier) (hcheck : CheckEnd m' checked) :
    m.PassedOver i checked := by
  cases hcheck with
  | @rejected violation hverify =>
    rw [hverifier] at hverify
    exact { h with verified := .inr ⟨violation, hverify, rfl, rfl⟩ }
  | accepted _ _ => exact { h with verified := .inl ⟨hrun, hviolation⟩ }

theorem effect_of_lacks (hmode : m.config.mode = .lenient) (hlacks : m.store.Lacks m.pc i)
    (hsize : m.store.stack.size ≤ greatestSize) (after : Nat) :
    m.effect (.instruction i after) = .ok (m.store, .next) := by
  have hlacks' : m.store.Lacks (m.context after).here i := hlacks
  have hmode' : (m.context after).mode = .lenient := hmode
  obtain ⟨required, hexecute⟩ := hlacks'.execute_eq hsize
  calc m.effect (.instruction i after)
    _ = underflow (m.context after) m.store required := hexecute
    _ = .ok (m.store, .next) := underflow_of_lenient hmode' required

/-- A lenient machine without an edit to verify passes over every instruction that lacks entries.
Its stack holds no more of them than a word can count, as every stack in a memory does; a negative
depth is as deep as that. -/
theorem step_passes_over (hrun : m.status = .running) (hmode : m.config.mode = .lenient)
    (hrecheck : m.recheck = false)
    (hfetch : m.store.memory.fetch m.pc = .ok (.instruction i after))
    (hlacks : m.store.Lacks m.pc i) (hsize : m.store.stack.size ≤ greatestSize) :
    m.PassedOver i m.step := by
  obtain ⟨-, rfl⟩ := Memory.fetch_eq_instruction hfetch
  have heffect : m.effect (.instruction i (m.pc + i.imageSize)) = .ok (m.store, .next) :=
    effect_of_lacks hmode hlacks hsize _
  have hregistration : m.registration.retire (some i.opcode) =
      (m.registration.observe (.ofOpcode? (some i.opcode))).advance :=
    m.registration.retire_of_ne_regCommit hlacks.opcode_ne_regCommit
  have hretired :
      m.PassedOver i (m.begun.retired (.instruction i (m.pc + i.imageSize)) m.store .next) :=
    { store := rfl
      complexity := (congrArg Registration.complexity hregistration).trans rfl
      basins := (congrArg Registration.basins hregistration).trans rfl
      pc := rfl
      cycles := rfl
      activity := rfl
      eta := congrArg Registration.eta hregistration
      properTime := congrArg Registration.properTime hregistration
      verified := .inl ⟨hrun, rfl⟩ }
  rw [step_of_retired hrun hrecheck hfetch heffect]
  exact hretired.of_checkEnd hrun rfl rfl (check_ends _)

private def returnAtOnce : Program :=
  ⟨#[.bare .nop, .bare .ret, .bare .halt], .empty, ⟨0, false⟩, by decide, by decide, by decide⟩

private def returnMachine : Machine := initial returnAtOnce { Config.standard with memorySize := 8 }

/-- A return on an empty stack leads to the next instruction. -/
theorem step_passes_over_returnAtOnce :
    ∃ m, ofProgram returnAtOnce { Config.standard with memorySize := 8 } = .ok m ∧
      m.step.store.memory.fetch m.step.pc = .ok (.instruction (.bare .ret) 2) ∧
      m.step.PassedOver (.bare .ret) m.step.step ∧ m.step.step.pc = 2 ∧
      (m.step.step.step).status = .haltedNominal := by
  have h₀ : ofProgram returnAtOnce { Config.standard with memorySize := 8 } = .ok returnMachine :=
    ofProgram_of_le (by decide)
  have hfetch : returnMachine.step.store.memory.fetch returnMachine.step.pc =
      .ok (.instruction (.bare .ret) 2) := by decide +kernel
  have hlacks : returnMachine.step.store.Lacks returnMachine.step.pc (.bare .ret) :=
    .inputs (by decide +kernel)
  have hpassed : returnMachine.step.PassedOver (.bare .ret) returnMachine.step.step :=
    step_passes_over (by decide +kernel) (by decide +kernel) (by decide +kernel) hfetch hlacks
      (by decide +kernel)
  exact ⟨returnMachine, h₀, hfetch, hpassed, hpassed.pc.trans (by decide +kernel),
    by decide +kernel⟩

end Machine

end InvariantMachine

import Mathlib
import InvariantMachine.Proofs.Bounds
import InvariantMachine.Proofs.ForwardPrograms
import InvariantMachine.Proofs.Underflow

/-!
# Effects of a step

Every part of a machine has the few opcodes that change it: the memory has the store, the registers
have the move, the output has the print, the complexity has the commit, and the straight line is
left for the transfers of control alone. What a step did not decode it has not done, however the
step ends.
-/

namespace InvariantMachine

/-! ### Registers and output under one instruction -/

namespace Store

/-- The registers of a later store are those of an earlier one, but for the destination of a
move. -/
def RegistersKept (s : Store) (i : Instruction) (s' : Store) : Prop :=
  s'.registers = s.registers ∨ (i.opcode = .mov ∧ ∃ index v, i.register = some index ∧
    s'.registers = s.registers.setIfInBounds index.toNat v)

/-- The output of a later store is that of an earlier one, but for the text that a print adds at
its end. -/
def OutputKept (s : Store) (i : Instruction) (s' : Store) : Prop :=
  s'.output = s.output ∨ (i.opcode = .print ∧ ∃ text, s'.output = s.output ++ text)

end Store

namespace Effect

variable {ctx : Context} {s : Store} {i : Instruction}

/-- What a success of an instruction leaves of the registers and of the output. -/
def Retains (s : Store) (i : Instruction) (e : Effect) : Prop :=
  e.Meets (fun s' _ => s.RegistersKept i s' ∧ s.OutputKept i s') fun _ => True

theorem retains_ok {s' : Store} {flow : Flow} (hregisters : s'.registers = s.registers)
    (houtput : s'.output = s.output) : Retains s i (.ok (s', flow)) :=
  ⟨.inl hregisters, .inl houtput⟩

theorem retains_underflow (required : Nat) : (underflow ctx s required).Retains s i := by
  apply meets_underflow
  · exact fun _ => ⟨.inl rfl, .inl rfl⟩
  · exact fun _ => trivial

theorem retains_withOne {next : Value → BoundedStack Value → Effect}
    (h : ∀ v rest, (next v rest).Retains s i) : (withOne ctx s next).Retains s i :=
  meets_withOne (fun _ => retains_underflow 1) fun v rest _ _ => h v rest

theorem retains_withTwo {next : Value → Value → BoundedStack Value → Effect}
    (h : ∀ a b rest, (next a b rest).Retains s i) : (withTwo ctx s next).Retains s i :=
  meets_withTwo (fun _ => retains_underflow 2) fun a b rest _ _ => h a b rest

theorem retains_setRegister (hop : i.opcode = .mov)
    (hvalid : Instruction.isRegister (i.register.getD noRegister)) (v : Value)
    (stack : BoundedStack Value) :
    Retains s i (.ok ({ s.setRegister (i.register.getD noRegister) v with stack }, .next)) := by
  cases hregister : i.register with
  | none =>
    rw [hregister] at hvalid
    contradiction
  | some index =>
    constructor
    · right
      exact ⟨hop, index, v, hregister, rfl⟩
    · left
      rfl

theorem retains_move (hop : i.opcode = .mov) :
    (s.move ctx (i.register.getD noRegister) i.operand).Retains s i := by
  unfold Store.move
  split
  · rename_i hvalid
    split
    · split
      · rename_i v rest _
        exact retains_setRegister hop hvalid v rest
      · exact retains_underflow 1
    · split
      · trivial
      · rename_i v _
        exact retains_setRegister hop hvalid v s.stack
  · trivial

theorem retains_branch (onZero : Bool) (hop : i.opcode = if onZero then .zjmp else .nzjmp) :
    (execute ctx s i).Retains s i := by
  rw [execute_branch onZero hop]
  apply retains_withOne
  exact fun v rest => retains_ok rfl rfl

end Effect

open Effect

theorem execute_retains {ctx : Context} {s : Store} {i : Instruction} :
    (execute ctx s i).Retains s i := by
  by_cases h : i.opcode.onlyStack
  · apply (execute_stackOnly h).imp
    · rintro _ _ ⟨⟨t, rfl⟩, rfl⟩
      exact ⟨.inl rfl, .inl rfl⟩
    · exact fun _ _ => trivial
  · -- Only the instructions that do more than change the stack are left.
    cases hop : i.opcode <;> rw [hop] at h <;> try exact absurd rfl h
    case halt | jmp =>
      rw [execute_of_none hop rfl, perform, hop]
      exact retains_ok rfl rfl
    case mov =>
      rw [execute_of_none hop rfl, perform, hop]
      exact retains_move hop
    case print =>
      rw [execute_print hop]
      apply retains_withOne
      intro v rest
      split
      · trivial
      · rename_i text _
        constructor
        · left
          rfl
        · right
          exact ⟨hop, text, rfl⟩
    case zjmp => exact retains_branch true hop
    case nzjmp => exact retains_branch false hop
    case ret =>
      rw [execute_ret hop]
      apply retains_withOne
      exact fun v rest => retains_ok rfl rfl
    case store =>
      rw [execute_store hop]
      apply retains_withTwo
      intro v address rest
      split
      · trivial
      · exact retains_ok rfl rfl
    case call =>
      rw [execute_of_none hop rfl, perform, hop]
      apply meets_call
      · intro t _ _
        exact ⟨.inl rfl, .inl rfl⟩
      · exact fun _ => trivial

/-! ### What a step fetched and how it ended -/

namespace Fetched

/-- The number of bytes that were fetched. -/
def width : Fetched → Nat
  | instruction i _ => i.imageSize
  | unknown _ => 1

end Fetched

theorem Memory.after_of_fetch {memory : Memory} {address : Nat} {fetched : Fetched}
    (h : memory.fetch address = .ok fetched) : fetched.after = address + fetched.width := by
  cases fetched with
  | instruction i after => exact (fetch_eq_instruction h).2
  | unknown after =>
    unfold fetch at h
    split at h
    · contradiction
    · split at h
      · cases h
        rfl
      · split at h <;> cases h

namespace Registration

theorem basins_retire (r : Registration) (opcode? : Option Opcode) :
    (r.retire opcode?).basins = r.basins := by
  unfold retire
  split <;> rfl

theorem complexity_retire (r : Registration) {opcode? : Option Opcode}
    (h : opcode? ≠ some .regCommit) : (r.retire opcode?).complexity = r.complexity := by
  rw [retire, if_neg h]
  rfl

end Registration

namespace Machine

variable {m m' : Machine} {fetched : Fetched}

@[simp] theorem registration_retired (fetched : Fetched) (store : Store) (flow : Flow) :
    (m.retired fetched store flow).registration = m.registration.retire fetched.opcode? := by
  cases flow <;> rfl

/-- What a step fetches and decodes. It gets to nothing where the machine does not run, where an
edit is rejected, and where the fetch fails. -/
def fetched? (m : Machine) : Option Fetched :=
  if m.isRunning ∧ m.editViolation? = none then (m.store.memory.fetch m.pc).toOption else none

/-- An instruction is the one that a step decodes. -/
def Decodes (m : Machine) (i : Instruction) : Prop :=
  ∃ after, m.fetched? = some (.instruction i after)

theorem fetched?_eq_some_iff :
    m.fetched? = some fetched ↔
      m.status = .running ∧ m.editViolation? = none ∧ m.store.memory.fetch m.pc = .ok fetched := by
  rw [fetched?, Option.ite_none_right_eq_some, isRunning_iff, and_assoc]
  cases m.store.memory.fetch m.pc <;> simp [Except.toOption]

theorem running_of_fetched? (h : m.fetched? = some fetched) : m.status = .running :=
  (fetched?_eq_some_iff.mp h).1

theorem after_of_fetched? (h : m.fetched? = some fetched) :
    fetched.after = m.pc + fetched.width :=
  Memory.after_of_fetch (fetched?_eq_some_iff.mp h).2.2

/-- The ways a step ends, by what it fetched. -/
inductive StepEnd (m : Machine) : Machine → Prop
  | halted (status : m.status ≠ .running) : StepEnd m m
  | unfetched (status : m.status = .running) (recheck : Bool) (cycles : Nat)
      (violation : Violation) : StepEnd m ({ m with recheck, cycles }.fail violation)
  | failed {fetched : Fetched} {failure : Failure} (fetch : m.fetched? = some fetched)
      (effect : m.effect fetched = .error failure) :
      StepEnd m (m.begun.failedWith failure)
  | retired {fetched : Fetched} {store : Store} {flow : Flow} (fetch : m.fetched? = some fetched)
      (effect : m.effect fetched = .ok (store, flow)) :
      StepEnd m (m.begun.retired fetched store flow).checked

theorem step_ends (m : Machine) : StepEnd m m.step := by
  by_cases hrun : m.status = .running
  · cases hedit : m.editViolation? with
    | some violation =>
      rw [step_of_rejected hrun hedit]
      exact .unfetched hrun false m.cycles violation
    | none =>
      rw [step_of_accepted hrun hedit]
      have hends := m.begun.cycle_ends
      generalize m.begun.cycle = after at hends ⊢
      cases hends with
      | @unfetched violation hfetch => exact .unfetched hrun false (m.cycles + 1) violation
      | failed hfetch heffect =>
        exact .failed (fetched?_eq_some_iff.mpr ⟨hrun, hedit, hfetch⟩) heffect
      | retired hfetch heffect =>
        exact .retired (fetched?_eq_some_iff.mpr ⟨hrun, hedit, hfetch⟩) heffect
  · rw [step_of_not_running hrun]
    exact .halted hrun

/-! ### Confinement -/

/-- In all but the stack and the counts, two machines differ by what the instruction that the first
one decodes may change. -/
structure Confined (m m' : Machine) : Prop where
  memory : m'.store.memory = m.store.memory ∨
    ∃ i, m.Decodes i ∧ i.opcode = .store ∧ ∃ address b,
      m'.store.memory.bytes.toList = m.store.memory.bytes.toList.set address b
  registers : m'.store.registers = m.store.registers ∨
    ∃ i, m.Decodes i ∧ i.opcode = .mov ∧ ∃ index v, i.register = some index ∧
      m'.store.registers = m.store.registers.setIfInBounds index.toNat v
  output : m'.store.output = m.store.output ∨
    ∃ i, m.Decodes i ∧ i.opcode = .print ∧ ∃ text, m'.store.output = m.store.output ++ text
  complexity : m'.registration.complexity = m.registration.complexity ∨
    ∃ i, m.Decodes i ∧ i.opcode = .regCommit
  basins : m'.registration.basins = m.registration.basins
  pc : m.status = .running → m'.status ≠ .haltedViolation →
    ∃ fetched, m.fetched? = some fetched ∧ (m'.pc = m.pc + fetched.width ∨
      ∃ i, m.Decodes i ∧ i.opcode ∈ [.jmp, .zjmp, .nzjmp, .call, .ret])
  halted : m'.status = .haltedNominal →
    m.status = .haltedNominal ∨ ∃ i, m.Decodes i ∧ i.opcode = .halt
  stopped : m.status ≠ .running → m' = m

theorem confined_of_halted (h : m.status ≠ .running) : m.Confined m where
  memory := .inl rfl
  registers := .inl rfl
  output := .inl rfl
  complexity := .inl rfl
  basins := rfl
  pc hrun _ := absurd hrun h
  halted hhalted := .inl hhalted
  stopped _ := rfl

theorem confined_fail {violation : Violation} (hrun : m.status = .running)
    (hmemory : m'.store.memory = m.store.memory)
    (hregisters : m'.store.registers = m.store.registers)
    (houtput : m'.store.output = m.store.output)
    (hregistration : m'.registration = m.registration) : m.Confined (m'.fail violation) where
  memory := .inl hmemory
  registers := .inl hregisters
  output := .inl houtput
  complexity := .inl (congrArg Registration.complexity hregistration)
  basins := congrArg Registration.basins hregistration
  pc _ hne := absurd rfl hne
  halted hhalted := Status.noConfusion hhalted
  stopped hne := absurd hrun hne

/-- The verification at the end of a step changes nothing of what an instruction may change. -/
theorem Confined.of_checkEnd {m'' : Machine} (h : m.Confined m') (hrun : m.status = .running)
    (hcheck : CheckEnd m' m'') : m.Confined m'' := by
  cases hcheck with
  | rejected _ =>
    exact { h with
      pc := fun _ hne => absurd rfl hne
      halted := fun hhalted => Status.noConfusion hhalted
      stopped := fun hne => absurd hrun hne }
  | accepted _ _ => exact { h with stopped := fun hne => absurd hrun hne }

/-- Control that an instruction does not leave on the straight line was transferred. -/
theorem destination_eq_or_mem {s : Store} {i : Instruction} {flow : Flow}
    (h : flow.Justified s i) (after : Nat) :
    flow.destination after = after ∨ i.opcode ∈ [.jmp, .zjmp, .nzjmp, .call, .ret] := by
  cases flow with
  | next | halt => exact .inl rfl
  | goto address =>
    right
    rcases h with ⟨htakes, -⟩ | ⟨hret, -⟩
    · generalize i.opcode = op at htakes ⊢
      cases op <;> first | contradiction | decide
    · simp [hret]

theorem confined_retired_instruction {i : Instruction} {after : Nat} {store : Store} {flow : Flow}
    (hfetch : m.fetched? = some (.instruction i after))
    (heffect : m.effect (.instruction i after) = .ok (store, flow)) :
    m.Confined (m.begun.retired (.instruction i after) store flow) := by
  have hrun : m.status = .running := running_of_fetched? hfetch
  have hdecodes : m.Decodes i := ⟨after, hfetch⟩
  obtain ⟨hflow, hmemory⟩ := execute_framed.of_ok heffect
  obtain ⟨hregisters, houtput⟩ := execute_retains.of_ok heffect
  constructor
  case memory =>
    rw [store_retired]
    rcases hmemory with hsame | ⟨hop, address, v, -, -, hwrite⟩
    · exact .inl hsame
    · exact .inr ⟨i, hdecodes, hop, _, _, Memory.write_eq_ok hwrite⟩
  case registers =>
    rw [store_retired]
    rcases hregisters with hsame | ⟨hop, hmoved⟩
    · exact .inl hsame
    · exact .inr ⟨i, hdecodes, hop, hmoved⟩
  case output =>
    rw [store_retired]
    rcases houtput with hsame | ⟨hop, hprinted⟩
    · exact .inl hsame
    · exact .inr ⟨i, hdecodes, hop, hprinted⟩
  case complexity =>
    rw [registration_retired]
    by_cases hop : i.opcode = .regCommit
    · exact .inr ⟨i, hdecodes, hop⟩
    · left
      apply Registration.complexity_retire
      exact mt Option.some.inj hop
  case basins =>
    rw [registration_retired]
    exact Registration.basins_retire m.registration (some i.opcode)
  case pc =>
    intro _ _
    refine ⟨_, hfetch, ?_⟩
    rw [pc_retired]
    rcases destination_eq_or_mem hflow after with hnext | htransfer
    · exact .inl (hnext.trans (after_of_fetched? hfetch))
    · exact .inr ⟨i, hdecodes, htransfer⟩
  case halted =>
    intro hhalted
    cases flow with
    | next | goto _ =>
      left
      exact hhalted
    | halt =>
      right
      exact ⟨i, hdecodes, hflow⟩
  case stopped => exact fun hne => absurd hrun hne

theorem confined_retired_unknown {after : Nat} (hfetch : m.fetched? = some (.unknown after)) :
    m.Confined (m.begun.retired (.unknown after) m.store .next) where
  memory := .inl rfl
  registers := .inl rfl
  output := .inl rfl
  complexity := .inl (Registration.complexity_retire _ nofun)
  basins := Registration.basins_retire _ _
  pc _ _ := ⟨_, hfetch, .inl (after_of_fetched? hfetch)⟩
  halted hhalted := .inl hhalted
  stopped hne := absurd (running_of_fetched? hfetch) hne

/-- Every step of every machine keeps the configuration, the strings, the basins, the size of the
memory and the capacity of the stack. It changes one byte of the memory at most, under a store; one
register at most, the destination of a move; the output by a text at its end, under a print; and the
complexity under a commit. It goes on behind what it fetched, but for a jump, a call or a return, if
it ends without a violation, and it comes to a nominal halt under a halt alone. -/
theorem step_confined (m : Machine) : m.Keeps m.step ∧ m.Confined m.step := by
  refine ⟨(step_keeps m).1, ?_⟩
  have hends := m.step_ends
  generalize m.step = after at hends ⊢
  cases hends with
  | halted hstatus => exact confined_of_halted hstatus
  | unfetched hrun _ _ _ => exact confined_fail hrun rfl rfl rfl rfl
  | @failed fetched failure hfetch heffect =>
    -- The failure says what it leaves, and that is all but the stack.
    have honly := onStack_of_effect heffect
    exact confined_fail (running_of_fetched? hfetch) honly.memory_eq honly.registers_eq
      honly.output_eq honly.registration_eq
  | @retired fetched store flow hfetch heffect =>
    have hrun := running_of_fetched? hfetch
    cases fetched with
    | instruction i after =>
      exact (confined_retired_instruction hfetch heffect).of_checkEnd hrun (check_ends _)
    | unknown after =>
      cases heffect
      exact (confined_retired_unknown hfetch).of_checkEnd hrun (check_ends _)

end Machine

end InvariantMachine

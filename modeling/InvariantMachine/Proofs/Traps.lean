import Mathlib
import InvariantMachine.Proofs.Fetch
import InvariantMachine.Proofs.Frame
import InvariantMachine.Proofs.PoolReferences
import InvariantMachine.Proofs.Steps

/-!
# The traps that a checked program leaves

A program without stores and returns never changes its code and never leaves its instructions, the
end of the code and the address of an unresolved target. So what was checked of its instructions
when it was built holds of every instruction that it carries out, and few violations are left that
it can halt on.
-/

namespace InvariantMachine

namespace Program

variable {p : Program} {i : Instruction} {a j : Nat}

/-- An address that control of a program can reach by falling through and by targets. -/
def Boundary (p : Program) (a : Nat) : Prop :=
  (∃ j ≤ p.size, a = p.offset j) ∨ a = unresolvedTarget

theorem boundary_offset (h : j ≤ p.size) : p.Boundary (p.offset j) := .inl ⟨j, h, rfl⟩

theorem boundary_resolve (p : Program) (t : Int) : p.Boundary (p.resolve t) := by
  by_cases h : 0 ≤ t ∧ t ≤ p.size
  · rw [resolve_of_le h.1 h.2]
    exact boundary_offset (by omega)
  · exact .inr (resolve_of_not_le h)

theorem boundary_start (p : Program) : p.Boundary p.start := by
  unfold start
  split
  · exact p.boundary_resolve _
  · exact boundary_offset (Nat.zero_le p.size)

/-- What was checked of an instruction still holds of it where control finds it. -/
structure Fitting (p : Program) (i : Instruction) : Prop where
  wellFormed : i.WellFormed
  resolved : i.dangling? p.strings = none
  not_store : i.opcode ≠ .store
  not_ret : i.opcode ≠ .ret
  target : i.opcode.takesAddress → p.Boundary i.operand.target

theorem fitting_halt (p : Program) : p.Fitting (.bare .halt) :=
  ⟨.bare rfl, rfl, by decide, by decide, fun h => by contradiction⟩

theorem fitting_placed (hi : p.instructions[j]? = some i) (hstore : i.opcode ≠ .store)
    (hret : i.opcode ≠ .ret) : p.Fitting (p.placed i) := by
  have hmem := Array.mem_of_getElem? hi
  have hwell := wellFormed_of_mem hmem
  cases htakes : i.opcode.takesAddress with
  | false =>
    rw [placed_of_not_takesAddress htakes]
    refine ⟨hwell, p.resolved i hmem, hstore, hret, fun h => ?_⟩
    rw [htakes] at h
    contradiction
  | true =>
    obtain ⟨op, t, rfl⟩ := hwell.exists_target htakes
    rw [Instruction.opcode_withOperand] at htakes
    have hplaced := placed_target (t := t) p htakes
    refine ⟨?_, ?_, hstore, hret, fun _ => ?_⟩
    · rw [hplaced]
      exact .target _ (Instruction.shape_of_takesAddress htakes)
    · rw [hplaced]
      rfl
    · rw [target_placed p htakes]
      exact p.boundary_resolve t.toInt

/-- What control finds at an address of the program: nothing, behind the memory, or an instruction
that fits, and behind this, unless it halts, another such address. -/
theorem fetch_boundary (hp : ∀ i ∈ p.instructions, i.opcode ≠ .store ∧ i.opcode ≠ .ret)
    {size : Nat} (hfit : p.image.length ≤ size) (ha : p.Boundary a) :
    ((Memory.ofImage p.image size).fetch a = .error (.pcOutOfBounds a) ∧
      (a = unresolvedTarget ∨ (a = p.image.length ∧ p.image.length = size))) ∨
    ∃ i after, (Memory.ofImage p.image size).fetch a = .ok (.instruction i after) ∧
      p.Fitting i ∧ (i.opcode ≠ .halt → p.Boundary after) := by
  -- Every byte behind the code is zero, so control that gets there finds a halt.
  have hbehind (hle : p.image.length ≤ a) :
      (size ≤ a ∧ (Memory.ofImage p.image size).fetch a = .error (.pcOutOfBounds a)) ∨
        ∃ i after, (Memory.ofImage p.image size).fetch a = .ok (.instruction i after) ∧
          p.Fitting i ∧ (i.opcode ≠ .halt → p.Boundary after) := by
    apply (Memory.fetch_behind hfit hle).imp_right
    intro hhalt
    exact ⟨_, _, hhalt, p.fitting_halt, fun h => absurd rfl h⟩
  rcases ha with ⟨j, hj, rfl⟩ | rfl
  · rcases Nat.lt_or_eq_of_le hj with hlt | rfl
    · have hi : p.instructions[j]? = some p.instructions[j] := Array.getElem?_eq_getElem hlt
      obtain ⟨hstore, hret⟩ := hp _ (Array.mem_of_getElem? hi)
      exact .inr ⟨_, _, Memory.fetch_offset (Memory.image_isPrefix_ofImage _ _) hi,
        fitting_placed hi hstore hret, fun _ => boundary_offset hlt⟩
    · rw [← p.image_length] at *
      apply (hbehind le_rfl).imp_left
      rintro ⟨hge, hnone⟩
      exact ⟨hnone, .inr ⟨rfl, hfit.antisymm hge⟩⟩
  · apply (hbehind p.image_length_le_unresolvedTarget).imp_left
    rintro ⟨-, hnone⟩
    exact ⟨hnone, .inl rfl⟩

end Program

/-- What a violation is due to in the machine whose step found it. -/
def Violation.DueTo (p : Program) (m : Machine) : Violation → Prop
  | .registerOutOfBounds _ => False
  | .invalidOperand _ _ => ∃ i v, m.current? = some i ∧ i.opcode = .strlen ∧
      m.top? = some v ∧ ∀ index, v ≠ .str index
  | .stringOutOfBounds _ => ∃ i, m.current? = some i ∧ i.opcode = .getStr
  | .memoryOutOfBounds _ => ∃ i, m.current? = some i ∧ i.opcode = .load
  | .pcOutOfBounds pc => pc = m.pc ∧
      (pc = unresolvedTarget ∨ (pc = p.image.length ∧ p.image.length = m.config.memorySize))
  | _ => True

namespace Violation

variable {p : Program} {m : Machine} {violation : Violation}

theorem dueTo_of_kind (h : violation.kind = .invariant) : violation.DueTo p m := by
  cases violation <;> trivial

theorem Excused.dueTo {i : Instruction} (h : violation.Excused m.store i)
    (hi : m.current? = some i) : violation.DueTo p m := by
  cases violation with
  | invalidOperand _ _ =>
    obtain ⟨hop, v, htop, hv⟩ := h
    exact ⟨i, v, hi, hop, htop, hv⟩
  | stringOutOfBounds _ => exact ⟨i, hi, h⟩
  | memoryOutOfBounds _ => exact ⟨i, hi, h⟩
  | registerOutOfBounds _ => exact h.elim
  | pcOutOfBounds _ => exact h.elim
  | stackOverflow _ | stackUnderflow _ _ | divisionByZero | nativeCallUnsupported _
  | simplexBroken _ | efficiencyExceeded _ _ | complexityBomb _ _ => trivial

end Violation

namespace Machine

variable {p : Program} {config : Config} {m m' : Machine}

/-- What a machine keeps that runs a program without stores and returns. -/
structure Sound (p : Program) (config : Config) (m : Machine) : Prop where
  config_eq : m.config = config
  strings_eq : m.strings = p.strings
  recheck_eq : m.recheck = false
  memory_eq : m.store.memory = .ofImage p.image config.memorySize
  typed : m.store.Typed p.strings
  pc : m.status = .running → p.Boundary m.pc

theorem sound_initial (p : Program) (config : Config) : (initial p config).Sound p config := by
  refine ⟨rfl, rfl, rfl, rfl, ⟨fun v h => by contradiction, fun v h => ?_⟩,
    fun _ => p.boundary_start⟩
  obtain rfl := Vector.eq_of_mem_replicate h
  trivial

theorem Sound.fail (hm : m.Sound p config) (violation : Violation) :
    (m.fail violation).Sound p config :=
  ⟨hm.config_eq, hm.strings_eq, hm.recheck_eq, hm.memory_eq, hm.typed, fun h => by contradiction⟩

theorem Sound.of_checkEnd (hm : m.Sound p config) (h : CheckEnd m m') : m'.Sound p config := by
  cases h with
  | rejected _ => exact hm.fail _
  | accepted _ _ =>
    exact ⟨hm.config_eq, hm.strings_eq, hm.recheck_eq, hm.memory_eq, hm.typed, hm.pc⟩

theorem Sound.effect_safe (hm : m.Sound p config) {i : Instruction} (hi : p.Fitting i)
    (after : Nat) : (m.effect (.instruction i after)).Safe p.strings m.store i := by
  have htyped := hm.typed
  have hresolved := hi.resolved
  rw [← hm.strings_eq] at htyped hresolved ⊢
  exact execute_safe htyped hi.wellFormed hresolved hi.not_store fun _ =>
    Verifier.enforce_error_kind

theorem Sound.retired (hm : m.Sound p config) {i : Instruction} {after : Nat} {store : Store}
    {flow : Flow} (hi : p.Fitting i) (hafter : i.opcode ≠ .halt → p.Boundary after)
    (he : m.effect (.instruction i after) = .ok (store, flow)) :
    (m.retired (.instruction i after) store flow).Sound p config := by
  have htyped := (hm.effect_safe hi after).of_ok he
  obtain ⟨hflow, hkept⟩ : flow.Justified m.store i ∧ m.store.MemoryKept i store :=
    execute_framed.of_ok he
  have hmemory : store.memory = m.store.memory := hkept.resolve_right fun h => hi.not_store h.1
  refine ⟨?_, ?_, ?_, ?_, ?_, ?_⟩
  · exact (m.config_proceed store after flow).trans hm.config_eq
  · exact (m.strings_proceed store after flow).trans hm.strings_eq
  · exact (m.recheck_proceed store after flow).trans hm.recheck_eq
  · rw [store_retired, hmemory, hm.memory_eq]
  · rw [store_retired]
    exact htyped
  · intro hrun
    cases flow with
    | halt => contradiction
    | next =>
      apply hafter
      intro hop
      have hhalt : m.effect (.instruction i after) = .ok (m.store, .halt) := by
        rw [Machine.effect, execute_of_none hop rfl, perform, hop]
      rw [hhalt] at he
      cases congrArg Prod.snd (Except.ok.inj he)
    | goto a =>
      rcases hflow with ⟨htakes, rfl⟩ | ⟨hop, -⟩
      · exact hi.target htakes
      · exact absurd hop hi.not_ret

/-- A cycle keeps a machine sound, and what it halts on is due to what it carried out. -/
theorem Sound.of_cycleEnd (hp : ∀ i ∈ p.instructions, i.opcode ≠ .store ∧ i.opcode ≠ .ret)
    (hfit : p.image.length ≤ config.memorySize) (hm : m.Sound p config)
    (hrun : m.status = .running) (h : CycleEnd m m') :
    m'.Sound p config ∧ (m'.status = .haltedViolation →
      ∃ violation, m'.violation = some violation ∧ violation.DueTo p m) := by
  have hfetch := Program.fetch_boundary hp hfit (hm.pc hrun)
  rw [← hm.memory_eq] at hfetch
  cases h with
  | @unfetched violation hnone =>
    refine ⟨hm.fail violation, fun _ => ⟨violation, rfl, ?_⟩⟩
    rcases hfetch with ⟨herror, hwhere⟩ | ⟨i, after, hok, -, -⟩
    · rw [herror] at hnone
      cases hnone
      rw [← hm.config_eq] at hwhere
      exact ⟨rfl, hwhere⟩
    · rw [hok] at hnone
      cases hnone
  | @failed fetched failure hsome heffect =>
    rcases hfetch with ⟨herror, -⟩ | ⟨i, after, hok, hi, -⟩
    · rw [herror] at hsome
      cases hsome
    · rw [hok] at hsome
      cases hsome
      obtain ⟨hexcused, htyped⟩ := (hm.effect_safe hi after).of_error heffect
      refine ⟨?_, fun _ => ⟨failure.violation, rfl, ?_⟩⟩
      · have hmemory := (onStack_of_effect heffect).memory_eq
        exact ⟨hm.config_eq, hm.strings_eq, hm.recheck_eq, hmemory.trans hm.memory_eq, htyped,
          fun h => by contradiction⟩
      · exact hexcused.dueTo (current?_eq_some hrun hok)
  | @retired fetched store flow hsome heffect =>
    rcases hfetch with ⟨herror, -⟩ | ⟨i, after, hok, hi, hafter⟩
    · rw [herror] at hsome
      cases hsome
    · rw [hok] at hsome
      cases hsome
      have hcheck := check_ends (m.retired (.instruction i after) store flow)
      refine ⟨(hm.retired hi hafter heffect).of_checkEnd hcheck, fun hhalted => ?_⟩
      obtain ⟨violation, hviolation, hkind⟩ :=
        hcheck.kind (status_retired hrun _ store flow) hhalted
      exact ⟨violation, hviolation, Violation.dueTo_of_kind hkind⟩

theorem Sound.step (hp : ∀ i ∈ p.instructions, i.opcode ≠ .store ∧ i.opcode ≠ .ret)
    (hfit : p.image.length ≤ config.memorySize) (hm : m.Sound p config)
    (hrun : m.status = .running) :
    m.step.Sound p config ∧ (m.step.status = .haltedViolation →
      ∃ violation, m.step.violation = some violation ∧ violation.DueTo p m) := by
  have hbegun : m.begun.Sound p config :=
    ⟨hm.config_eq, hm.strings_eq, rfl, hm.memory_eq, hm.typed, hm.pc⟩
  rw [step_of_not_recheck hrun hm.recheck_eq]
  obtain ⟨hsound, hdue⟩ := hbegun.of_cycleEnd hp hfit hrun m.begun.cycle_ends
  exact ⟨hsound, hdue⟩

/-- A run keeps a machine sound, and a halt on a violation goes back to the step that found it. -/
theorem Sound.steps (hp : ∀ i ∈ p.instructions, i.opcode ≠ .store ∧ i.opcode ≠ .ret)
    (hfit : p.image.length ≤ config.memorySize) (hm : m.Sound p config)
    (hrun : m.status = .running) (n : Nat) :
    (m.steps n).Sound p config ∧ ((m.steps n).status = .haltedViolation →
      ∃ k < n, (m.steps k).status = .running ∧ m.steps (k + 1) = m.steps n ∧
        ∃ violation, (m.steps n).violation = some violation ∧
          violation.DueTo p (m.steps k)) := by
  induction n with
  | zero =>
    refine ⟨hm, fun h => ?_⟩
    rw [Machine.steps, hrun] at h
    contradiction
  | succ n ih =>
    obtain ⟨hsound, hdue⟩ := ih
    by_cases hlast : (m.steps n).status = .running
    · obtain ⟨hstep, hviolation⟩ := hsound.step hp hfit hlast
      exact ⟨hstep, fun h => ⟨n, Nat.lt_succ_self n, hlast, rfl, hviolation h⟩⟩
    · have hsame : m.steps (n + 1) = m.steps n := step_of_not_running hlast
      rw [hsame]
      refine ⟨hsound, fun h => ?_⟩
      obtain ⟨k, hk, hfault⟩ := hdue h
      exact ⟨k, hk.trans (Nat.lt_succ_self n), hfault⟩

/-- A program without stores and returns, run from its start without a host's edits, keeps its
strings within the pool and its image as it was loaded. It never halts on a register, and on an
operand only where `strlen` met no string, on a string only at `getStr`, on a memory access only
at `load`, and on its program counter only at the address of an unresolved target or at the end of
an image that fills the memory. -/
theorem violations_without_store_and_ret (h₀ : ofProgram p config = .ok m)
    (hp : ∀ i ∈ p.instructions, i.opcode ≠ .store ∧ i.opcode ≠ .ret) (n : Nat) :
    (∀ v ∈ (m.steps n).store.stack.items, v.InPool p.strings) ∧
    (∀ v ∈ (m.steps n).store.registers, v.InPool p.strings) ∧
    p.image <+: (m.steps n).store.memory.bytes.toList ∧
    ((m.steps n).status = .haltedViolation →
      ∃ k < n, (m.steps k).status = .running ∧ m.steps (k + 1) = m.steps n ∧
        ∃ violation, (m.steps n).violation = some violation ∧
          violation.DueTo p (m.steps k)) := by
  obtain ⟨hfit, rfl⟩ := ofProgram_eq_ok h₀
  obtain ⟨hsound, hdue⟩ := (sound_initial p config).steps hp hfit rfl n
  refine ⟨hsound.typed.stack, hsound.typed.registers, ?_, hdue⟩
  rw [hsound.memory_eq]
  exact Memory.image_isPrefix_ofImage p.image config.memorySize

private def lengthOfInteger : Program :=
  ⟨#[.withOperand .push (.int 1), .bare .strlen], .empty, ⟨0, false⟩,
    by decide, by decide, by decide⟩

theorem violations_without_store_and_ret_lengthOfInteger :
    ∃ m, ofProgram lengthOfInteger { Config.standard with memorySize := 11 } = .ok m ∧
      (∀ i ∈ lengthOfInteger.instructions, i.opcode ≠ .store ∧ i.opcode ≠ .ret) ∧
      (m.steps 2).violation = some (.invalidOperand 1 10) ∧
      ∃ k < 2, (m.steps k).status = .running ∧ m.steps (k + 1) = m.steps 2 ∧
        (Violation.invalidOperand 1 10).DueTo lengthOfInteger (m.steps k) := by
  have h₀ := @ofProgram_of_le lengthOfInteger { Config.standard with memorySize := 11 } (by decide)
  have hp : ∀ i ∈ lengthOfInteger.instructions, i.opcode ≠ .store ∧ i.opcode ≠ .ret := by decide
  have hlast : ((initial lengthOfInteger { Config.standard with memorySize := 11 }).steps
      2).violation = some (.invalidOperand 1 10) := by decide +kernel
  obtain ⟨k, hk, hrun, hstep, violation, hviolation, hdue⟩ :=
    (violations_without_store_and_ret h₀ hp 2).2.2.2 (by decide +kernel)
  obtain rfl : violation = _ := Option.some.inj (hviolation.symm.trans hlast)
  exact ⟨_, h₀, hp, hlast, k, hk, hrun, hstep, hdue⟩

end Machine

end InvariantMachine

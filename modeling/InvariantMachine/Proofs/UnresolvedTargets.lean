import Mathlib
import InvariantMachine.Proofs.Bounds
import InvariantMachine.Proofs.ImageContents

/-!
# Targets that name nothing

A target that is the index neither of an instruction nor of the end of the code becomes an address
that no memory of less than four gibibytes has. A machine that goes there halts at its next fetch.
The end of the code is resolved like an instruction, and the zeros behind it halt without a
violation.
-/

namespace InvariantMachine

namespace Program

variable {p : Program} {i : Instruction}

def Unresolved (p : Program) (t : Int) : Prop := t < 0 ∨ p.size < t

theorem resolve_eq_unresolvedTarget_iff {t : Int} :
    p.resolve t = unresolvedTarget ↔ p.Unresolved t := by
  unfold Unresolved
  constructor
  · intro h
    by_contra hresolved
    have hle := p.offset_le t.toNat
    rw [resolve_of_le (by omega) (by omega), unresolvedTarget] at h
    omega
  · exact fun h => resolve_of_not_le (by omega)

theorem relocated_eq_unresolvedTarget_iff {t : Int64} (htakes : i.opcode.takesAddress)
    (ho : i.operand = .int t) :
    p.relocated i = .int (Int64.ofNat unresolvedTarget) ↔ p.Unresolved t.toInt := by
  have hrelocated : p.relocated i = .int (Int64.ofNat (p.resolve t.toInt)) := by
    rw [relocated, ho]
    exact if_pos htakes
  have htarget : (Int64.ofNat unresolvedTarget).toInt = (unresolvedTarget : Int) := by decide
  rw [hrelocated, Operand.int.injEq, ← Int64.toInt_inj, toInt_resolve, htarget, Nat.cast_inj,
    resolve_eq_unresolvedTarget_iff]

theorem start_eq_unresolvedTarget_iff :
    p.start = unresolvedTarget ↔ p.entry.declared ∧ p.size < p.entry.offset.toNat := by
  unfold start entryPoint?
  by_cases hdeclared : p.entry.declared
  · rw [if_pos hdeclared]
    refine resolve_eq_unresolvedTarget_iff.trans ?_
    unfold Unresolved
    constructor
    · exact fun h => ⟨hdeclared, by omega⟩
    · exact fun h => .inr (by omega)
  · rw [if_neg hdeclared]
    exact ⟨fun h => by contradiction, fun h => absurd h.1 hdeclared⟩

end Program

namespace Machine

variable {p : Program} {config : Config} {m : Machine}

/-- The next step carries out a jump or a call with this operand, and control goes to its target. -/
def Takes (m : Machine) (o : Operand) : Prop :=
  m.status = .running ∧ ∃ i after store,
    m.store.memory.fetch m.pc = .ok (.instruction i after) ∧ i.opcode.takesAddress ∧
      i.operand = o ∧ m.effect (.instruction i after) = .ok (store, .goto o.target)

theorem step_of_beyond (hrun : m.status = .running) (hrecheck : m.recheck = false)
    (hpc : m.store.memory.size ≤ m.pc) : m.step.HaltedOn (· = .pcOutOfBounds m.pc) := by
  rw [step_of_unfetched hrun hrecheck (Memory.fetch_of_size_le hpc)]
  exact haltedOn_fail rfl

/-- After a jump or a call that was taken, control is at its target and the machine runs on, unless
an invariant broke. -/
theorem Takes.step {o : Operand} (h : m.Takes o) (hrecheck : m.recheck = false) :
    m.step.pc = o.target ∧
      (m.step.status = .running ∨ m.step.HaltedOn (·.kind = .invariant)) := by
  obtain ⟨hrun, i, after, store, hfetch, -, -, heffect⟩ := h
  have hends := check_ends (m.begun.retired (.instruction i after) store (.goto o.target))
  rw [step_of_retired hrun hrecheck hfetch heffect]
  exact ⟨hends.pc_eq, hends.running_or_halted hrun⟩

/-- A machine beyond its memory never halts without a violation. -/
theorem status_steps_ne_of_beyond (hrun : m.status = .running) (hrecheck : m.recheck = false)
    (hpc : m.store.memory.size ≤ m.pc) (n : Nat) : (m.steps n).status ≠ .haltedNominal := by
  cases n with
  | zero =>
    rw [steps, hrun]
    decide
  | succ n =>
    rw [steps_succ]
    exact (step_of_beyond hrun hrecheck hpc).status_steps_ne n

theorem Takes.trapped {o : Operand} (h : m.Takes o) (hrecheck : m.recheck = false)
    (htarget : m.store.memory.size ≤ o.target) :
    m.step.pc = o.target ∧
      (m.step.HaltedOn (·.kind = .invariant) ∨
        m.step.step.HaltedOn (· = .pcOutOfBounds o.target)) ∧
      ∀ n, (m.steps n).status ≠ .haltedNominal := by
  obtain ⟨hpc, hend⟩ := h.step hrecheck
  have hbeyond : m.step.store.memory.size ≤ m.step.pc := by
    rw [(step_keeps m).1.memory_size, hpc]
    exact htarget
  have hrecheck' := recheck_step_eq_false hrecheck
  refine ⟨hpc, ?_, fun n => ?_⟩
  · refine hend.symm.imp_right fun hrun => ?_
    rw [← hpc]
    exact step_of_beyond hrun hrecheck' hbeyond
  · cases n with
    | zero =>
      rw [steps, h.1]
      decide
    | succ n =>
      rw [steps_succ]
      rcases hend with hrun | hhalted
      · exact status_steps_ne_of_beyond hrun hrecheck' hbeyond n
      · exact hhalted.status_steps_ne n

/-- The target of a jump or a call stands in the image as the unresolved address exactly when it is
the index neither of an instruction nor of the end of the code, and so does a declared entry point.
In a memory that ends below this address, a machine that starts there halts at once on its program
counter, and one that takes such a jump or call does so at its next step, unless the jump itself
broke an invariant. Neither ever halts without a violation. -/
theorem unresolved_targets_trap (h₀ : ofProgram p config = .ok m)
    (hmemory : config.memorySize ≤ unresolvedTarget) :
    (∀ j i t, p.instructions[j]? = some i → i.opcode.takesAddress → i.operand = .int t →
      m.store.memory.fetch (p.offset j) =
          .ok (.instruction { i with operand := p.relocated i } (p.offset (j + 1))) ∧
        (p.relocated i = .int (Int64.ofNat unresolvedTarget) ↔ p.Unresolved t.toInt)) ∧
    (p.start = unresolvedTarget ↔ p.entry.declared ∧ p.size < p.entry.offset.toNat) ∧
    (p.start = unresolvedTarget →
      (m.steps 1).HaltedOn (· = .pcOutOfBounds unresolvedTarget) ∧
        ∀ n, (m.steps n).status ≠ .haltedNominal) ∧
    ∀ k, (m.steps k).Takes (.int (Int64.ofNat unresolvedTarget)) →
      (m.steps (k + 1)).pc = unresolvedTarget ∧
        ((m.steps (k + 1)).HaltedOn (·.kind = .invariant) ∨
          (m.steps (k + 2)).HaltedOn (· = .pcOutOfBounds unresolvedTarget)) ∧
        ∀ n, (m.steps (k + n)).status ≠ .haltedNominal := by
  obtain ⟨hfit, rfl⟩ := ofProgram_eq_ok h₀
  have hsize : (initial p config).store.memory.size ≤ unresolvedTarget :=
    (Memory.size_ofImage hfit).trans_le hmemory
  refine ⟨?_, Program.start_eq_unresolvedTarget_iff, fun hstart => ?_, fun k htakes => ?_⟩
  · intro j i t hi htakes ho
    exact ⟨Memory.fetch_offset (Memory.image_isPrefix_ofImage p.image config.memorySize) hi,
      Program.relocated_eq_unresolvedTarget_iff htakes ho⟩
  · have hpc : (initial p config).pc = unresolvedTarget := hstart
    have hbeyond : (initial p config).store.memory.size ≤ (initial p config).pc := by
      rw [hpc]
      exact hsize
    refine ⟨?_, status_steps_ne_of_beyond rfl rfl hbeyond⟩
    rw [← hpc]
    exact step_of_beyond rfl rfl hbeyond
  · have htarget : (Operand.int (Int64.ofNat unresolvedTarget)).target = unresolvedTarget :=
      Operand.target_int_ofNat (by decide)
    obtain ⟨hpc, hend, hnominal⟩ := htakes.trapped (recheck_steps_eq_false rfl k) (by
      rw [((initial p config).steps_keep k).memory_size, htarget]
      exact hsize)
    rw [htarget] at hpc hend
    refine ⟨hpc, hend, fun n => ?_⟩
    rw [steps_add]
    exact hnominal n

private def jumpPastEnd : Program :=
  ⟨#[.withOperand .jmp (.int 2)], .empty, ⟨0, false⟩, by decide, by decide, by decide⟩

private def startPastEnd : Program :=
  ⟨#[.bare .nop], .empty, ⟨2, true⟩, by decide, by decide, by decide⟩

theorem unresolved_targets_trap_jumpPastEnd :
    (∃ m, ofProgram jumpPastEnd { Config.standard with memorySize := 16 } = .ok m ∧
      m.store.memory.fetch (jumpPastEnd.offset 0) =
        .ok (.instruction (.withOperand .jmp (.int 0xffffffff)) (jumpPastEnd.offset 1)) ∧
      (m.steps 1).pc = unresolvedTarget ∧
      (m.steps 2).HaltedOn (· = .pcOutOfBounds unresolvedTarget) ∧
      ∀ n, (m.steps n).status ≠ .haltedNominal) ∧
    ∃ m, ofProgram startPastEnd { Config.standard with memorySize := 16 } = .ok m ∧
      startPastEnd.start = unresolvedTarget ∧
      (m.steps 1).HaltedOn (· = .pcOutOfBounds unresolvedTarget) := by
  constructor
  · have h₀ := @ofProgram_of_le jumpPastEnd { Config.standard with memorySize := 16 } (by decide)
    obtain ⟨hlowered, -, -, htaken⟩ := unresolved_targets_trap h₀ (by decide)
    obtain ⟨hfetch, hunresolved⟩ := hlowered 0 (.withOperand .jmp (.int 2)) 2 rfl rfl rfl
    rw [hunresolved.mpr (.inr (by decide))] at hfetch
    obtain ⟨hpc, hend, hnominal⟩ := htaken 0 ⟨rfl, _, _, _, hfetch, rfl, rfl, rfl⟩
    refine ⟨_, h₀, hfetch, hpc, hend.resolve_left fun h => ?_, fun n => ?_⟩
    · exact absurd h.1 (by decide +kernel)
    · rw [← Nat.zero_add n]
      exact hnominal n
  · have h₀ := @ofProgram_of_le startPastEnd { Config.standard with memorySize := 16 } (by decide)
    obtain ⟨-, hstart, htrap, -⟩ := unresolved_targets_trap h₀ (by decide)
    have hunresolved := hstart.mpr ⟨rfl, by decide⟩
    exact ⟨_, h₀, hunresolved, (htrap hunresolved).1⟩

private def jumpToEnd : Program :=
  ⟨#[.withOperand .jmp (.int 1)], .empty, ⟨0, false⟩, by decide, by decide, by decide⟩

/-- A jump to the end of the code names no instruction and goes to the zeros behind the code. -/
theorem jump_to_end_halts_without_violation :
    jumpToEnd.instructions[0]? = some (.withOperand .jmp (.int 1)) ∧
    jumpToEnd.instructions[1]? = none ∧
    jumpToEnd.relocated (.withOperand .jmp (.int 1)) = .int 10 ∧
    ∃ m, ofProgram jumpToEnd { Config.standard with memorySize := 16 } = .ok m ∧
      (m.steps 1).pc = 10 ∧ (m.steps 2).status = .haltedNominal ∧
      (m.steps 2).violation = none :=
  ⟨rfl, rfl, by decide, _, ofProgram_of_le (by decide), by decide +kernel, by decide +kernel,
    by decide +kernel⟩

end Machine

end InvariantMachine

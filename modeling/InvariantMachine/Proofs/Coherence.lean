import Mathlib
import InvariantMachine.Proofs.Bounds

/-!
# What a machine records about itself

A machine has a violation on record exactly when it halted on one, and it has counted at most one
finding for every cycle. Steps and edits keep both, so every session does. A machine that halted
stays halted: what a host does to it later changes at most its registration state.
-/

namespace InvariantMachine

namespace Machine

variable {m m' : Machine} {violation : Violation}

/-- The record of a machine agrees with its status and its count of cycles. -/
structure Coherent (m : Machine) : Prop where
  violation_iff : m.violation.isSome ↔ m.status = .haltedViolation
  softFindings_le : m.softFindings ≤ m.cycles

@[simp] theorem cycles_retired (fetched : Fetched) (store : Store) (flow : Flow) :
    (m.retired fetched store flow).cycles = m.cycles := by
  cases flow <;> rfl

@[simp] theorem softFindings_retired (fetched : Fetched) (store : Store) (flow : Flow) :
    (m.retired fetched store flow).softFindings = m.softFindings := by
  cases flow <;> rfl

@[simp] theorem violation_retired (fetched : Fetched) (store : Store) (flow : Flow) :
    (m.retired fetched store flow).violation = m.violation :=
  m.violation_proceed store fetched.after flow

theorem checked_counts (m : Machine) :
    m.checked.cycles = m.cycles ∧ m.checked.softFindings ≤ m.softFindings + 1 := by
  unfold checked
  split
  · exact ⟨rfl, Nat.le_succ _⟩
  · exact ⟨rfl, le_rfl⟩
  · exact ⟨rfl, Nat.le_succ _⟩

theorem cycle_counts (m : Machine) :
    m.cycle.cycles = m.cycles ∧ m.cycle.softFindings ≤ m.softFindings + 1 := by
  cases hfetch : m.store.memory.fetch m.pc with
  | error violation =>
    rw [cycle_of_unfetched hfetch]
    exact ⟨rfl, Nat.le_succ _⟩
  | ok fetched =>
    cases heffect : m.effect fetched with
    | error failure =>
      rw [cycle_of_failed hfetch heffect]
      exact ⟨rfl, Nat.le_succ _⟩
    | ok result =>
      obtain ⟨store, flow⟩ := result
      rw [cycle_of_retired hfetch heffect]
      have hcounts := (m.retired fetched store flow).checked_counts
      rwa [cycles_retired, softFindings_retired] at hcounts

theorem violation_iff_fail :
    (m.fail violation).violation.isSome ↔ (m.fail violation).status = .haltedViolation :=
  ⟨fun _ => rfl, fun _ => rfl⟩

/-- A verification that fails overrides whatever the instruction made of the status, a halt too. -/
theorem CheckEnd.violation_iff (h : CheckEnd m m')
    (hm : m.violation.isSome ↔ m.status = .haltedViolation) :
    m'.violation.isSome ↔ m'.status = .haltedViolation := by
  cases h with
  | rejected _ => exact violation_iff_fail
  | accepted _ _ => exact hm

theorem CycleEnd.violation_iff (h : CycleEnd m m') (hrun : m.status = .running)
    (hnone : m.violation = none) : m'.violation.isSome ↔ m'.status = .haltedViolation := by
  cases h with
  | unfetched _ => exact violation_iff_fail
  | failed _ _ => exact violation_iff_fail
  | @retired fetched store flow _ _ =>
    refine (check_ends (m.retired fetched store flow)).violation_iff ?_
    rw [violation_retired, hnone]
    constructor
    · exact fun h => absurd h Bool.false_ne_true
    · exact fun h => absurd h (status_retired hrun fetched store flow)

theorem Coherent.step (h : m.Coherent) : m.step.Coherent := by
  by_cases hrun : m.status = .running
  · have hnone : m.violation = none := by
      have hsome : ¬m.violation.isSome := by
        rw [h.violation_iff, hrun]
        decide
      exact Option.not_isSome_iff_eq_none.mp hsome
    cases hedit : m.editViolation? with
    | some violation =>
      rw [step_of_rejected hrun hedit]
      exact ⟨violation_iff_fail, h.softFindings_le⟩
    | none =>
      rw [step_of_accepted hrun hedit]
      refine ⟨m.begun.cycle_ends.violation_iff hrun hnone, ?_⟩
      obtain ⟨hcycles, hfindings⟩ := m.begun.cycle_counts
      rw [hcycles]
      exact hfindings.trans (Nat.succ_le_succ h.softFindings_le)
  · rw [step_of_not_running hrun]
    exact h

theorem coherent_initial (p : Program) (config : Config) : (initial p config).Coherent :=
  ⟨⟨fun h => absurd h Bool.false_ne_true, fun h => Status.noConfusion h⟩, le_rfl⟩

theorem Coherent.session (h : m.Coherent) (actions : List HostAction) :
    (m.session actions).Coherent :=
  session_invariant (fun _ h => h.step) (fun _ _ h => ⟨h.violation_iff, h.softFindings_le⟩) h
    actions

/-! ### Machines that halted -/

/-- A halted machine keeps everything but its registration state, and that there was an edit. -/
theorem session_of_not_running (h : m.status ≠ .running) (actions : List HostAction) :
    ∃ registration recheck, m.session actions = { m with registration, recheck } := by
  apply session_invariant
    (P := fun m' => ∃ registration recheck, m' = { m with registration, recheck })
  · rintro _ ⟨registration, recheck, rfl⟩
    exact ⟨registration, recheck, step_of_not_running h⟩
  · rintro _ registration ⟨_, _, rfl⟩
    exact ⟨registration, true, rfl⟩
  · exact ⟨m.registration, m.recheck, rfl⟩

/-- Whatever a host does to the machine of a program, the stack stays within its capacity, the
memory keeps its size and the pool its strings; a violation is on record exactly when the machine
halted on one, and no cycle counts more than one finding. Once the machine has halted, no later
step and no later run changes anything in it. -/
theorem session_keeps_record {p : Program} {config : Config} {m₀ m : Machine}
    (h₀ : ofProgram p config = .ok m₀) {actions : List HostAction}
    (hm : m₀.session actions = m) :
    m.config = config ∧ m.store.stack.size ≤ config.stackCapacity ∧
    m.store.memory.size = config.memorySize ∧ m.strings = p.strings ∧
    (m.violation.isSome ↔ m.status = .haltedViolation) ∧
    m.softFindings ≤ m.cycles ∧
    (m.status ≠ .running → ∀ later,
      (m.session later).status = m.status ∧
      (m.session later).step = m.session later ∧
      ∀ {σ : Type} (budget : Nat) (observe : σ → Machine → Nat → σ) (seen : σ),
        (m.session later).runWith budget observe seen =
          (seen, m.session later, (m.session later).report 0)) := by
  obtain ⟨hfit, rfl⟩ := ofProgram_eq_ok h₀
  subst hm
  have hkeeps := (initial p config).session_keeps actions
  have hcoherent := (coherent_initial p config).session actions
  refine ⟨hkeeps.config, ?_, hkeeps.memory_size.trans (Memory.size_ofImage hfit), hkeeps.strings,
    hcoherent.violation_iff, hcoherent.softFindings_le, fun hhalted later => ?_⟩
  · have hle := ((initial p config).session actions).store.stack.length_le
    rw [hkeeps.stack_capacity] at hle
    exact hle
  · obtain ⟨registration, recheck, hlater⟩ := session_of_not_running hhalted later
    have hstatus : (((initial p config).session actions).session later).status =
        ((initial p config).session actions).status := by rw [hlater]
    have hstopped : (((initial p config).session actions).session later).status ≠ .running := by
      rw [hstatus]
      exact hhalted
    exact ⟨hstatus, step_of_not_running hstopped, runWith_of_not_running hstopped⟩

private def onlyHalt : Program :=
  ⟨#[.bare .halt], .empty, ⟨0, false⟩, by decide, by decide, by decide⟩

/-- Under the hard severity a halt that breaks the bound of the efficiency is overridden by the
violation, and neither an edit nor a run brings the machine back. -/
theorem session_keeps_record_haltOverridden :
    ∃ m₀ m, ofProgram onlyHalt { Config.strict with memorySize := 16 } = .ok m₀ ∧
      m₀.session [.step] = m ∧ m.status = .haltedViolation ∧ m.violation.isSome ∧
      m.softFindings ≤ m.cycles ∧
      (m.session [.edit .initial, .run 5]).status = .haltedViolation ∧
      (m.session [.edit .initial, .run 5]).step = m.session [.edit .initial, .run 5] := by
  have h₀ := @ofProgram_of_le onlyHalt { Config.strict with memorySize := 16 } (by decide)
  obtain ⟨-, -, -, -, hviolation, hfindings, hhalted⟩ :=
    session_keeps_record h₀ (show (initial onlyHalt { Config.strict with memorySize := 16 }).session
      [.step] = _ from rfl)
  have hstatus : (((initial onlyHalt { Config.strict with memorySize := 16 }).session
      [.step])).status = .haltedViolation := by decide +kernel
  obtain ⟨hlater, hstep, -⟩ := hhalted (by rw [hstatus]; decide) [.edit .initial, .run 5]
  exact ⟨_, _, h₀, rfl, hstatus, hviolation.mpr hstatus, hfindings, hlater.trans hstatus, hstep⟩

end Machine

end InvariantMachine

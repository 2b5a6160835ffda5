import Mathlib
import InvariantMachine.Proofs.Coherence
import InvariantMachine.Proofs.Runs

/-!
# Cycles counted by a machine and by its runs

A machine counts its cycles from when it was made, and a run counts the steps that it took. The
counts go together with one exception: a step that finds an edit of the host rejected stops before
a cycle begins, and a run counts it all the same. Only the first step of a run can find an edit.
-/

namespace InvariantMachine

namespace Machine

variable {m : Machine} {violation : Violation}

theorem editViolation?_step (hrun : m.status = .running) : m.step.editViolation? = none := by
  apply editViolation?_of_not_recheck
  cases hedit : m.editViolation? with
  | some violation =>
    rw [step_of_rejected hrun hedit]
    rfl
  | none =>
    rw [step_of_accepted hrun hedit]
    exact m.begun.cycle_ends.recheck_eq

theorem cycles_step (hrun : m.status = .running) (h : m.editViolation? = none) :
    m.step.cycles = m.cycles + 1 := by
  rw [step_of_accepted hrun h, m.begun.cycle_counts.1]
  rfl

theorem cycles_steps (h : m.editViolation? = none) (n : Nat) :
    (m.steps n).cycles = m.cycles + m.stepsTaken n := by
  induction n generalizing m with
  | zero => rfl
  | succ n ih =>
    by_cases hrun : m.status = .running
    · rw [steps_succ, ih (editViolation?_step hrun), cycles_step hrun h, stepsTaken_succ hrun]
      omega
    · rw [steps_of_not_running hrun, stepsTaken_of_not_running hrun]
      rfl

/-- A run that finds an edit rejected ends with its first step. -/
theorem run_of_rejected (hrun : m.status = .running) (h : m.editViolation? = some violation)
    {budget : Nat} (hbudget : 0 < budget) :
    (m.run budget).1 = { m with recheck := false }.fail violation ∧
      (m.run budget).2.cycles = 1 := by
  obtain ⟨n, rfl⟩ : ∃ n, budget = n + 1 := ⟨budget - 1, by omega⟩
  have hhalted : m.step.status ≠ .running := by
    rw [step_of_rejected hrun h]
    exact Status.noConfusion
  rw [run_eq]
  constructor
  · show m.steps (n + 1) = _
    rw [steps_succ, steps_of_not_running hhalted, step_of_rejected hrun h]
  · show m.stepsTaken (n + 1) = 1
    rw [stepsTaken_succ hrun, stepsTaken_of_not_running hhalted]

theorem cycles_run (h : ∀ violation, m.status = .running → m.editViolation? ≠ some violation)
    (budget : Nat) : (m.run budget).1.cycles = m.cycles + (m.run budget).2.cycles := by
  rw [run_eq]
  by_cases hrun : m.status = .running
  · apply cycles_steps
    exact Option.eq_none_iff_forall_ne_some.mpr fun violation => h violation hrun
  · show (m.steps budget).cycles = m.cycles + m.stepsTaken budget
    rw [steps_of_not_running hrun, stepsTaken_of_not_running hrun, Nat.add_zero]

/-- A machine that runs knows of a rejected edit exactly when its host made an edit that no step
has followed and that the verifier rejects. -/
theorem editViolation?_session {p : Program} {config : Config} {actions : List HostAction}
    (hrun : ((initial p config).session actions).status = .running) :
    ((initial p config).session actions).editViolation? = some violation ↔
      HostAction.editPending actions ∧
        ((initial p config).session actions).verifier.verify
          ((initial p config).session actions).registration = .error violation := by
  rw [editViolation?_eq_some_iff,
    (settled_session (settled_initial p config) actions hrun).recheck]

/-- After anything that a host did to the machine of a program, a run adds to the cycles of the
machine the number that it reports, except where it finds an edit rejected at once. There the
machine halts before its first cycle, and the run reports one. -/
theorem cycles_run_session_iff {p : Program} {config : Config} {m₀ m : Machine}
    (h₀ : ofProgram p config = .ok m₀) {actions : List HostAction}
    (hm : m₀.session actions = m) (budget : Nat) :
    ((m.run budget).1.cycles = m.cycles + (m.run budget).2.cycles ↔
      ¬(m.status = .running ∧ 0 < budget ∧ HostAction.editPending actions ∧
        ∃ violation, m.verifier.verify m.registration = .error violation)) ∧
    ∀ violation, m.status = .running → 0 < budget → HostAction.editPending actions →
      m.verifier.verify m.registration = .error violation →
      (m.run budget).2.cycles = 1 ∧ (m.run budget).1 = { m with
        recheck := false, status := .haltedViolation, violation := some violation } := by
  obtain ⟨-, rfl⟩ := ofProgram_eq_ok h₀
  subst hm
  have hrejected (violation : Violation)
      (hrun : ((initial p config).session actions).status = .running) :=
    @editViolation?_session violation p config actions hrun
  generalize (initial p config).session actions = m at hrejected ⊢
  constructor
  · constructor
    · rintro hcycles ⟨hrun, hbudget, hpending, violation, hverify⟩
      have hedit := (hrejected violation hrun).mpr ⟨hpending, hverify⟩
      obtain ⟨hend, hone⟩ := run_of_rejected hrun hedit hbudget
      rw [hend, hone] at hcycles
      exact absurd hcycles (Nat.succ_ne_self m.cycles).symm
    · intro h
      rcases Nat.eq_zero_or_pos budget with rfl | hbudget
      · rfl
      · apply cycles_run
        intro violation hrun hedit
        obtain ⟨hpending, hverify⟩ := (hrejected violation hrun).mp hedit
        exact h ⟨hrun, hbudget, hpending, violation, hverify⟩
  · intro violation hrun hbudget hpending hverify
    have hedit := (hrejected violation hrun).mpr ⟨hpending, hverify⟩
    exact (run_of_rejected hrun hedit hbudget).symm

private def nopsAndHalt : Program :=
  ⟨#[.bare .nop, .bare .nop, .bare .halt], .empty, ⟨0, false⟩, by decide, by decide, by decide⟩

private def nopsMachine : Machine := initial nopsAndHalt { Config.standard with memorySize := 16 }

/-- An edit that the verifier accepts does not disturb the counts. -/
theorem cycles_run_session_iff_acceptedEdit :
    ∃ m₀ m, ofProgram nopsAndHalt { Config.standard with memorySize := 16 } = .ok m₀ ∧
      m₀.session [.run 1, .edit (Registration.initial.withComplexity 40000)] = m ∧
      m.cycles = 1 ∧ (m.run 9).2.cycles = 2 ∧ (m.run 9).1.cycles = 3 := by
  have h₀ : ofProgram nopsAndHalt { Config.standard with memorySize := 16 } = .ok nopsMachine :=
    ofProgram_of_le (by decide)
  refine ⟨_, _, h₀, rfl, ?_⟩
  obtain ⟨hcounts, -⟩ := cycles_run_session_iff h₀ (show nopsMachine.session
    [.run 1, .edit (Registration.initial.withComplexity 40000)] = _ from rfl) 9
  generalize hm : nopsMachine.session _ = m at hcounts ⊢
  have hbefore : m.cycles = 1 := by
    rw [← hm]
    decide +kernel
  have hreport : (m.run 9).2.cycles = 2 := by
    rw [← hm]
    decide +kernel
  have haccepted : m.verifier.verify m.registration = .ok none := by
    rw [← hm]
    decide +kernel
  refine ⟨hbefore, hreport, ?_⟩
  rw [hcounts.mpr ?_, hbefore, hreport]
  rintro ⟨-, -, -, violation, hverify⟩
  rw [haccepted] at hverify
  cases hverify

/-- A run that finds the complexity raised past the ceiling reports a cycle that its machine has not
gone through. -/
theorem rejected_edit_counted_by_run :
    ∃ m₀ m, ofProgram nopsAndHalt { Config.standard with memorySize := 16 } = .ok m₀ ∧
      m₀.session [.edit (Registration.initial.withComplexity 60000)] = m ∧
      m.cycles = 0 ∧ (m.run 1).1.cycles = 0 ∧ (m.run 1).2.cycles = 1 ∧
      ¬(m.run 1).1.cycles = m.cycles + (m.run 1).2.cycles :=
  ⟨nopsMachine, _, ofProgram_of_le (by decide), rfl, by decide +kernel, by decide +kernel,
    by decide +kernel, by decide +kernel⟩

end Machine

end InvariantMachine

import Mathlib
import InvariantMachine.Machine.Run
import InvariantMachine.Proofs.Steps

/-!
# Runs with a budget

A run takes steps while the machine goes on and its budget lasts. It shows the machine to its
observer after every step and reports how many steps there were. The steps of a run do not depend
on where an earlier run was broken off, so two runs in a row are one run with both budgets.
-/

namespace InvariantMachine

namespace Machine

variable {m : Machine}

/-- The number of steps that a run takes: all that the budget allows, unless the machine halts. -/
def stepsTaken (m : Machine) : Nat → Nat
  | 0 => 0
  | budget + 1 => if m.isRunning then m.step.stepsTaken budget + 1 else 0

@[simp] theorem stepsTaken_zero (m : Machine) : m.stepsTaken 0 = 0 := rfl

theorem stepsTaken_succ (h : m.status = .running) (budget : Nat) :
    m.stepsTaken (budget + 1) = m.step.stepsTaken budget + 1 := by
  rw [stepsTaken, if_pos (isRunning_iff.mpr h)]

theorem stepsTaken_of_not_running (h : m.status ≠ .running) (budget : Nat) :
    m.stepsTaken budget = 0 := by
  cases budget with
  | zero => rfl
  | succ budget => rw [stepsTaken, if_neg (mt isRunning_iff.mp h)]

theorem stepsTaken_le (m : Machine) (budget : Nat) : m.stepsTaken budget ≤ budget := by
  induction budget generalizing m with
  | zero => exact le_rfl
  | succ budget ih =>
    by_cases h : m.status = .running
    · rw [stepsTaken_succ h]
      exact Nat.succ_le_succ (ih m.step)
    · rw [stepsTaken_of_not_running h]
      exact Nat.zero_le _

theorem stepsTaken_add (m : Machine) (a b : Nat) :
    m.stepsTaken (a + b) = m.stepsTaken a + (m.steps a).stepsTaken b := by
  induction a generalizing m with
  | zero => simp [steps]
  | succ a ih =>
    by_cases h : m.status = .running
    · rw [Nat.add_right_comm, stepsTaken_succ h, stepsTaken_succ h, ih m.step, steps_succ,
        Nat.add_right_comm]
    · rw [steps_of_not_running h]
      simp [stepsTaken_of_not_running h]

theorem stepsTaken_of_running (budget : Nat) (h : (m.steps budget).status = .running) :
    m.stepsTaken budget = budget := by
  induction budget with
  | zero => rfl
  | succ budget ih =>
    have hrun : (m.steps budget).status = .running := running_of_step h
    rw [stepsTaken_add, ih hrun, stepsTaken_succ hrun, stepsTaken_zero]

/-- The observer is called for the steps of a run in order, each time with the number of the step
and the machine that it led to. -/
theorem runFrom_eq {σ : Type} (observe : σ → Machine → Nat → σ) (m : Machine)
    (budget cycle : Nat) (seen : σ) :
    runFrom observe budget cycle seen m =
      ((List.range (m.stepsTaken budget)).foldl
          (fun seen k => observe seen (m.steps (k + 1)) (cycle + k)) seen,
        m.steps budget, cycle + m.stepsTaken budget) := by
  induction budget generalizing m cycle seen with
  | zero => rfl
  | succ budget ih =>
    rw [runFrom]
    by_cases h : m.status = .running
    · -- The step that is taken here is the first one; those of the shorter run come behind it.
      have hcycle (k : Nat) : cycle + 1 + k = cycle + (k + 1) := by omega
      rw [if_pos (isRunning_iff.mpr h), ih, stepsTaken_succ h, List.range_succ_eq_map,
        List.foldl_cons, List.foldl_map]
      simp only [hcycle, steps_succ m, Nat.succ_eq_add_one]
      rfl
    · rw [if_neg (mt isRunning_iff.mp h), stepsTaken_of_not_running h, steps_of_not_running h]
      rfl

theorem runWith_eq {σ : Type} (m : Machine) (budget : Nat) (observe : σ → Machine → Nat → σ)
    (seen : σ) :
    m.runWith budget observe seen =
      ((List.range (m.stepsTaken budget)).foldl
          (fun seen k => observe seen (m.steps (k + 1)) k) seen,
        m.steps budget, (m.steps budget).report (m.stepsTaken budget)) := by
  rw [runWith, runFrom_eq]
  simp only [Nat.zero_add]

theorem run_eq (m : Machine) (budget : Nat) :
    m.run budget = (m.steps budget, (m.steps budget).report (m.stepsTaken budget)) := by
  rw [run, runWith_eq]

/-- A run takes the machine through as many steps as its budget, for a halted machine stays as
it is. -/
theorem run_eq_steps (m : Machine) (budget : Nat) : (m.run budget).1 = m.steps budget := by
  rw [run_eq]

theorem runWith_of_not_running {σ : Type} (h : m.status ≠ .running) (budget : Nat)
    (observe : σ → Machine → Nat → σ) (seen : σ) :
    m.runWith budget observe seen = (seen, m, m.report 0) := by
  rw [runWith_eq, stepsTaken_of_not_running h, steps_of_not_running h]
  rfl

/-- Two runs in a row are one run with the sum of the budgets: they lead to the same machine, their
steps add up, and the second reports all else as the one run does. A run takes no more steps than
its budget allows; its observer is called once for each of them, in order, with its number counted
from zero and the machine after it; and the report says that the budget is exhausted exactly when
the machine still runs, and then all steps of the budget were taken. -/
theorem budgeted_runs_compose (m : Machine) (a b : Nat) :
    ((m.run a).1.run b).1 = (m.run (a + b)).1 ∧
    (m.run a).2.cycles + ((m.run a).1.run b).2.cycles = (m.run (a + b)).2.cycles ∧
    { ((m.run a).1.run b).2 with cycles := (m.run (a + b)).2.cycles } = (m.run (a + b)).2 ∧
    ∀ budget,
      (m.run budget).2.cycles ≤ budget ∧
      (∀ {σ : Type} (observe : σ → Machine → Nat → σ) (seen : σ),
        m.runWith budget observe seen =
          ((List.range (m.run budget).2.cycles).foldl
            (fun seen k => observe seen (m.steps (k + 1)) k) seen, m.run budget)) ∧
      ((m.run budget).2.budgetExhausted ↔ (m.run budget).1.status = .running) ∧
      ((m.run budget).1.status = .running → (m.run budget).2.cycles = budget) := by
  simp only [run_eq, runWith_eq, ← steps_add]
  refine ⟨trivial, (m.stepsTaken_add a b).symm, rfl, fun budget => ?_⟩
  refine ⟨m.stepsTaken_le budget, ?_, ?_, ?_⟩
  · intro σ observe seen
    rfl
  · exact isRunning_iff
  · exact stepsTaken_of_running budget

end Machine

end InvariantMachine

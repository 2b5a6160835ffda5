import InvariantMachine.Machine.Step

/-!
# Runs

A run steps a machine until it halts or a budget of steps is used up, and reports where it came
to. Steps may be observed one by one.
-/

namespace InvariantMachine

structure RunReport where
  status : Status
  cycles : Nat
  /-- Whether the machine could have gone on. -/
  budgetExhausted : Bool
  pc : Nat
  sp : Nat
  top : Option Value
  eta : Binary64
  complexity : Binary64
  properTime : Binary64
  softFindings : Nat
  violation : Option Violation
  output : String
deriving DecidableEq

namespace Machine

/-- Steps at most `budget` times. The observer sees the machine after each step, with the number
of the step; `cycle` is the number of the first. -/
def runFrom {σ : Type} (observe : σ → Machine → Nat → σ) :
    (budget cycle : Nat) → σ → Machine → σ × Machine × Nat
  | 0, cycle, seen, m => (seen, m, cycle)
  | budget + 1, cycle, seen, m =>
    if m.isRunning then
      let m' := m.step
      runFrom observe budget (cycle + 1) (observe seen m' cycle) m'
    else (seen, m, cycle)

/-- The report of a machine after a run of some steps. -/
def report (m : Machine) (cycles : Nat) : RunReport where
  status := m.status
  cycles := cycles
  budgetExhausted := m.isRunning
  pc := m.pc
  sp := m.sp
  top := m.top?
  eta := m.registration.eta
  complexity := m.registration.complexity
  properTime := m.registration.properTime
  softFindings := m.softFindings
  violation := m.violation
  output := m.store.output

def runWith {σ : Type} (m : Machine) (budget : Nat) (observe : σ → Machine → Nat → σ) (seen : σ) :
    σ × Machine × RunReport :=
  let (seen, m, cycles) := runFrom observe budget 0 seen m
  (seen, m, m.report cycles)

def run (m : Machine) (budget : Nat) : Machine × RunReport :=
  (m.runWith budget (fun _ _ _ => ()) ()).2

end Machine

end InvariantMachine

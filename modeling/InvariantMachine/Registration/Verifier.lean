import InvariantMachine.Machine.Config
import InvariantMachine.Machine.Violation
import InvariantMachine.Registration.State

/-!
# The invariant verifier

Three checks on a registration state, in this order: the probabilities sum to one, the efficiency
stays below what the complexity allows, and the complexity stays below the ceiling. The second is
fatal only under the hard severity. No check passes on a NaN.
-/

namespace InvariantMachine

/-- How far the probabilities may sum away from one. -/
def simplexTolerance : Binary64 := 1e-6

/-- How far the efficiency may pass its bound. -/
def efficiencySlack : Binary64 := 0.05

structure Verifier where
  ceiling : Binary64
  severity : Severity
deriving DecidableEq, Repr

namespace Verifier

def ofConfig (config : Config) : Verifier := ⟨config.complexityCeiling, config.severity⟩

def checkSimplex (_ : Verifier) (r : Registration) : Except Violation Unit :=
  let sum := r.basins.probabilitySum
  if (sum - 1).abs.le simplexTolerance then .ok () else .error (.simplexBroken sum)

/-- What is wrong with the efficiency, if anything. -/
def efficiencyFinding? (_ : Verifier) (r : Registration) : Option Violation :=
  if r.eta.le (r.bound + efficiencySlack) then none
  else some (.efficiencyExceeded r.eta r.bound)

def checkComplexity (v : Verifier) (r : Registration) : Except Violation Unit :=
  if r.complexity.le v.ceiling then .ok () else .error (.complexityBomb r.complexity v.ceiling)

/-- All checks. An error is fatal; a finding that is not is returned. -/
def verify (v : Verifier) (r : Registration) : Except Violation (Option Violation) := do
  v.checkSimplex r
  let finding := v.efficiencyFinding? r
  match finding, v.severity with
  | some violation, .hard => throw violation
  | _, _ =>
    v.checkComplexity r
    return finding

/-- Only the checks whose failure is fatal. -/
def enforce (v : Verifier) (r : Registration) : Except Violation Unit := do
  v.checkSimplex r
  if v.severity = .hard then
    if let some violation := v.efficiencyFinding? r then throw violation
  v.checkComplexity r

end Verifier

end InvariantMachine

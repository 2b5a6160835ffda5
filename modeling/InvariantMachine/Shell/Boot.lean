import InvariantMachine.Assembly.Encode
import InvariantMachine.Machine.Document
import InvariantMachine.Shell.Environment
import InvariantMachine.Shell.FileTask

/-!
# The boot command

Runs the boot program within the cycle budget and prints every cycle, then what the run came to.
The exit code is zero whatever happens.
-/

namespace InvariantMachine.Boot

def version : String := "2026.1.16"

def program : String := "push 10, push 20, add, reg_commit, mirror, halt"

/-- The configuration of a run. The strict option keeps only the budget of the environment. -/
def configOf (args : List String) (env : Environment) : Config :=
  if args.contains "--strict" then { Config.strict with cycleBudget := env.config.cycleBudget }
  else env.config

def cycleLine (m : Machine) (cycle : Nat) : String :=
  let top := match m.top? with
    | some v => v.text
    | none => "-"
  s!"cycle {cycle}: pc={m.pc} sp={m.sp} tos={top} " ++
    s!"η={m.registration.eta.fixed 4} τ={m.registration.properTime.fixed 4}\n"

def closing (r : RunReport) : String :=
  match r.status with
  | .haltedNominal =>
    s!"SYSTEM HALTED: NOMINAL\n   Final proper time: {r.properTime.fixed 4}\n"
  | .haltedViolation =>
    let reason := match r.violation with
      | some violation => s!" ({violation.message})"
      | none => ""
    s!"SYSTEM HALTED: VIOLATION DETECTED{reason}\n"
  | .running => s!"CYCLE BUDGET EXHAUSTED after {r.cycles} cycles\n"

/-- The command with its arguments in an environment. -/
def command (args : List String) (env : Environment) : Printed :=
  let config := configOf args env
  let opening := s!"TIM VM v{version} [boot sequence]\n"
  match assemble program with
  | .error e => ⟨0, opening, s!"error: {e.message}\n"⟩
  | .ok program =>
    match Machine.ofProgram program config with
    | .error e => ⟨0, opening, s!"error: {e.message}\n"⟩
    | .ok m =>
      let (trace, _, report) :=
        m.runWith config.cycleBudget (fun out m cycle => out ++ cycleLine m cycle) opening
      let json := if args.contains "--json" then report.document.pretty ++ "\n" else ""
      ⟨0, trace ++ closing report ++ json, ""⟩

end InvariantMachine.Boot

import InvariantMachine.Json.Writer
import InvariantMachine.Machine.Run

/-!
# Documents of machines

Values, configurations, violations and reports as JSON documents.
-/

namespace InvariantMachine

def Value.document : Value → Json
  | .int v => .tagged "Int" (.integer v.toInt)
  | .float v => .tagged "Float" (.number v)
  | .char c => .tagged "Char" (.string (String.ofList [c]))
  | .str index => .tagged "Str" (.integer index.toNat)

def Activity.document (a : Activity) : Json :=
  .object [("gate", .number a.gate), ("memory", .number a.memory), ("branch", .number a.branch)]

def ExecutionMode.document (mode : ExecutionMode) : Json := .string mode.name

def Severity.document (severity : Severity) : Json := .string severity.name

def Config.document (c : Config) : Json :=
  .object [
    ("stack_capacity", .integer c.stackCapacity),
    ("memory_size", .integer c.memorySize),
    ("c_reg_max", .number c.complexityCeiling),
    ("execution_mode", c.mode.document),
    ("efficiency_severity", c.severity.document),
    ("cycle_budget", .integer c.cycleBudget)]

namespace Status

def name : Status → String
  | running => "Running"
  | haltedNominal => "HaltedNominal"
  | haltedViolation => "HaltedViolation"

def document (status : Status) : Json := .string status.name

end Status

namespace Violation

def name : Violation → String
  | stackOverflow _ => "StackOverflow"
  | stackUnderflow _ _ => "StackUnderflow"
  | pcOutOfBounds _ => "PcOutOfBounds"
  | memoryOutOfBounds _ => "MemoryOutOfBounds"
  | registerOutOfBounds _ => "RegisterOutOfBounds"
  | stringOutOfBounds _ => "StringOutOfBounds"
  | invalidOperand _ _ => "InvalidOperand"
  | divisionByZero => "DivisionByZero"
  | nativeCallUnsupported _ => "NativeCallUnsupported"
  | simplexBroken _ => "SimplexBroken"
  | efficiencyExceeded _ _ => "EfficiencyExceeded"
  | complexityBomb _ _ => "ComplexityBomb"

/-- What a violation carries, by name. -/
def details : Violation → List (String × Json)
  | stackOverflow capacity => [("capacity", .integer capacity)]
  | stackUnderflow required available =>
    [("required", .integer required), ("available", .integer available)]
  | pcOutOfBounds pc => [("pc", .integer pc)]
  | memoryOutOfBounds address => [("addr", .integer address)]
  | registerOutOfBounds index => [("index", .integer index.toNat)]
  | stringOutOfBounds index => [("index", .integer index.toNat)]
  | invalidOperand tag address => [("tag", .integer tag.toNat), ("addr", .integer address)]
  | divisionByZero => []
  | nativeCallUnsupported id => [("id", .integer id.toInt)]
  | simplexBroken sum => [("sum", .number sum)]
  | efficiencyExceeded eta bound => [("eta", .number eta), ("eta_max", .number bound)]
  | complexityBomb complexity ceiling =>
    [("c_reg", .number complexity), ("ceiling", .number ceiling)]

/-- A violation that carries nothing is its name. -/
def document (v : Violation) : Json :=
  if v.details.isEmpty then .string v.name else .tagged v.name (.object v.details)

end Violation

def RunReport.document (r : RunReport) : Json :=
  .object [
    ("state", r.status.document),
    ("cycles", .integer r.cycles),
    ("budget_exhausted", .boolean r.budgetExhausted),
    ("pc", .integer r.pc),
    ("sp", .integer r.sp),
    ("top", .optional Value.document r.top),
    ("eta", .number r.eta),
    ("c_reg", .number r.complexity),
    ("tau", .number r.properTime),
    ("soft_findings", .integer r.softFindings),
    ("violation", .optional Violation.document r.violation),
    ("output", .string r.output)]

end InvariantMachine

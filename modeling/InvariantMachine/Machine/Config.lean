import InvariantMachine.Number.Reading

/-!
# Machine configuration

The limits of a machine and its two policies: what a stack underflow does and what an exceeded
efficiency bound does. Policies are named in any letter case.
-/

namespace InvariantMachine

/-- What a stack underflow does. -/
inductive ExecutionMode where
  | lenient
  | strict
deriving DecidableEq, Repr, Inhabited

/-- What an exceeded efficiency bound does. -/
inductive Severity where
  | soft
  | hard
deriving DecidableEq, Repr, Inhabited

namespace ExecutionMode

def name : ExecutionMode → String
  | lenient => "lenient"
  | strict => "strict"

def ofName? (text : String) : Option ExecutionMode :=
  [lenient, strict].find? fun mode => mode.name == text

/-- The mode of a name in any letter case, or what is wrong with it. -/
def read (text : String) : Except String ExecutionMode :=
  match ofName? (asciiLowerAll text) with
  | some mode => .ok mode
  | none => .error s!"unknown execution mode '{asciiLowerAll text}'"

end ExecutionMode

namespace Severity

def name : Severity → String
  | soft => "soft"
  | hard => "hard"

def ofName? (text : String) : Option Severity :=
  [soft, hard].find? fun severity => severity.name == text

/-- The severity of a name in any letter case, or what is wrong with it. -/
def read (text : String) : Except String Severity :=
  match ofName? (asciiLowerAll text) with
  | some severity => .ok severity
  | none => .error s!"unknown severity '{asciiLowerAll text}'"

end Severity

structure Config where
  stackCapacity : Nat
  memorySize : Nat
  /-- The complexity that the verifier allows. -/
  complexityCeiling : Binary64
  mode : ExecutionMode
  severity : Severity
  /-- The steps that a host runs before it gives up. -/
  cycleBudget : Nat
deriving DecidableEq, Repr

namespace Config

/-- Underflow is passed over and efficiency findings are counted. -/
def standard : Config where
  stackCapacity := 1024
  memorySize := 65536
  complexityCeiling := 50000
  mode := .lenient
  severity := .soft
  cycleBudget := 100

instance : Inhabited Config := ⟨standard⟩

def strict : Config := { standard with mode := .strict, severity := .hard }

end Config

/-- The largest natural of 64 bits, which sizes and addresses do not pass. -/
def greatestSize : Nat := 0xffffffffffffffff

end InvariantMachine

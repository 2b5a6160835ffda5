import InvariantMachine.Code.Image
import InvariantMachine.Machine.Execute
import InvariantMachine.Registration.Verifier

/-!
# Machines

A machine is a store with a program counter, a registration state and the records of its run. It
is made from a program and a configuration by loading the image into memory. A host may change
the registration state of a machine; the invariants are then checked before the next fetch.
-/

namespace InvariantMachine

inductive Status where
  | running
  | haltedNominal
  | haltedViolation
deriving DecidableEq, Repr, Inhabited

structure Machine where
  config : Config
  strings : StringPool
  store : Store
  pc : Nat
  status : Status
  violation : Option Violation
  registration : Registration
  /-- The activity of the last instruction. -/
  activity : Activity
  cycles : Nat
  /-- The findings so far that were not fatal. -/
  softFindings : Nat
  /-- Whether a host changed the registration state since the last step. -/
  recheck : Bool
deriving DecidableEq

namespace Machine

def ofProgram (program : Program) (config : Config) : Except ImageTooLarge Machine :=
  match (Memory.ofSize config.memorySize).load program.image with
  | .error e => .error e
  | .ok memory =>
    .ok {
      config
      strings := program.strings
      store := {
        stack := .ofCapacity config.stackCapacity
        registers := Vector.replicate registerCount default
        memory
        output := "" }
      pc := program.start
      status := .running
      violation := none
      registration := .initial
      activity := .idle
      cycles := 0
      softFindings := 0
      recheck := false }

def isRunning (m : Machine) : Bool := m.status == .running

def verifier (m : Machine) : Verifier := .ofConfig m.config

def top? (m : Machine) : Option Value := m.store.stack.peek?

def sp (m : Machine) : Nat := m.store.stack.size

def fail (m : Machine) (violation : Violation) : Machine :=
  { m with violation := some violation, status := .haltedViolation }

/-- Changes the registration state from outside. -/
def editRegistration (m : Machine) (registration : Registration) : Machine :=
  { m with registration, recheck := true }

end Machine

end InvariantMachine

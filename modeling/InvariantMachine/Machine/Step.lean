import InvariantMachine.Machine.State

/-!
# Steps

One step fetches and decodes the instruction at the program counter, carries it out, takes its
activity into the registration state, and verifies the invariants. A byte that is no opcode counts
as an instruction that does nothing. A violation halts the machine at once, before anything is
accounted for where it comes from fetching, decoding or carrying out.
-/

namespace InvariantMachine

/-- What the bytes at an address are. -/
inductive Fetched where
  | instruction (i : Instruction) (after : Nat)
  /-- A byte that is no opcode. -/
  | unknown (after : Nat)
deriving DecidableEq, Repr

namespace Fetched

def opcode? : Fetched → Option Opcode
  | instruction i _ => some i.opcode
  | unknown _ => none

def after : Fetched → Nat
  | instruction _ after => after
  | unknown after => after

end Fetched

def Violation.ofFault : DecodeFault → Violation
  | .truncated position => .pcOutOfBounds position
  | .invalidTag tag position => .invalidOperand tag position

def Memory.fetch (memory : Memory) (address : Nat) : Except Violation Fetched :=
  match memory.bytes[address]? with
  | none => .error (.pcOutOfBounds address)
  | some byte =>
    match Opcode.ofByte? byte with
    | none => .ok (.unknown (address + 1))
    | some opcode =>
      match (Instruction.decodeAfter opcode).run (memory.readerAt (address + 1)) with
      | (.ok i, reader) => .ok (.instruction i reader.position)
      | (.error fault, _) => .error (.ofFault fault)

/-- The registration state after an opcode, or a byte that is none, was carried out. -/
def Registration.retire (r : Registration) (opcode? : Option Opcode) :
    Registration :=
  let committed := if opcode? = some .regCommit then r.commit else r
  (committed.observe (.ofOpcode? opcode?)).advance

namespace Machine

/-- What an instruction depends on besides the store. -/
def context (m : Machine) (after : Nat) : Context where
  mode := m.config.mode
  strings := m.strings
  here := m.pc
  after := after
  verifier := m.verifier
  registration := m.registration

def effect (m : Machine) : Fetched → Effect
  | .instruction i after => execute (m.context after) m.store i
  | .unknown _ => .ok (m.store, .next)

def proceed (m : Machine) (store : Store) (after : Nat) : Flow → Machine
  | .next => { m with store, pc := after }
  | .goto address => { m with store, pc := address }
  | .halt => { m with store, pc := after, status := .haltedNominal }

/-- Takes the activity of what was carried out into the registration state. -/
def account (m : Machine) (opcode? : Option Opcode) : Machine :=
  { m with
    activity := .ofOpcode? opcode?
    registration := m.registration.retire opcode? }

def checked (m : Machine) : Machine :=
  match m.verifier.verify m.registration with
  | .error violation => m.fail violation
  | .ok (some _) => { m with softFindings := m.softFindings + 1 }
  | .ok none => m

/-- A step without the check that comes before the fetch. -/
def cycle (m : Machine) : Machine :=
  match m.store.memory.fetch m.pc with
  | .error violation => m.fail violation
  | .ok fetched =>
    match m.effect fetched with
    | .error failure =>
      { m with
        store := failure.store
        pc := failure.pc
        registration := failure.registration }.fail failure.violation
    | .ok (store, flow) =>
      ((m.proceed store fetched.after flow).account fetched.opcode?).checked

/-- What is wrong with a registration state that a host changed. -/
def editViolation? (m : Machine) : Option Violation :=
  if m.recheck then
    match m.verifier.verify m.registration with
    | .error violation => some violation
    | .ok _ => none
  else none

/-- One step. A machine that has halted stays as it is. -/
def step (m : Machine) : Machine :=
  if m.isRunning then
    match m.editViolation? with
    | some violation => { m with recheck := false }.fail violation
    | none => { m with recheck := false, cycles := m.cycles + 1 }.cycle
  else m

end Machine

end InvariantMachine

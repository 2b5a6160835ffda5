import Mathlib
import InvariantMachine.Proofs.Effects
import InvariantMachine.Proofs.Fetch

/-!
# Machines that run over indices

An indexed machine runs the instructions of a program as the program lists them. Its program
counter is the index of an instruction, targets are indices, and no byte of code is ever read. The
index behind the last instruction halts, and a target that names no index is a trap. Every
position has an address, under which the machine over bytes knows it.
-/

namespace InvariantMachine

/-- Where an indexed machine is. -/
inductive Position where
  | index (j : Nat)
  /-- Where a target leads that names no instruction. -/
  | trap
deriving DecidableEq, Repr

namespace Program

variable {p : Program} {i : Instruction} {j : Nat}

/-- The position that a target counted in instructions stands for. -/
def positionOfTarget (p : Program) (t : Int) : Position :=
  if 0 ≤ t ∧ t ≤ p.size then .index t.toNat else .trap

/-- The position that has a given offset. -/
def positionOfOffset (p : Program) (a : Nat) : Position :=
  match (List.range (p.size + 1)).find? fun j => p.offset j == a with
  | some j => .index j
  | none => .trap

def entryPosition (p : Program) : Position :=
  match p.entryPoint? with
  | some j => p.positionOfTarget j.toNat
  | none => .index 0

/-- The instruction of an index; behind the last one stands a halt. -/
def instructionAt (p : Program) (j : Nat) : Instruction := p.instructions[j]?.getD (.bare .halt)

/-- Where an instruction leads that leaves the straight line: a return by the address that it
takes from the stack, every other one by the target that it carries. -/
def landing (p : Program) (i : Instruction) (address : Nat) : Position :=
  match i.opcode, i.operand with
  | .ret, _ => p.positionOfOffset address
  | _, .int t => p.positionOfTarget t.toInt
  | _, _ => .trap

theorem landing_of_int {t : Int64} (hop : i.opcode ≠ .ret) (ho : i.operand = .int t) (a : Nat) :
    p.landing i a = p.positionOfTarget t.toInt := by
  unfold landing
  rw [ho]
  cases h : i.opcode <;> first | rfl | exact absurd h hop

theorem landing_of_ret (hop : i.opcode = .ret) (a : Nat) :
    p.landing i a = p.positionOfOffset a := by
  rw [landing, hop]

/-- The address of a position. Behind the code an index takes one byte. -/
def address (p : Program) : Position → Nat
  | .index j => p.offset j + (j - p.size)
  | .trap => unresolvedTarget

theorem address_index_of_le (h : j ≤ p.size) : p.address (.index j) = p.offset j := by
  rw [address, Nat.sub_eq_zero_of_le h, Nat.add_zero]

theorem address_positionOfTarget (p : Program) (t : Int) :
    p.address (p.positionOfTarget t) = p.resolve t := by
  unfold positionOfTarget
  split
  · rename_i h
    rw [address_index_of_le (by omega), resolve_of_le h.1 h.2]
  · rename_i h
    exact (resolve_of_not_le h).symm

theorem positionOfOffset_offset (h : j ≤ p.size) :
    p.positionOfOffset (p.offset j) = .index j := by
  unfold positionOfOffset
  split
  · rename_i k hk
    have hle : k ≤ p.size := by
      have := List.mem_range.mp (List.mem_of_find?_eq_some hk)
      omega
    have heq : p.offset k = p.offset j := by simpa using List.find?_some hk
    rw [offset_inj hle h heq]
  · rename_i hnone
    have hj := List.find?_eq_none.mp hnone j (List.mem_range.mpr (by omega))
    exact absurd (beq_self_eq_true _) hj

theorem address_entryPosition (p : Program) : p.address p.entryPosition = p.start := by
  unfold entryPosition start
  cases p.entryPoint? with
  | some j => exact p.address_positionOfTarget j.toNat
  | none => exact (address_index_of_le (Nat.zero_le _)).trans p.offset_zero

/-- A position that is an index is one of an instruction or of the end of the code. -/
def Reaches (p : Program) : Position → Prop
  | .index j => j ≤ p.size
  | .trap => True

theorem reaches_positionOfTarget (p : Program) (t : Int) : p.Reaches (p.positionOfTarget t) := by
  unfold positionOfTarget
  split
  · change t.toNat ≤ p.size
    omega
  · trivial

theorem reaches_positionOfOffset (p : Program) (a : Nat) : p.Reaches (p.positionOfOffset a) := by
  unfold positionOfOffset
  split
  · rename_i j h
    have := List.mem_range.mp (List.mem_of_find?_eq_some h)
    change j ≤ p.size
    omega
  · trivial

theorem reaches_landing (p : Program) (i : Instruction) (a : Nat) :
    p.Reaches (p.landing i a) := by
  unfold landing
  split
  · exact p.reaches_positionOfOffset a
  · exact p.reaches_positionOfTarget _
  · trivial

theorem reaches_entryPosition (p : Program) : p.Reaches p.entryPosition := by
  unfold entryPosition
  split
  · exact p.reaches_positionOfTarget _
  · exact Nat.zero_le _

theorem instructionAt_of_lt (h : p.instructions[j]? = some i) : p.instructionAt j = i := by
  rw [instructionAt, h]
  rfl

theorem instructionAt_of_size_le (h : p.size ≤ j) : p.instructionAt j = .bare .halt := by
  rw [instructionAt, Array.getElem?_eq_none h]
  rfl

theorem wellFormed_instructionAt (p : Program) (j : Nat) : (p.instructionAt j).WellFormed := by
  cases h : p.instructions[j]? with
  | some i =>
    rw [instructionAt_of_lt h]
    exact wellFormed_of_mem (Array.mem_of_getElem? h)
  | none =>
    rw [instructionAt_of_size_le (Array.getElem?_eq_none_iff.mp h)]
    exact .bare rfl

/-- While the image and a zero behind it stand in memory, a fetch finds the instruction of every
index, with its target made an offset, and ends at the address of the next index. -/
theorem fetch_index {memory : Memory} (h : p.image ++ [0] <+: memory.bytes.toList)
    (hj : j ≤ p.size) :
    memory.fetch (p.address (.index j)) =
      .ok (.instruction (p.placed (p.instructionAt j)) (p.address (.index (j + 1)))) := by
  rw [address_index_of_le hj]
  rcases Nat.lt_or_eq_of_le hj with hlt | rfl
  · have hi : p.instructions[j]? = some p.instructions[j] := Array.getElem?_eq_getElem hlt
    have himage : p.image <+: memory.bytes.toList := (List.prefix_append _ _).trans h
    rw [address_index_of_le hlt, instructionAt_of_lt hi]
    exact Memory.fetch_offset himage hi
  · have hend : p.offset (p.size + 1) = p.offset p.size := by
      rw [offset_of_size_le (Nat.le_succ _), offset_of_size_le le_rfl]
    rw [instructionAt_of_size_le le_rfl, placed_of_not_takesAddress rfl, address, hend,
      Nat.add_sub_cancel_left]
    refine Memory.fetch_zero ?_
    obtain ⟨t, ht⟩ := h
    rw [← Array.getElem?_toList, ← ht, ← p.image_length]
    simp

end Program

structure IndexedMachine where
  config : Config
  store : Store
  position : Position
  status : Status
  violation : Option Violation
  registration : Registration
  activity : Activity
  cycles : Nat
  softFindings : Nat

namespace IndexedMachine

def start (p : Program) (config : Config) : IndexedMachine where
  config := config
  store := {
    stack := .ofCapacity config.stackCapacity
    registers := Vector.replicate registerCount default
    memory := .ofImage p.image config.memorySize
    output := "" }
  position := p.entryPosition
  status := .running
  violation := none
  registration := .initial
  activity := .idle
  cycles := 0
  softFindings := 0

def verifier (r : IndexedMachine) : Verifier := .ofConfig r.config

def fail (r : IndexedMachine) (violation : Violation) : IndexedMachine :=
  { r with violation := some violation, status := .haltedViolation }

/-- What an instruction depends on: it is reported at its own address, and behind it stands the
next instruction. -/
def context (p : Program) (r : IndexedMachine) (j : Nat) : Context where
  mode := r.config.mode
  strings := p.strings
  here := p.address (.index j)
  after := p.address (.index (j + 1))
  verifier := r.verifier
  registration := r.registration

def proceed (p : Program) (r : IndexedMachine) (j : Nat) (i : Instruction) (store : Store) :
    Flow → IndexedMachine
  | .next => { r with store, position := .index (j + 1) }
  | .goto address => { r with store, position := p.landing i address }
  | .halt => { r with store, position := .index (j + 1), status := .haltedNominal }

def account (r : IndexedMachine) (opcode : Opcode) : IndexedMachine :=
  { r with
    activity := .ofOpcode? (some opcode)
    registration := r.registration.retire (some opcode) }

def checked (r : IndexedMachine) : IndexedMachine :=
  match r.verifier.verify r.registration with
  | .error violation => r.fail violation
  | .ok (some _) => { r with softFindings := r.softFindings + 1 }
  | .ok none => r

def carryOut (p : Program) (r : IndexedMachine) (j : Nat) : IndexedMachine :=
  match execute (r.context p j) r.store (p.instructionAt j) with
  | .error failure =>
    { r with
      store := failure.store
      position := .index (j + 1)
      registration := failure.registration }.fail failure.violation
  | .ok (store, flow) =>
    ((r.proceed p j (p.instructionAt j) store flow).account (p.instructionAt j).opcode).checked

def begun (r : IndexedMachine) : IndexedMachine := { r with cycles := r.cycles + 1 }

def step (p : Program) (r : IndexedMachine) : IndexedMachine :=
  if r.status = .running then
    match r.position with
    | .index j => r.begun.carryOut p j
    | .trap => r.begun.fail (.pcOutOfBounds unresolvedTarget)
  else r

def steps (p : Program) (r : IndexedMachine) : Nat → IndexedMachine
  | 0 => r
  | n + 1 => (r.steps p n).step p

/-! ### Transfers of control -/

/-- The machine that goes on at a position with a store, after an opcode. -/
def arrive (r : IndexedMachine) (store : Store) (position : Position) (opcode : Opcode) :
    IndexedMachine :=
  ({ r with store, position }.account opcode).checked

variable {p : Program} {r : IndexedMachine} {i : Instruction} {j : Nat} {t : Int64}

theorem step_of_index (hrun : r.status = .running) (hpos : r.position = .index j) :
    r.step p = r.begun.carryOut p j := by
  rw [step, if_pos hrun, hpos]

theorem step_of_goto {op : Opcode} {store : Store} {address : Nat} (hrun : r.status = .running)
    (hpos : r.position = .index j) (hi : p.instructions[j]? = some i) (hop : i.opcode = op)
    (he : execute (r.begun.context p j) r.store i = .ok (store, .goto address)) :
    r.step p = r.begun.arrive store (p.landing i address) op := by
  have he' : execute (r.begun.context p j) r.begun.store i = .ok (store, .goto address) := he
  rw [step_of_index hrun hpos, carryOut, Program.instructionAt_of_lt hi, he', ← hop]
  rfl

theorem step_of_next {op : Opcode} {store : Store} (hrun : r.status = .running)
    (hpos : r.position = .index j) (hi : p.instructions[j]? = some i) (hop : i.opcode = op)
    (he : execute (r.begun.context p j) r.store i = .ok (store, .next)) :
    r.step p = r.begun.arrive store (.index (j + 1)) op := by
  have he' : execute (r.begun.context p j) r.begun.store i = .ok (store, .next) := he
  rw [step_of_index hrun hpos, carryOut, Program.instructionAt_of_lt hi, he', ← hop]
  rfl

/-- A jump goes to the position of its target. -/
theorem step_jmp (hrun : r.status = .running) (hpos : r.position = .index j)
    (hi : p.instructions[j]? = some (.withOperand .jmp (.int t))) :
    r.step p = r.begun.arrive r.store (p.positionOfTarget t.toInt) .jmp := by
  have he : execute (r.begun.context p j) r.store (.withOperand .jmp (.int t)) =
      .ok (r.store, .goto (Operand.int t).target) := execute_of_none rfl rfl
  have hret : Opcode.jmp ≠ .ret := by decide
  rw [step_of_goto hrun hpos hi rfl he, Program.landing_of_int hret rfl]
  rfl

/-- A conditional jump takes the top. It goes to the position of its target or to the next
instruction. -/
theorem step_branch (onZero : Bool) {v : Value} {rest : BoundedStack Value}
    (hrun : r.status = .running) (hpos : r.position = .index j)
    (hi : p.instructions[j]? =
      some (.withOperand (if onZero then .zjmp else .nzjmp) (.int t)))
    (hpop : r.store.stack.pop? = some (v, rest)) :
    r.step p = r.begun.arrive { r.store with stack := rest }
      (if v.isZero == onZero then p.positionOfTarget t.toInt else .index (j + 1))
      (if onZero then .zjmp else .nzjmp) := by
  generalize hop : (if onZero then Opcode.zjmp else .nzjmp) = op at hi ⊢
  have he :=
    @execute_branch (r.begun.context p j) r.store (.withOperand op (.int t)) onZero hop.symm
  rw [Effect.withOne, hpop] at he
  by_cases htaken : v.isZero == onZero
  · have hret : op ≠ .ret := by cases onZero <;> simp [← hop]
    dsimp only at he
    rw [if_pos htaken] at he
    rw [if_pos htaken, step_of_goto hrun hpos hi rfl he, Program.landing_of_int hret rfl]
    rfl
  · dsimp only at he
    rw [if_neg htaken] at he
    rw [if_neg htaken]
    exact step_of_next hrun hpos hi rfl he

/-- A call pushes the offset of the next instruction and goes to the position of its target. -/
theorem step_call {stack : BoundedStack Value} (hrun : r.status = .running)
    (hpos : r.position = .index j)
    (hi : p.instructions[j]? = some (.withOperand .call (.int t)))
    (hpush : r.store.stack.push (.int (Int64.ofNat (p.offset (j + 1)))) = .ok stack) :
    r.step p = r.begun.arrive { r.store with stack } (p.positionOfTarget t.toInt) .call := by
  have hlt : j < p.size := (Array.getElem?_eq_some_iff.mp hi).1
  have hafter : (r.begun.context p j).after = p.offset (j + 1) := p.address_index_of_le hlt
  have he : execute (r.begun.context p j) r.store (.withOperand .call (.int t)) =
      .ok ({ r.store with stack }, .goto (Operand.int t).target) := by
    rw [execute_of_none rfl rfl, perform]
    dsimp only [Instruction.withOperand]
    rw [Store.call, Store.push, hafter, hpush]
  have hret : Opcode.call ≠ .ret := by decide
  rw [step_of_goto hrun hpos hi rfl he, Program.landing_of_int hret rfl]
  rfl

/-- A return takes the top and goes to the position that has it for an offset. -/
theorem step_ret {v : Value} {rest : BoundedStack Value} (hrun : r.status = .running)
    (hpos : r.position = .index j) (hi : p.instructions[j]? = some (.bare .ret))
    (hpop : r.store.stack.pop? = some (v, rest)) :
    r.step p = r.begun.arrive { r.store with stack := rest }
      (p.positionOfOffset v.asAddress) .ret := by
  have he : execute (r.begun.context p j) r.store (.bare .ret) =
      .ok ({ r.store with stack := rest }, .goto v.asAddress) := by
    rw [execute_ret rfl, Effect.withOne, hpop]
  rw [step_of_goto hrun hpos hi rfl he, Program.landing_of_ret rfl]
  rfl

end IndexedMachine

end InvariantMachine

import InvariantMachine.Code.Instruction
import InvariantMachine.Code.StringPool

/-!
# Programs

A program is a list of instructions, a string pool and an entry point. It grows one checked step
at a time, so every program has well-formed instructions, references only strings that it holds,
and stays within its capacity. A refused step leaves the program as it was.
-/

namespace InvariantMachine

def maxProgramSize : Nat := 1024

/-- The index of the instruction where execution starts, and whether the source named it. -/
structure EntryPoint where
  offset : UInt32
  declared : Bool
deriving DecidableEq, Repr, Inhabited

/-- Why a program refused an instruction. -/
inductive ProgramError where
  | malformedInstruction (index : Nat) (instruction : Instruction)
  | danglingString (index : Nat) (string : UInt32) (size : Nat)
  | capacity (cause : CapacityExceeded)
deriving DecidableEq, Repr

def ProgramError.message : ProgramError → String
  | malformedInstruction index instruction =>
    s!"instruction {index} ('{instruction.text}') does not fit the operand shape of its opcode"
  | danglingString index string size =>
    s!"instruction {index} references string {string}, pool holds {size}"
  | capacity cause => cause.message

/-- The string that an instruction refers to and the pool does not hold. -/
def Instruction.dangling? (i : Instruction) (pool : StringPool) : Option UInt32 :=
  match i.operand with
  | .stringIndex index => if index.toNat < pool.size then none else some index
  | _ => none

structure Program where
  instructions : Array Instruction
  strings : StringPool
  entry : EntryPoint
  size_le : instructions.size ≤ maxProgramSize
  wellFormed : ∀ i ∈ instructions, i.isWellFormed
  resolved : ∀ i ∈ instructions, i.dangling? strings = none

namespace Program

def empty : Program := ⟨#[], .empty, ⟨0, false⟩, by decide, by simp, by simp⟩

instance : Inhabited Program := ⟨empty⟩

def size (p : Program) : Nat := p.instructions.size

def isEmpty (p : Program) : Bool := p.instructions.isEmpty

def entryPoint? (p : Program) : Option UInt32 :=
  if p.entry.declared then some p.entry.offset else none

/-- An empty program over a pool that is already filled. -/
def withStrings (pool : StringPool) : Program :=
  ⟨#[], pool, ⟨0, false⟩, by decide, by simp, by simp⟩

def setEntry (p : Program) (entry : EntryPoint) : Program := { p with entry }

/-- Appends an instruction. Capacity is checked first, then the shape, then the reference. -/
def push (p : Program) (i : Instruction) : Except ProgramError Program :=
  if hsize : maxProgramSize ≤ p.instructions.size then
    .error (.capacity ⟨.program, maxProgramSize⟩)
  else if hshape : i.isWellFormed then
    match hstring : i.dangling? p.strings with
    | some index => .error (.danglingString p.instructions.size index p.strings.size)
    | none =>
      .ok { p with
        instructions := p.instructions.push i
        size_le := by rw [Array.size_push]; omega
        wellFormed := by
          intro j hj
          rcases Array.mem_push.mp hj with h | rfl
          · exact p.wellFormed j h
          · exact hshape
        resolved := by
          intro j hj
          rcases Array.mem_push.mp hj with h | rfl
          · exact p.resolved j h
          · exact hstring }
  else .error (.malformedInstruction p.instructions.size i)

theorem dangling?_intern {pool pool' : StringPool} {text : String} {index : UInt32}
    (h : pool.intern text = .ok (index, pool')) {i : Instruction} (hi : i.dangling? pool = none) :
    i.dangling? pool' = none := by
  unfold StringPool.intern at h
  split at h
  · cases h
  · split at h
    · cases h
    · cases h
      revert hi
      unfold Instruction.dangling?
      split
      · rename_i k _
        intro hi
        by_cases hk : k.toNat < pool.strings.size
        · simp [StringPool.size, Nat.lt_succ_of_lt hk]
        · simp [StringPool.size, hk] at hi
      · exact id

def intern (p : Program) (text : String) : Except CapacityExceeded (UInt32 × Program) :=
  match h : p.strings.intern text with
  | .error e => .error e
  | .ok (index, pool) =>
    .ok (index, { p with
      strings := pool
      resolved := fun i hi => dangling?_intern h (p.resolved i hi) })

/-- Interns a text and appends the instruction that pushes it. A text that was interned stays in
the pool even when the program is full. -/
def pushString (p : Program) (text : String) : Except ProgramError Unit × Program :=
  match p.intern text with
  | .error e => (.error (.capacity e), p)
  | .ok (index, p') =>
    match p'.push (.withOperand .pushStr (.stringIndex index)) with
    | .error e => (.error e, p')
    | .ok p'' => (.ok (), p'')

/-- Declares the entry point, which a program has at most once. -/
def declareEntry? (p : Program) (offset : UInt32) : Option Program :=
  if p.entry.declared then none else some (p.setEntry ⟨offset, true⟩)

/-- The program of given parts: the instructions are appended in order over the pool. -/
def ofParts (instructions : List Instruction) (strings : StringPool) (entry : EntryPoint) :
    Except ProgramError Program := do
  let p ← instructions.foldlM push (withStrings strings)
  return p.setEntry entry

theorem ext {p q : Program} (hi : p.instructions = q.instructions) (hs : p.strings = q.strings)
    (he : p.entry = q.entry) : p = q := by
  obtain ⟨_, _, _, _, _, _⟩ := p
  obtain ⟨_, _, _, _, _, _⟩ := q
  subst hi hs he
  rfl

instance : DecidableEq Program := fun p q =>
  if h : p.instructions = q.instructions ∧ p.strings = q.strings ∧ p.entry = q.entry then
    .isTrue (ext h.1 h.2.1 h.2.2)
  else .isFalse (fun e => h (e ▸ ⟨rfl, rfl, rfl⟩))

end Program

end InvariantMachine

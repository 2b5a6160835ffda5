import InvariantMachine.Bytes.Reader
import InvariantMachine.Machine.Violation

/-!
# Linear memory

A fixed number of bytes. An image is loaded at address zero, and what it does not cover is zero.
-/

namespace InvariantMachine

/-- An image is larger than the memory it is loaded in. -/
structure ImageTooLarge where
  size : Nat
  capacity : Nat
deriving DecidableEq, Repr

def ImageTooLarge.message (e : ImageTooLarge) : String :=
  s!"program image of {e.size} bytes does not fit in {e.capacity} bytes of memory"

structure Memory where
  bytes : Array UInt8
deriving DecidableEq, Repr

namespace Memory

def ofSize (size : Nat) : Memory := ⟨Array.replicate size 0⟩

def size (m : Memory) : Nat := m.bytes.size

/-- Replaces the first bytes by an image. -/
def load (m : Memory) (image : List UInt8) : Except ImageTooLarge Memory :=
  if image.length ≤ m.size then
    .ok ⟨image.toArray ++ m.bytes.extract image.length m.size⟩
  else .error ⟨image.length, m.size⟩

def read (m : Memory) (address : Nat) : Except Violation UInt8 :=
  match m.bytes[address]? with
  | some b => .ok b
  | none => .error (.memoryOutOfBounds address)

def write (m : Memory) (address : Nat) (b : UInt8) : Except Violation Memory :=
  if h : address < m.bytes.size then .ok ⟨m.bytes.set address b⟩
  else .error (.memoryOutOfBounds address)

def readerAt (m : Memory) (address : Nat) : ByteReader := ⟨m.bytes, address⟩

end Memory

end InvariantMachine

import InvariantMachine.Bytes.LittleEndian

/-!
# Byte readers

A reader is a position in an array of bytes. It advances only over bytes that are there: a read
that does not fit leaves the position alone and reports it. The position may start anywhere, also
past the end.
-/

namespace InvariantMachine

/-- Why bytes could not be decoded. -/
inductive DecodeFault where
  /-- A read at this position does not fit. -/
  | truncated (position : Nat)
  /-- The operand that starts at this position has an unknown tag, or a character that is none. -/
  | invalidTag (tag : UInt8) (position : Nat)
deriving DecidableEq, Repr

structure ByteReader where
  bytes : Array UInt8
  position : Nat
deriving DecidableEq, Repr

namespace ByteReader

def ofList (bytes : List UInt8) : ByteReader := ⟨bytes.toArray, 0⟩

def rest (r : ByteReader) : List UInt8 := r.bytes.toList.drop r.position

def isAtEnd (r : ByteReader) : Bool := decide (r.bytes.size ≤ r.position)

def skip (r : ByteReader) (count : Nat) : ByteReader := { r with position := r.position + count }

end ByteReader

/-- A computation that reads bytes. A fault keeps what was read before it. -/
def Decoding (α : Type) : Type := ByteReader → Except DecodeFault α × ByteReader

namespace Decoding

variable {α β : Type}

/-- The outcome of a decoding and the reader after it. -/
def run (decoding : Decoding α) (r : ByteReader) : Except DecodeFault α × ByteReader := decoding r

instance : Monad Decoding where
  pure a := fun r => (.ok a, r)
  bind first next := fun r =>
    match first r with
    | (.ok a, r') => next a r'
    | (.error fault, r') => (.error fault, r')

def fail (fault : DecodeFault) : Decoding α := fun r => (.error fault, r)

@[simp] theorem run_pure (a : α) (r : ByteReader) : (pure a : Decoding α).run r = (.ok a, r) := rfl

@[simp] theorem run_fail (fault : DecodeFault) (r : ByteReader) :
    (fail fault : Decoding α).run r = (.error fault, r) := rfl

theorem run_bind (first : Decoding α) (next : α → Decoding β) (r : ByteReader) :
    (first >>= next).run r =
      match first.run r with
      | (.ok a, r') => (next a).run r'
      | (.error fault, r') => (.error fault, r') := rfl

def position : Decoding Nat := fun r => (.ok r.position, r)

def bytes (count : Nat) : Decoding (List UInt8) := fun r =>
  if r.position + count ≤ r.bytes.size then
    (.ok (r.bytes.extract r.position (r.position + count)).toList, r.skip count)
  else (.error (.truncated r.position), r)

/-- The next `width` bytes as a little-endian natural. -/
def natural (width : Nat) : Decoding Nat := do return ofLittleEndian (← bytes width)

def byte : Decoding UInt8 := do return UInt8.ofNat (← natural 1)

def word32 : Decoding UInt32 := do return UInt32.ofNat (← natural 4)

def word64 : Decoding UInt64 := do return UInt64.ofNat (← natural 8)

@[simp] theorem run_position (r : ByteReader) : position.run r = (.ok r.position, r) := rfl

theorem run_bytes_of_le {r : ByteReader} {count : Nat} (h : r.position + count ≤ r.bytes.size) :
    (bytes count).run r = (.ok (r.rest.take count), r.skip count) := by
  simp [run, bytes, h, ByteReader.rest, List.extract_eq_take_drop]

theorem run_bytes_of_lt {r : ByteReader} {count : Nat} (h : r.bytes.size < r.position + count) :
    (bytes count).run r = (.error (.truncated r.position), r) := by
  simp [run, bytes, Nat.not_le.mpr h]

end Decoding

end InvariantMachine

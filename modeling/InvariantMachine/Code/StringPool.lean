import InvariantMachine.Code.Capacity

/-!
# String pools

The string literals of a program, addressed by the order in which they came. Equal texts are not
shared. A pool never holds more than its two limits allow, and interning past one of them is
refused.
-/

namespace InvariantMachine

def maxStrings : Nat := 4096

/-- The most UTF-8 bytes of all strings of a pool together. -/
def maxStringBytes : Nat := 65536

/-- The UTF-8 bytes of texts together. -/
def totalBytes : List String → Nat
  | [] => 0
  | text :: rest => text.utf8ByteSize + totalBytes rest

theorem totalBytes_append (xs ys : List String) :
    totalBytes (xs ++ ys) = totalBytes xs + totalBytes ys := by
  induction xs with
  | nil => simp [totalBytes]
  | cons x xs ih => simp [totalBytes, ih, Nat.add_assoc]

structure StringPool where
  strings : Array String
  byteSize : Nat
  byteSize_eq : byteSize = totalBytes strings.toList
  size_le : strings.size ≤ maxStrings
  byteSize_le : byteSize ≤ maxStringBytes

namespace StringPool

def empty : StringPool := ⟨#[], 0, rfl, by decide, by decide⟩

instance : Inhabited StringPool := ⟨empty⟩

def size (pool : StringPool) : Nat := pool.strings.size

def isEmpty (pool : StringPool) : Bool := pool.strings.isEmpty

def toList (pool : StringPool) : List String := pool.strings.toList

def get? (pool : StringPool) (index : UInt32) : Option String := pool.strings[index.toNat]?

/-- Appends a text; its index is the former size. The count of strings is checked first. -/
def intern (pool : StringPool) (text : String) : Except CapacityExceeded (UInt32 × StringPool) :=
  if hcount : maxStrings ≤ pool.strings.size then
    .error ⟨.stringPool, maxStrings⟩
  else if hbytes : maxStringBytes < pool.byteSize + text.utf8ByteSize then
    .error ⟨.stringPoolBytes, maxStringBytes⟩
  else
    .ok (UInt32.ofNat pool.strings.size,
      { strings := pool.strings.push text
        byteSize := pool.byteSize + text.utf8ByteSize
        byteSize_eq := by simp [pool.byteSize_eq, totalBytes_append, totalBytes]
        size_le := by rw [Array.size_push]; omega
        byteSize_le := by omega })

def ofList (texts : List String) : Except CapacityExceeded StringPool :=
  texts.foldlM (fun pool text => do return (← pool.intern text).2) empty

theorem ext {p q : StringPool} (h : p.strings = q.strings) : p = q := by
  obtain ⟨_, _, hp, _, _⟩ := p
  obtain ⟨_, _, hq, _, _⟩ := q
  subst h hp hq
  rfl

instance : DecidableEq StringPool := fun p q =>
  if h : p.strings = q.strings then .isTrue (ext h) else .isFalse (fun e => h (e ▸ rfl))

end StringPool

end InvariantMachine

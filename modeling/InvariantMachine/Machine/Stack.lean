import InvariantMachine.Code.Capacity

/-!
# Bounded stacks

A stack that never grows past its capacity. Its entries are listed from the top down.
-/

namespace InvariantMachine

structure BoundedStack (α : Type) where
  /-- The entries, top first. -/
  items : List α
  capacity : Nat
  length_le : items.length ≤ capacity
deriving DecidableEq

namespace BoundedStack

variable {α : Type}

def ofCapacity (capacity : Nat) : BoundedStack α := ⟨[], capacity, Nat.zero_le _⟩

def size (s : BoundedStack α) : Nat := s.items.length

def isEmpty (s : BoundedStack α) : Bool := s.items.isEmpty

def isFull (s : BoundedStack α) : Bool := decide (s.capacity ≤ s.size)

/-- The entries from the bottom up. -/
def toList (s : BoundedStack α) : List α := s.items.reverse

def push (s : BoundedStack α) (a : α) : Except CapacityExceeded (BoundedStack α) :=
  if h : s.items.length < s.capacity then .ok ⟨a :: s.items, s.capacity, h⟩
  else .error ⟨.stack, s.capacity⟩

def peek? (s : BoundedStack α) : Option α := s.items.head?

/-- The entry at a depth below the top, which is at depth zero. -/
def peekAt? (s : BoundedStack α) (depth : Nat) : Option α := s.items[depth]?

def pop? (s : BoundedStack α) : Option (α × BoundedStack α) :=
  match h : s.items with
  | [] => none
  | a :: rest =>
    some (a, ⟨rest, s.capacity, by
      have := s.length_le
      rw [h, List.length_cons] at this
      omega⟩)

/-- Exchanges the top entry and the entry at a depth below it. -/
def swapWithTop? (s : BoundedStack α) (depth : Nat) : Option (BoundedStack α) :=
  match s.peek?, s.peekAt? depth with
  | some top, some other =>
    some ⟨(s.items.set 0 other).set depth top, s.capacity, by simpa using s.length_le⟩
  | _, _ => none

def clear (s : BoundedStack α) : BoundedStack α := ofCapacity s.capacity

/-- Replaces the entry at a height above the bottom, if there is one. -/
def set? (s : BoundedStack α) (height : Nat) (a : α) : Option (BoundedStack α) :=
  if height < s.items.length then
    some ⟨s.items.set (s.items.length - 1 - height) a, s.capacity, by simpa using s.length_le⟩
  else none

theorem ext {s t : BoundedStack α} (hi : s.items = t.items) (hc : s.capacity = t.capacity) :
    s = t := by
  obtain ⟨_, _, _⟩ := s
  obtain ⟨_, _, _⟩ := t
  subst hi hc
  rfl

end BoundedStack

end InvariantMachine

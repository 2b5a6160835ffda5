/-!
# Capacities

The bounded containers of the library, by the names that messages give them.
-/

namespace InvariantMachine

inductive Container where
  | stack
  | stringPool
  | stringPoolBytes
  | program
  | basins
deriving DecidableEq, Repr

def Container.name : Container → String
  | stack => "stack"
  | stringPool => "string pool"
  | stringPoolBytes => "string pool bytes"
  | program => "program"
  | basins => "basin vector"

/-- A bounded container refused to grow. -/
structure CapacityExceeded where
  container : Container
  capacity : Nat
deriving DecidableEq, Repr

def CapacityExceeded.message (e : CapacityExceeded) : String :=
  s!"{e.container.name} capacity exceeded (capacity {e.capacity})"

end InvariantMachine

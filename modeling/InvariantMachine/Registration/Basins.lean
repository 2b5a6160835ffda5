import InvariantMachine.Code.Capacity
import InvariantMachine.Number.Binary64

/-!
# Basin distributions

A distribution over at most sixty-four basins, each with a probability and a weight. Nothing is
normalised: that the probabilities sum to one is for the verifier to check.
-/

namespace InvariantMachine

def maxBasins : Nat := 64

structure Basin where
  probability : Binary64
  weight : Binary64
deriving DecidableEq, Repr, Inhabited

structure Basins where
  toList : List Basin
  length_le : toList.length ≤ maxBasins
deriving DecidableEq

namespace Basins

def exceeded : CapacityExceeded := ⟨.basins, maxBasins⟩

def empty : Basins := ⟨[], by decide⟩

instance : Inhabited Basins := ⟨empty⟩

def size (b : Basins) : Nat := b.toList.length

def isEmpty (b : Basins) : Bool := b.toList.isEmpty

def push (b : Basins) (basin : Basin) : Except CapacityExceeded Basins :=
  if h : b.size < maxBasins then
    .ok ⟨b.toList ++ [basin], by rw [List.length_append]; exact h⟩
  else .error exceeded

/-- Appends basins one by one up to the first that does not fit. -/
def pushAll (b : Basins) : List Basin → Except CapacityExceeded Unit × Basins
  | [] => (.ok (), b)
  | basin :: rest =>
    match b.push basin with
    | .error e => (.error e, b)
    | .ok b' => b'.pushAll rest

/-- Replaces the basin at an index; an index past the end changes nothing. -/
def set (b : Basins) (index : Nat) (basin : Basin) : Basins :=
  ⟨b.toList.set index basin, by simpa using b.length_le⟩

/-- Empties the distribution and appends the basins one by one, once their number is accepted. -/
def refill (b : Basins) (basins : List Basin) : Except CapacityExceeded Unit × Basins :=
  if maxBasins < basins.length then (.error exceeded, b) else empty.pushAll basins

/-- One of `n` equally probable basins. Their weights are `1`, `1.1`, `1.2` and so on. -/
def equalBasin (n index : Nat) : Basin := ⟨1 / Binary64.ofNat n, 1 + 0.1 * Binary64.ofNat index⟩

/-- Appends `left` of `n` equally probable basins, from an index on. -/
def pushEqual (n index : Nat) (b : Basins) : Nat → Except CapacityExceeded Basins
  | 0 => .ok b
  | left + 1 =>
    match b.push (equalBasin n index) with
    | .error e => .error e
    | .ok b' => b'.pushEqual n (index + 1) left

def uniform (n : Nat) : Except CapacityExceeded Basins := empty.pushEqual n 0 n

def probabilitySum (b : Basins) : Binary64 := Binary64.sum (b.toList.map (·.probability))

/-- The Shannon entropy in bits. Basins without positive probability do not count. -/
def entropy (b : Basins) : Binary64 :=
  Binary64.sum ((b.toList.filter fun basin => (0 : Binary64).lt basin.probability).map
    fun basin => -basin.probability * basin.probability.log2)

/-- The weights weighted by the probabilities. -/
def meanWeight (b : Basins) : Binary64 :=
  Binary64.sum (b.toList.map fun basin => basin.probability * basin.weight)

/-- The distribution that a machine starts with: four equally probable basins. -/
def initial : Basins := (uniform 4).toOption.getD empty

end Basins

end InvariantMachine

import InvariantMachine.Registration.Activity
import InvariantMachine.Registration.Basins

/-!
# Registration state

The efficiency of the last instruction, the proper time that efficiency leaves, and the complexity
of the basin distribution as it was last committed. Efficiency depends on the last activity alone,
never on what went before.
-/

namespace InvariantMachine

def etaCeiling : Binary64 := 0.99

/-- What a committed complexity is counted in. -/
def complexityScale : Binary64 := 1000

/-- The efficiency of an activity: a weighted sum on top of a base, kept between zero and the
greatest efficiency. A sum that is no number counts as zero. -/
def Activity.eta (a : Activity) : Binary64 :=
  let eta : Binary64 := 0.1 + 0.35 * a.gate + 0.15 * a.memory + 0.4 * a.branch
  if eta.isNaN then 0
  else if eta.lt 0 then 0
  else if etaCeiling.lt eta then etaCeiling
  else eta

/-- The efficiency that a complexity `c` allows: `2c / (2c + 1)`. -/
def etaBound (c : Binary64) : Binary64 := (2 * c) / (2 * c + 1)

structure Registration where
  eta : Binary64
  complexity : Binary64
  properTime : Binary64
  basins : Basins
deriving DecidableEq

namespace Registration

def initial : Registration := ⟨0, 0, 0, .initial⟩

instance : Inhabited Registration := ⟨initial⟩

/-- The efficiency that the committed complexity allows. -/
def bound (r : Registration) : Binary64 := etaBound r.complexity

def observe (r : Registration) (a : Activity) : Registration := { r with eta := a.eta }

/-- Proper time passes by what efficiency leaves of one. -/
def advance (r : Registration) : Registration :=
  { r with properTime := r.properTime + (1 - r.eta) }

/-- Takes the complexity of the distribution: entropy by mean weight by scale. -/
def commit (r : Registration) : Registration :=
  { r with complexity := r.basins.entropy * r.basins.meanWeight * complexityScale }

/-- Sets the complexity without committing. -/
def withComplexity (r : Registration) (c : Binary64) : Registration := { r with complexity := c }

def withBasins (r : Registration) (b : Basins) : Registration := { r with basins := b }

end Registration

end InvariantMachine

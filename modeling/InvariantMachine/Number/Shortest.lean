import InvariantMachine.Number.Binary64

/-!
# Shortest decimal digits

The numbers that round to a given binary64 form an interval around it, whose ends belong to it
exactly when the mantissa is even. The shortest decimal that reads back is a point of the
coarsest grid of multiples of a power of ten that has a point in this interval; if the grid has
two, the nearer one is taken.
-/

namespace InvariantMachine

/-- What becomes of a number halfway between two candidates. -/
inductive Tie where
  | toEven
  | away
deriving DecidableEq, Repr

/-- A decimal `digits · 10 ^ exponent`. -/
structure Decimal where
  digits : Nat
  exponent : Int
deriving DecidableEq, Repr

namespace Binary64

/-- The interval of the magnitudes that round to a finite nonzero number, and the magnitude
itself, as numerators `lower ≤ middle ≤ upper` over one denominator. -/
structure RoundingInterval where
  lower : Nat
  middle : Nat
  upper : Nat
  den : Nat
  closed : Bool
deriving Repr

/-- Below a power of two the neighbours lie half as far apart, so the interval reaches half as
far down. -/
def roundingInterval (x : Binary64) : RoundingInterval :=
  let m := x.mantissa
  let e := x.exponent - 2
  let below := if x.fraction = 0 ∧ 1 < x.exponentField then 1 else 2
  let scale := e.toNat
  ⟨(4 * m - below) <<< scale, (4 * m) <<< scale, (4 * m + 2) <<< scale, 1 <<< (-e).toNat,
    m % 2 == 0⟩

namespace RoundingInterval

/-- The same interval counted in multiples of `10 ^ k`. -/
def inGrid (i : RoundingInterval) (k : Int) : RoundingInterval :=
  let up := tenTo (-k).toNat
  ⟨i.lower * up, i.middle * up, i.upper * up, i.den * tenTo k.toNat, i.closed⟩

def contains (i : RoundingInterval) (d : Nat) : Bool :=
  if i.closed then decide (i.lower ≤ d * i.den) && decide (d * i.den ≤ i.upper)
  else decide (i.lower < d * i.den) && decide (d * i.den < i.upper)

/-- The natural inside the interval that is nearest to its middle, if there is one. Only the two
naturals around the middle can be. -/
def nearestInside (i : RoundingInterval) (tie : Tie) : Option Nat :=
  let d := i.middle / i.den
  match i.contains d, i.contains (d + 1) with
  | true, false => some d
  | false, true => some (d + 1)
  | false, false => none
  | true, true =>
    let rest := 2 * (i.middle % i.den)
    if rest < i.den then some d
    else if i.den < rest then some (d + 1)
    else match tie with
      | .away => some (d + 1)
      | .toEven => some (d + d % 2)

/-- Tries the grids `10 ^ k`, `10 ^ (k - 1)`, … in turn. -/
def search (i : RoundingInterval) (tie : Tie) : Nat → Int → Decimal
  | 0, _ => ⟨0, 0⟩
  | steps + 1, k =>
    match (i.inGrid k).nearestInside tie with
    | some (d + 1) => ⟨d + 1, k⟩
    | _ => i.search tie steps (k - 1)

end RoundingInterval

/-- A power of ten above a finite nonzero number. -/
def decadeAbove (x : Binary64) : Int :=
  ((x.mantissa.log2 : Int) + x.exponent + 1) * 30103 / 100000 + 1

/-- The shortest decimal that reads back as the magnitude of `x`, and of those the nearest to it.
Seventeen digits always suffice, so the search below `decadeAbove` is long enough. -/
def shortest (x : Binary64) (tie : Tie) : Decimal :=
  x.roundingInterval.search tie 20 x.decadeAbove

end Binary64

end InvariantMachine

/-!
# Ranges of characters

A class of characters is a table of closed ranges of code points, in ascending order.
-/

namespace InvariantMachine

abbrev CodePointRanges := Array (Nat × Nat)

def CodePointRanges.covers (ranges : CodePointRanges) (c : Char) : Bool :=
  ranges.any fun (first, last) => first ≤ c.toNat && c.toNat ≤ last

end InvariantMachine

/-!
# Binary64 words

A binary64 number is held as its 64-bit word, so that every bit pattern, each NaN included, is
a value of its own and equality of numbers is equality of words. A finite word denotes
`± mantissa · 2 ^ exponent` with natural mantissa. Sums, products, quotients, remainders and
truncations are computed exactly on these parts and rounded once, so they can be reasoned about;
only the logarithm is left to the platform.
-/

namespace InvariantMachine

/-- An IEEE 754 binary64 number, held as its 64-bit word. -/
structure Binary64 where
  bits : UInt64
deriving DecidableEq, Inhabited, Repr

namespace Binary64

def isNegative (x : Binary64) : Bool := decide (0x8000000000000000 ≤ x.bits.toNat)

def exponentField (x : Binary64) : Nat := x.bits.toNat / 0x10000000000000 % 2048

def fraction (x : Binary64) : Nat := x.bits.toNat % 0x10000000000000

def isNaN (x : Binary64) : Bool := x.exponentField == 2047 && x.fraction != 0

def isInfinite (x : Binary64) : Bool := x.exponentField == 2047 && x.fraction == 0

def isFinite (x : Binary64) : Bool := x.exponentField != 2047

def isZero (x : Binary64) : Bool := x.exponentField == 0 && x.fraction == 0

/-- The natural mantissa of a finite number: the hidden bit counts in the normal range. -/
def mantissa (x : Binary64) : Nat :=
  if x.exponentField = 0 then x.fraction else x.fraction + 0x10000000000000

/-- The power of two that the mantissa of a finite number is counted in. -/
def exponent (x : Binary64) : Int := (max x.exponentField 1 : Nat) - 1075

/-- A finite number counted in `2 ^ e`, which is not above its own exponent. -/
def scaledTo (x : Binary64) (e : Int) : Int :=
  let magnitude : Nat := x.mantissa <<< (x.exponent - e).toNat
  if x.isNegative then -(magnitude : Int) else magnitude

def signBit (negative : Bool) : UInt64 := if negative then 0x8000000000000000 else 0

def infinity (negative : Bool) : Binary64 := ⟨0x7ff0000000000000 ||| signBit negative⟩

/-- The quiet NaN without payload. -/
def nan : Binary64 := ⟨0x7ff8000000000000⟩

/-- Turns the sign bit over, that of a NaN too. -/
def negate (x : Binary64) : Binary64 := ⟨x.bits ^^^ 0x8000000000000000⟩

def tenTo (n : Nat) : Nat := Nat.pow 10 n

/-- The quotient rounded to the nearest natural, a half to the even neighbour. -/
def roundQuotient (num den : Nat) : Nat :=
  let quotient := num / den
  let rest := num % den
  if 2 * rest < den then quotient
  else if den < 2 * rest then quotient + 1
  else quotient + quotient % 2

/-- The number nearest to `± num / den`, a half to the even mantissa. Past the finite range the
result is an infinity, and below the least subnormal it is a signed zero. -/
def nearest (negative : Bool) (num den : Nat) : Binary64 :=
  if num = 0 then ⟨signBit negative⟩
  else
    let scaled (e : Int) : Nat × Nat :=
      if 0 ≤ e then (num, den <<< e.toNat) else (num <<< (-e).toNat, den)
    let lower : Int := (num.log2 : Int) - den.log2 - 53
    let (n₀, d₀) := scaled lower
    let e := max (if d₀ <<< 53 ≤ n₀ then lower + 1 else lower) (-1074)
    let (n, d) := scaled e
    let word := (e + 1074).toNat <<< 52 + roundQuotient n d
    if 0x7ff0000000000000 ≤ word then infinity negative
    else ⟨UInt64.ofNat word ||| signBit negative⟩

/-- The number nearest to `± m · 2 ^ e`. -/
def ofScaled (negative : Bool) (m : Nat) (e : Int) : Binary64 :=
  if 0 ≤ e then nearest negative (m <<< e.toNat) 1 else nearest negative m (1 <<< (-e).toNat)

/-- The number nearest to `± m · 10 ^ e`. -/
def ofDecimal (negative : Bool) (m : Nat) (e : Int) : Binary64 :=
  if 0 ≤ e then nearest negative (m * tenTo e.toNat) 1
  else nearest negative m (tenTo (-e).toNat)

def ofNat (n : Nat) : Binary64 := nearest false n 1

/-- The number nearest to an integer, a half to the even mantissa. -/
def ofInt (i : Int) : Binary64 := nearest (decide (i < 0)) i.natAbs 1

instance : NatCast Binary64 := ⟨ofNat⟩
instance (n : Nat) : OfNat Binary64 n := ⟨ofNat n⟩
instance : OfScientific Binary64 :=
  ⟨fun m down e => ofDecimal false m (if down then -(e : Int) else e)⟩
instance : Neg Binary64 := ⟨negate⟩

/-- The exact sum, rounded. A sum that cancels is positive zero unless both sides are negative. -/
def add (x y : Binary64) : Binary64 :=
  if x.isNaN || y.isNaN then nan
  else if x.isInfinite then
    if y.isInfinite && x.isNegative != y.isNegative then nan else x
  else if y.isInfinite then y
  else
    let e := min x.exponent y.exponent
    let sum := x.scaledTo e + y.scaledTo e
    ofScaled (if sum = 0 then x.isNegative && y.isNegative else decide (sum < 0)) sum.natAbs e

def mul (x y : Binary64) : Binary64 :=
  let negative := x.isNegative != y.isNegative
  if x.isNaN || y.isNaN then nan
  else if x.isInfinite then if y.isZero then nan else infinity negative
  else if y.isInfinite then if x.isZero then nan else infinity negative
  else ofScaled negative (x.mantissa * y.mantissa) (x.exponent + y.exponent)

def div (x y : Binary64) : Binary64 :=
  let negative := x.isNegative != y.isNegative
  if x.isNaN || y.isNaN then nan
  else if x.isInfinite then if y.isInfinite then nan else infinity negative
  else if y.isInfinite then ⟨signBit negative⟩
  else if y.isZero then if x.isZero then nan else infinity negative
  else
    let e := x.exponent - y.exponent
    nearest negative (x.mantissa <<< e.toNat) (y.mantissa <<< (-e).toNat)

instance : Add Binary64 := ⟨add⟩
instance : Sub Binary64 := ⟨fun x y => x + -y⟩
instance : Mul Binary64 := ⟨mul⟩
instance : Div Binary64 := ⟨div⟩

def abs (x : Binary64) : Binary64 := ⟨x.bits &&& 0x7fffffffffffffff⟩

/-- The binary logarithm as the platform computes it. -/
def log2 (x : Binary64) : Binary64 := ⟨(Float.ofBits x.bits).log2.toBits⟩

/-- The place of a number on the line: words of the same sign are in the order of their numbers,
and the two zeros share a place. -/
def place (x : Binary64) : Int :=
  if x.isNegative then -((x.bits.toNat : Int) - 0x8000000000000000) else x.bits.toNat

/-- Equality as numbers: the two zeros are equal, a NaN equals nothing. -/
def numEq (x y : Binary64) : Bool := !x.isNaN && !y.isNaN && x.place == y.place

/-- Order as numbers; false when either side is a NaN. -/
def lt (x y : Binary64) : Bool := !x.isNaN && !y.isNaN && decide (x.place < y.place)

/-- Order as numbers; false when either side is a NaN. -/
def le (x y : Binary64) : Bool := !x.isNaN && !y.isNaN && decide (x.place ≤ y.place)

/-- The order of two numbers, none when either is a NaN. -/
def compare? (x y : Binary64) : Option Ordering :=
  if x.lt y then some .lt
  else if x.numEq y then some .eq
  else if y.lt x then some .gt
  else none

/-- Sums run from left to right and start at negative zero, which is the sum of nothing. -/
def sum (xs : List Binary64) : Binary64 := xs.foldl (· + ·) (-0)

/-- What is left of `x` after taking away the multiple of `y` that division toward zero counts,
with the sign of `x`. Nothing is rounded. -/
def remainder (x y : Binary64) : Binary64 :=
  if x.isNaN || y.isNaN || x.isInfinite || y.isZero then nan
  else if y.isInfinite then x
  else
    let e := min x.exponent y.exponent
    let rest := x.mantissa <<< (x.exponent - e).toNat % y.mantissa <<< (y.exponent - e).toNat
    ofScaled x.isNegative rest e

/-- The whole part of the magnitude of a finite number. -/
def wholePart (x : Binary64) : Nat :=
  if 0 ≤ x.exponent then x.mantissa <<< x.exponent.toNat
  else x.mantissa >>> (-x.exponent).toNat

/-- Truncation toward zero. Past the range of the integers the result is the nearest end of the
range, and a NaN gives zero. -/
def toInt64 (x : Binary64) : Int64 :=
  if x.isNaN then 0
  else
    let magnitude := if x.isInfinite then 0x8000000000000000 else min x.wholePart 0x8000000000000000
    if x.isNegative then Int64.ofInt (-(magnitude : Int))
    else Int64.ofInt (min (magnitude : Int) 0x7fffffffffffffff)

end Binary64

end InvariantMachine

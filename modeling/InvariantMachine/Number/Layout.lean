import InvariantMachine.Number.Shortest

/-!
# Decimal layouts of binary64 numbers

A layout decides how the shortest digits of a number are written: which magnitudes are
positional, whether a whole number keeps a decimal, and how an exponent looks. The library writes
numbers in three layouts and, where a fixed number of decimals is wanted, from the exact value.
-/

namespace InvariantMachine

/-- The decisions of a decimal format. The exponent of a number is that of its first digit. -/
structure DecimalLayout where
  /-- Which exponents are written without an exponent part. -/
  positional : Int → Bool
  /-- What follows a whole number in positional form. -/
  wholeSuffix : String
  /-- What stands before a nonnegative exponent. -/
  plusMark : String
  tie : Tie
  nan : String
  infinity : String
  negativeInfinity : String

namespace DecimalLayout

/-- Every magnitude is written in full, and a whole number has no decimals. -/
def plain : DecimalLayout where
  positional := fun _ => true
  wholeSuffix := ""
  plusMark := ""
  tie := .away
  nan := "NaN"
  infinity := "inf"
  negativeInfinity := "-inf"

/-- Listings write magnitudes from `1e-4` up to `1e16` in full, with at least one decimal. -/
def listing : DecimalLayout where
  positional := fun e => decide (-4 ≤ e) && decide (e ≤ 15)
  wholeSuffix := ".0"
  plusMark := ""
  tie := .away
  nan := "NaN"
  infinity := "inf"
  negativeInfinity := "-inf"

/-- Documents write magnitudes from `1e-5` up to `1e16` in full, sign every exponent, and have no
text for a number that is not finite. -/
def document : DecimalLayout where
  positional := fun e => decide (-5 ≤ e) && decide (e ≤ 15)
  wholeSuffix := ".0"
  plusMark := "+"
  tie := .toEven
  nan := "null"
  infinity := "null"
  negativeInfinity := "null"

def zeros (n : Nat) : List Char := List.replicate n '0'

/-- Writes `0.digits · 10 ^ point` in full. -/
def positionalText (layout : DecimalLayout) (digits : List Char) (point : Int) : String :=
  if point ≤ 0 then String.ofList (['0', '.'] ++ zeros (-point).toNat ++ digits)
  else
    let whole := point.toNat
    if whole < digits.length then
      String.ofList (digits.take whole ++ ['.'] ++ digits.drop whole)
    else String.ofList (digits ++ zeros (whole - digits.length)) ++ layout.wholeSuffix

/-- Writes `0.digits · 10 ^ point` with one digit before the decimals and an exponent part. -/
def exponentText (layout : DecimalLayout) (digits : List Char) (point : Int) : String :=
  let decimals := digits.drop 1
  let e := point - 1
  String.ofList (digits.take 1) ++ (if decimals.isEmpty then "" else "." ++ String.ofList decimals)
    ++ "e" ++ (if e < 0 then "-" else layout.plusMark) ++ toString e.natAbs

def magnitudeText (layout : DecimalLayout) (x : Binary64) : String :=
  if x.mantissa = 0 then "0" ++ layout.wholeSuffix
  else
    let decimal := x.shortest layout.tie
    let digits := (toString decimal.digits).toList
    let point := decimal.exponent + digits.length
    if layout.positional (point - 1) then layout.positionalText digits point
    else layout.exponentText digits point

/-- The text of a number in a layout. A finite number shows its sign bit, that of a zero too. -/
def write (layout : DecimalLayout) (x : Binary64) : String :=
  if x.isNaN then layout.nan
  else if x.isInfinite then if x.isNegative then layout.negativeInfinity else layout.infinity
  else (if x.isNegative then "-" else "") ++ layout.magnitudeText x

end DecimalLayout

namespace Binary64

/-- The text of a number with a fixed count of decimals, rounded from the exact value; a half goes
to the even neighbour. -/
def fixed (x : Binary64) (places : Nat) : String :=
  if x.isNaN then "NaN"
  else
    let sign := if x.isNegative then "-" else ""
    if x.isInfinite then sign ++ "inf"
    else
      let units := roundQuotient (x.mantissa <<< x.exponent.toNat * tenTo places)
        (1 <<< (-x.exponent).toNat)
      let digits := (toString units).toList
      let padded := List.replicate (places + 1 - digits.length) '0' ++ digits
      let whole := padded.length - places
      sign ++ String.ofList (padded.take whole) ++
        (if places = 0 then "" else "." ++ String.ofList (padded.drop whole))

end Binary64

end InvariantMachine

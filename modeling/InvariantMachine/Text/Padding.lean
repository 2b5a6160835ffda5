/-!
# Padded numbers

Naturals in fixed-width fields, as messages and listings write them. A number that is wider than
its field is written in full.
-/

namespace InvariantMachine

/-- A natural in capital hexadecimal digits, with zeros before it up to the width. -/
def paddedHex (width n : Nat) : String :=
  let digits := (Nat.toDigits 16 n).map Char.toUpper
  String.ofList (List.replicate (width - digits.length) '0' ++ digits)

/-- A natural in decimal digits, with zeros before it up to the width. -/
def zeroPadded (width n : Nat) : String :=
  let digits := Nat.toDigits 10 n
  String.ofList (List.replicate (width - digits.length) '0' ++ digits)

/-- A natural in decimal digits, with spaces after it up to the width. -/
def leftAligned (width n : Nat) : String :=
  let digits := Nat.toDigits 10 n
  String.ofList (digits ++ List.replicate (width - digits.length) ' ')

end InvariantMachine

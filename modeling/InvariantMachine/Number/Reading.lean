import InvariantMachine.Number.Binary64

/-!
# Reading numbers

Integers are read from a whole text of digits in a base, with no bound on their count; a range is
checked on the value. Decimal numbers are read to the nearest binary64 and may name the infinities
and NaN in any letter case.
-/

namespace InvariantMachine

/-- The value of a digit in a base of at most sixteen. -/
def digitValue? (base : Nat) (c : Char) : Option Nat :=
  let value :=
    if '0' ≤ c ∧ c ≤ '9' then some (c.toNat - '0'.toNat)
    else if 'a' ≤ c ∧ c ≤ 'f' then some (c.toNat - 'a'.toNat + 10)
    else if 'A' ≤ c ∧ c ≤ 'F' then some (c.toNat - 'A'.toNat + 10)
    else none
  value.filter (· < base)

/-- The natural that a nonempty text of digits denotes. -/
def readDigits? (base : Nat) : List Char → Option Nat
  | [] => none
  | c :: cs => (c :: cs).foldlM (fun n d => (digitValue? base d).map (base * n + ·)) 0

/-- A natural up to `most`, with an optional plus sign. -/
def readNat? (most : Nat) (text : List Char) : Option Nat :=
  let digits := match text with
    | '+' :: rest => rest
    | _ => text
  (readDigits? 10 digits).filter (· ≤ most)

/-- The least and the greatest integer of 64 bits. -/
def leastInt : Int := -0x8000000000000000

def greatestInt : Int := 0x7fffffffffffffff

/-- An integer between `least` and `most` in a base, with an optional sign. -/
def readInt? (base : Nat) (least most : Int) (text : List Char) : Option Int :=
  let value := match text with
    | '+' :: rest => (readDigits? base rest).map fun n => (n : Int)
    | '-' :: rest => (readDigits? base rest).map fun n => -(n : Int)
    | _ => (readDigits? base text).map fun n => (n : Int)
  value.filter fun i => least ≤ i && i ≤ most

/-- An ASCII capital as its small letter; every other character as itself. -/
def asciiLower (c : Char) : Char :=
  if 'A' ≤ c ∧ c ≤ 'Z' then Char.ofNat (c.toNat + 32) else c

def asciiLowerAll (text : String) : String := String.ofList (text.toList.map asciiLower)

def isDecimalDigit (c : Char) : Bool := (digitValue? 10 c).isSome

/-- The size of an exponent of nonempty digits. The digits behind the first that takes it to
65536 or above are not counted. -/
def readExponentDigits? : List Char → Option Nat
  | [] => none
  | c :: cs => (c :: cs).foldlM
      (fun n d => (digitValue? 10 d).map fun v => if n < 0x10000 then 10 * n + v else n) 0

/-- An optional exponent part, which must be the whole text. -/
def readExponent? : List Char → Option Int
  | [] => some 0
  | mark :: rest =>
    if mark = 'e' ∨ mark = 'E' then
      match rest with
      | '+' :: digits => (readExponentDigits? digits).map fun n => (n : Int)
      | '-' :: digits => (readExponentDigits? digits).map fun n => -(n : Int)
      | digits => (readExponentDigits? digits).map fun n => (n : Int)
    else none

namespace Binary64

/-- The number nearest to `± m · 10 ^ e`, where `m` has `count` digits. Magnitudes that no exact
computation is needed for are settled by the position of the first digit. -/
def ofDecimalClamped (negative : Bool) (count m : Nat) (e : Int) : Binary64 :=
  if m = 0 then ⟨signBit negative⟩
  else
    let point : Int := count + e
    if 400 < point then infinity negative
    else if point < -400 then ⟨signBit negative⟩
    else ofDecimal negative m e

def readMagnitude? (negative : Bool) (text : List Char) : Option Binary64 := do
  let whole := text.takeWhile isDecimalDigit
  let (decimals, rest) := match text.dropWhile isDecimalDigit with
    | '.' :: rest => (rest.takeWhile isDecimalDigit, rest.dropWhile isDecimalDigit)
    | rest => ([], rest)
  let digits := whole ++ decimals
  let significand ← readDigits? 10 digits
  let exponent ← readExponent? rest
  let count := (digits.dropWhile (· = '0')).length
  return ofDecimalClamped negative count significand (exponent - decimals.length)

def readName? (negative : Bool) (text : List Char) : Option Binary64 :=
  let name := String.ofList (text.map asciiLower)
  if name = "inf" ∨ name = "infinity" then some (infinity negative)
  else if name = "nan" then some (if negative then nan.negate else nan)
  else none

/-- A decimal number: an optional sign, digits with an optional point before, between or after
them, and an optional exponent; or the name of an infinity or of NaN. -/
def read? (text : List Char) : Option Binary64 :=
  let (negative, body) := match text with
    | '-' :: rest => (true, rest)
    | '+' :: rest => (false, rest)
    | _ => (false, text)
  (readMagnitude? negative body).or (readName? negative body)

end Binary64

end InvariantMachine

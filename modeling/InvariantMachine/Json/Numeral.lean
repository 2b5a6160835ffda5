import InvariantMachine.Number.Reading

/-!
# Numbers in JSON texts

A number keeps at most as many digits as fit in 64 bits; the digits after them only move the
decimal point, and those of a fraction are dropped. The digits are then scaled by powers of ten in
binary64, so a long number can come out a unit away from the nearest. A whole number that needs no
scaling stays exact.
-/

namespace InvariantMachine.Json

/-- A number as it was read. -/
inductive Numeral where
  | natural (value : Nat)
  | negative (value : Int)
  | float (value : Binary64)
deriving DecidableEq, Repr

namespace Numeral

def greatestSignificand : Nat := 0xffffffffffffffff

def greatestExponent : Nat := 0x7fffffff

/-- The widest step of scaling. -/
def widestDecade : Nat := 308

/-- Scales by a power of ten in steps that are themselves finite. A number past the finite range
is refused; below it, scaling ends at zero. -/
def scale : (steps : Nat) → Binary64 → Int → Option Binary64
  | 0, x, _ => some x
  | steps + 1, x, e =>
    if e.natAbs ≤ widestDecade then
      let power := Binary64.ofDecimal false 1 e.natAbs
      if 0 ≤ e then
        let scaled := x * power
        if scaled.isInfinite then none else some scaled
      else some (x / power)
    else if x.numEq 0 then some x
    else if 0 ≤ e then none
    else scale steps (x / Binary64.ofDecimal false 1 widestDecade) (e + widestDecade)

/-- The number `± significand · 10 ^ e`. Four steps bring every significand down to zero. -/
def ofParts (negative : Bool) (significand : Nat) (e : Int) : Option Numeral :=
  (scale 4 (.ofNat significand) e).map fun x => float (if negative then -x else x)

/-- A whole number. Zero with a sign and what the integers of 64 bits do not hold are floats. -/
def whole (negative : Bool) (significand : Nat) : Numeral :=
  if negative then
    if 0 < significand ∧ significand ≤ 0x8000000000000000 then .negative (-(significand : Int))
    else float (-(Binary64.ofNat significand))
  else natural significand

/-- The digits that a text begins with, and what follows them. -/
def digits (cs : List Char) : List Char × List Char :=
  (cs.takeWhile isDecimalDigit, cs.dropWhile isDecimalDigit)

/-- The number whose exponent part follows its mark. -/
def readExponent (negative : Bool) (significand : Nat) (start : Int) (cs : List Char) :
    Option (Numeral × List Char) := do
  let (down, body) := match cs with
    | '+' :: rest => (false, rest)
    | '-' :: rest => (true, rest)
    | _ => (false, cs)
  let (run, rest) := digits body
  let e ← readDigits? 10 run
  if greatestExponent < e then
    if significand ≠ 0 ∧ !down then none
    else some (float ⟨Binary64.signBit negative⟩, rest)
  else
    let x ← ofParts negative significand (if down then start - e else start + e)
    some (x, rest)

/-- The number before an optional exponent part. -/
def readScaled (negative : Bool) (significand : Nat) (e : Int) (cs : List Char) :
    Option (Numeral × List Char) :=
  match cs with
  | c :: rest =>
    if c = 'e' ∨ c = 'E' then readExponent negative significand e rest
    else (ofParts negative significand e).map fun x => (x, cs)
  | [] => (ofParts negative significand e).map fun x => (x, cs)

/-- Whether one more digit would not fit in the significand. -/
def overflows (significand digit : Nat) : Bool :=
  decide (greatestSignificand < 10 * significand + digit)

/-- The number whose decimals follow its point; `count` of them have been read. -/
def readDecimals (negative : Bool) (significand : Nat) (e : Int) (count : Nat) :
    List Char → Option (Numeral × List Char)
  | [] => if count = 0 then none else readScaled negative significand (e - count) []
  | c :: cs =>
    match digitValue? 10 c with
    | some d =>
      if overflows significand d then
        readScaled negative significand (e - count) (digits (c :: cs)).2
      else readDecimals negative (10 * significand + d) e (count + 1) cs
    | none => if count = 0 then none else readScaled negative significand (e - count) (c :: cs)

/-- What follows the digits before the point. -/
def readTail (negative : Bool) (significand : Nat) (e : Int) (cs : List Char)
    (plain : Option Numeral) : Option (Numeral × List Char) :=
  match cs with
  | '.' :: rest => readDecimals negative significand e 0 rest
  | c :: rest =>
    if c = 'e' ∨ c = 'E' then readExponent negative significand e rest
    else plain.map fun x => (x, cs)
  | [] => plain.map fun x => (x, cs)

/-- A number whose digits outgrow the significand: those that are left only scale it. -/
def readLong (negative : Bool) (significand : Nat) (cs : List Char) :
    Option (Numeral × List Char) :=
  let (run, rest) := digits cs
  readTail negative significand run.length rest (ofParts negative significand run.length)

def readWhole (negative : Bool) (significand : Nat) : List Char → Option (Numeral × List Char)
  | [] => some (whole negative significand, [])
  | c :: cs =>
    match digitValue? 10 c with
    | some d =>
      if overflows significand d then readLong negative significand (c :: cs)
      else readWhole negative (10 * significand + d) cs
    | none =>
      readTail negative significand 0 (c :: cs) (some (whole negative significand))

/-- The digits of a number without its sign. A leading zero stands alone. -/
def readUnsigned (negative : Bool) : List Char → Option (Numeral × List Char)
  | [] => none
  | '0' :: cs =>
    if (digits cs).1.isEmpty then readTail negative 0 0 cs (some (whole negative 0)) else none
  | c :: cs => (digitValue? 10 c).bind fun d => readWhole negative d cs

/-- The number that a text begins with. -/
def read? : List Char → Option (Numeral × List Char)
  | '-' :: cs => readUnsigned true cs
  | cs => readUnsigned false cs

/-- What is left after the digits of a run that must not be empty. -/
def skipDigits? (cs : List Char) : Option (List Char) :=
  let (run, rest) := digits cs
  if run.isEmpty then none else some rest

/-- What is left after an optional exponent part. -/
def skipExponent? (cs : List Char) : Option (List Char) :=
  match cs with
  | c :: rest =>
    if c = 'e' ∨ c = 'E' then
      match rest with
      | '+' :: body => skipDigits? body
      | '-' :: body => skipDigits? body
      | body => skipDigits? body
    else some cs
  | [] => some []

/-- What is left after a number, of which only the form is looked at. -/
def skip? (cs : List Char) : Option (List Char) := do
  let body := match cs with
    | '-' :: rest => rest
    | _ => cs
  let rest ← match body with
    | '0' :: rest => if (digits rest).1.isEmpty then some rest else none
    | _ => skipDigits? body
  match rest with
  | '.' :: decimals => skipExponent? (← skipDigits? decimals)
  | _ => skipExponent? rest

end Numeral

end InvariantMachine.Json

import InvariantMachine.Number.Reading

/-!
# Lexemes

The lexical classes of the assembly language. Each is given by the length of its longest member
that a text begins with. No two classes begin with the same character, the two classes of numbers
apart, of which the longer match counts.
-/

namespace InvariantMachine

inductive LexemeClass where
  | word
  | directive
  | int
  | float
  | char
  | string
deriving DecidableEq, Repr

namespace Lexeme

def isLetter (c : Char) : Bool := ('a' ≤ c && c ≤ 'z') || ('A' ≤ c && c ≤ 'Z') || c == '_'

def isDigit (c : Char) : Bool := '0' ≤ c && c ≤ '9'

def isHexDigit (c : Char) : Bool := isDigit c || ('a' ≤ c && c ≤ 'f') || ('A' ≤ c && c ≤ 'F')

def isBlank (c : Char) : Bool :=
  c == ' ' || c == '\t' || c == '\r' || c == '\n' || c == '\x0c' || c == ','

/-- The length of the longest run of a class of characters that a text begins with. -/
def run (p : Char → Bool) (cs : List Char) : Nat := (cs.takeWhile p).length

/-- A letter, then letters and digits. -/
def word? : List Char → Option Nat
  | c :: cs => if isLetter c then some (1 + run (fun c => isLetter c || isDigit c) cs) else none
  | [] => none

/-- `@` or a point, then letters. -/
def directive? : List Char → Option Nat
  | c :: cs =>
    let letters := run isLetter cs
    if (c = '@' ∨ c = '.') ∧ 0 < letters then some (1 + letters) else none
  | [] => none

/-- The text after an optional minus sign, with the length of that sign. -/
def afterSign : List Char → Nat × List Char
  | '-' :: cs => (1, cs)
  | cs => (0, cs)

/-- A zero, an `x` and hexadecimal digits; unsigned. -/
def hexadecimal? : List Char → Option Nat
  | '0' :: x :: cs =>
    let digits := run isHexDigit cs
    if (x = 'x' ∨ x = 'X') ∧ 0 < digits then some (2 + digits) else none
  | _ => none

/-- An optional minus sign, then decimal digits or a hexadecimal number. -/
def int? (cs : List Char) : Option Nat :=
  let (sign, body) := afterSign cs
  match hexadecimal? body with
  | some length => some (sign + length)
  | none =>
    let digits := run isDigit body
    if 0 < digits then some (sign + digits) else none

/-- The length of a complete exponent part, zero if there is none. -/
def exponentPart : List Char → Nat
  | e :: cs =>
    if e = 'e' ∨ e = 'E' then
      match cs with
      | s :: digits =>
        if s = '+' ∨ s = '-' then
          if 0 < run isDigit digits then 2 + run isDigit digits else 0
        else if 0 < run isDigit cs then 1 + run isDigit cs else 0
      | [] => 0
    else 0
  | [] => 0

/-- An optional minus sign, digits, a point, digits and an optional exponent part. -/
def float? (cs : List Char) : Option Nat :=
  let (sign, body) := afterSign cs
  let whole := run isDigit body
  match body.drop whole with
  | '.' :: rest =>
    let decimals := run isDigit rest
    if 0 < whole ∧ 0 < decimals then
      some (sign + whole + 1 + decimals + exponentPart (rest.drop decimals))
    else none
  | _ => none

/-- One character or escape between apostrophes, on one line. -/
def char? : List Char → Option Nat
  | '\x27' :: '\\' :: c :: '\x27' :: _ => if c = '\n' then none else some 4
  | '\x27' :: c :: '\x27' :: _ => if c = '\x27' ∨ c = '\\' ∨ c = '\n' then none else some 3
  | _ => none

/-- How far the inside of a string reaches, counted from `length`, and whether a quotation mark
ends it there; the mark counts. -/
def stringBody (length : Nat) : List Char → Nat × Bool
  | [] => (length, false)
  | '\x22' :: _ => (length + 1, true)
  | ['\\'] => (length, false)
  | '\\' :: c :: cs => if c = '\n' then (length, false) else stringBody (length + 2) cs
  | c :: cs => if c = '\n' then (length, false) else stringBody (length + 1) cs

/-- Characters and escapes between quotation marks, on one line. -/
def string? : List Char → Option Nat
  | '\x22' :: cs =>
    let (length, closed) := stringBody 1 cs
    if closed then some length else none
  | _ => none

/-- The length of the longest member of a class that a text begins with. -/
def match? : LexemeClass → List Char → Option Nat
  | .word => word?
  | .directive => directive?
  | .int => int?
  | .float => float?
  | .char => char?
  | .string => string?

def classes : List LexemeClass := [.word, .directive, .int, .float, .char, .string]

/-- The class with the longest match, the earlier of two that are equally long. -/
def longest? (cs : List Char) : Option (LexemeClass × Nat) :=
  classes.foldl (fun best kind =>
    match best, match? kind cs with
    | some (k, n), some m => if n < m then some (kind, m) else some (k, n)
    | none, some m => some (kind, m)
    | best, none => best) none

/-- How much of a text that begins with no lexeme is reported: an unterminated string as far as
it reaches, else one character. -/
def refusedLength : List Char → Nat
  | '\x22' :: cs => (stringBody 1 cs).1
  | _ => 1

/-- The length of the separator that a text begins with: one blank character, or a comment up to
the end of its line. -/
def separator? : List Char → Option Nat
  | c :: cs =>
    if isBlank c then some 1
    else if c = ';' then some (1 + run (fun c => c != '\n') cs)
    else none
  | [] => none

end Lexeme

end InvariantMachine

import InvariantMachine.Number.Reading

/-!
# Strings in JSON texts

The inside of a quoted string up to its closing mark. Escapes beyond the basic plane come as a
pair of surrogates; a surrogate alone stands for nothing and is refused, as are bare controls.
-/

namespace InvariantMachine.Json

/-- The character that an escape letter stands for. -/
def escapeMeaning? : Char → Option Char
  | '\x22' => some '\x22'
  | '\\' => some '\\'
  | '/' => some '/'
  | 'b' => some '\x08'
  | 'f' => some '\x0c'
  | 'n' => some '\n'
  | 'r' => some '\r'
  | 't' => some '\t'
  | _ => none

def isLeadingSurrogate (n : Nat) : Bool := 0xd800 ≤ n && n ≤ 0xdbff

def isTrailingSurrogate (n : Nat) : Bool := 0xdc00 ≤ n && n ≤ 0xdfff

/-- The code point of a pair of surrogates. -/
def pairedCodePoint (leading trailing : Nat) : Nat :=
  0x10000 + (leading - 0xd800) * 0x400 + (trailing - 0xdc00)

/-- The text inside quotation marks, onto the reverse of what came before, and what follows the
closing mark. -/
def readQuoted (done : List Char) : List Char → Option (List Char × List Char)
  | [] => none
  | '\x22' :: rest => some (done.reverse, rest)
  | '\\' :: 'u' :: a :: b :: c :: d :: '\\' :: 'u' :: e :: f :: g :: h :: rest =>
    match readDigits? 16 [a, b, c, d] with
    | none => none
    | some n =>
      if isTrailingSurrogate n then none
      else if isLeadingSurrogate n then
        match readDigits? 16 [e, f, g, h] with
        | none => none
        | some m =>
          if isTrailingSurrogate m then
            readQuoted (Char.ofNat (pairedCodePoint n m) :: done) rest
          else none
      else readQuoted (Char.ofNat n :: done) ('\\' :: 'u' :: e :: f :: g :: h :: rest)
  | '\\' :: 'u' :: a :: b :: c :: d :: rest =>
    match readDigits? 16 [a, b, c, d] with
    | none => none
    | some n =>
      if isTrailingSurrogate n || isLeadingSurrogate n then none
      else readQuoted (Char.ofNat n :: done) rest
  | '\\' :: c :: rest =>
    match escapeMeaning? c with
    | some meaning => readQuoted (meaning :: done) rest
    | none => none
  | c :: rest => if c.toNat < 0x20 ∨ c = '\\' then none else readQuoted (c :: done) rest

/-- What follows the closing mark of a string of which only the form is looked at; surrogates are
not. -/
def skipQuoted : List Char → Option (List Char)
  | [] => none
  | '\x22' :: rest => some rest
  | '\\' :: 'u' :: a :: b :: c :: d :: rest =>
    if (readDigits? 16 [a, b, c, d]).isSome then skipQuoted rest else none
  | '\\' :: c :: rest => if (escapeMeaning? c).isSome then skipQuoted rest else none
  | c :: rest => if c.toNat < 0x20 ∨ c = '\\' then none else skipQuoted rest

end InvariantMachine.Json

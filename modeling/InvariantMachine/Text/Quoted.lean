import InvariantMachine.Text.Visible

/-!
# Quoted text

Listings quote characters and strings so that every character that cannot be seen is written by
its code point; error messages quote so that the text is ASCII.
-/

namespace InvariantMachine

/-- A code point in braces, in hexadecimal without leading zeros. -/
def codePointEscape (c : Char) : List Char :=
  ['\\', 'u', '{'] ++ Nat.toDigits 16 c.toNat ++ ['}']

/-- The escape of a tab, a carriage return or a newline. -/
def layoutEscape? (c : Char) : Option (List Char) :=
  if c = '\t' then some ['\\', 't']
  else if c = '\r' then some ['\\', 'r']
  else if c = '\n' then some ['\\', 'n']
  else none

/-- How a listing writes a character between marks. -/
def listingEscape (mark c : Char) : List Char :=
  if c = '\x00' then ['\\', '0']
  else if c = '\\' ∨ c = mark then ['\\', c]
  else match layoutEscape? c with
    | some text => text
    | none => if isVisible c && !isJoining c then [c] else codePointEscape c

def apostrophe : Char := Char.ofNat 0x27

def quotationMark : Char := Char.ofNat 0x22

/-- A character in apostrophes, as listings write it. -/
def listedChar (c : Char) : String :=
  String.ofList ([apostrophe] ++ listingEscape apostrophe c ++ [apostrophe])

/-- A string in quotation marks, as listings write it. -/
def listedString (text : String) : String :=
  String.ofList ([quotationMark] ++ text.toList.flatMap (listingEscape quotationMark)
    ++ [quotationMark])

/-- How a message writes a character of a quoted literal: both marks and every character outside
printable ASCII are escaped. -/
def messageEscape (c : Char) : List Char :=
  if c = '\\' ∨ c = apostrophe ∨ c = quotationMark then ['\\', c]
  else match layoutEscape? c with
    | some text => text
    | none => if 0x20 ≤ c.toNat ∧ c.toNat < 0x7f then [c] else codePointEscape c

/-- A literal between marks, as messages write it. -/
def quotedLiteral (mark : Char) (text : String) : String :=
  String.ofList ([mark] ++ text.toList.flatMap messageEscape ++ [mark])

end InvariantMachine

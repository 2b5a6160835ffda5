import InvariantMachine.Assembly.Tokenize
import InvariantMachine.Code.Program

/-!
# Literals

The values that the texts of tokens denote. A token may come from anywhere, so every reader
refuses the texts that are not literals of its kind.
-/

namespace InvariantMachine

/-- The kinds of literal that messages tell apart. -/
inductive LiteralKind where
  | integer
  | float
  | char
  | register
  | entryPoint
deriving DecidableEq, Repr

def LiteralKind.name : LiteralKind → String
  | integer => "integer"
  | float => "float"
  | char => "char"
  | register => "register"
  | entryPoint => "entrypoint"

/-- Why tokens could not be encoded. -/
inductive EncodingError where
  | duplicateEntryPoint (line : Nat)
  | registerOutOfRange (index : Nat) (most : Nat) (line : Nat)
  | malformedOperand (mnemonic : String) (found : String) (line : Nat)
  | invalidLiteral (kind : LiteralKind) (text : String) (line : Nat)
  | missingOperand (mnemonic : String)
  | unexpectedToken (found : String) (line : Nat)
  | capacity (cause : CapacityExceeded)
  | program (cause : ProgramError)
  | lex (cause : LexError)
  /-- An operation on numbers left its range. The encoding is broken off and reports nothing. -/
  | overflow
deriving DecidableEq, Repr

namespace EncodingError

/-- A full program or pool counts as a capacity, whoever reports it. -/
def ofProgramError : ProgramError → EncodingError
  | .capacity cause => .capacity cause
  | cause => .program cause

def message : EncodingError → String
  | duplicateEntryPoint line => s!"line {line}: cannot define entrypoint more than once"
  | registerOutOfRange index most line =>
    s!"line {line}: register index {index} is too great (max {most})"
  | malformedOperand mnemonic found line =>
    s!"line {line}: '{mnemonic}' cannot take operand '{found}'"
  | invalidLiteral kind text line => s!"line {line}: invalid {kind.name} literal '{text}'"
  | missingOperand mnemonic => s!"'{mnemonic}' expects an operand but the input ended"
  | unexpectedToken found line => s!"line {line}: expected an instruction, found '{found}'"
  | capacity cause => cause.message
  | program cause => cause.message
  | lex cause => cause.message
  | overflow => "attempt to negate with overflow"

end EncodingError

namespace Literal

/-- The magnitudes that are read before the sign is applied: the integers of 128 bits. -/
def leastMagnitude : Int := -0x80000000000000000000000000000000

def greatestMagnitude : Int := 0x7fffffffffffffffffffffffffffffff

/-- An integer literal as its minus sign and its magnitude. The digits may carry a sign of their
own after the minus sign and the mark of a base. -/
def signedMagnitude? (text : List Char) : Option (Bool × Int) :=
  let (negative, body) := match text with
    | '-' :: rest => (true, rest)
    | _ => (false, text)
  let magnitude := match body with
    | '0' :: 'x' :: digits => readInt? 16 leastMagnitude greatestMagnitude digits
    | '0' :: 'X' :: digits => readInt? 16 leastMagnitude greatestMagnitude digits
    | _ => readInt? 10 leastMagnitude greatestMagnitude body
  magnitude.map fun m => (negative, m)

/-- The opposite of an integer of 128 bits, if it has one. -/
def opposite? (i : Int) : Option Int :=
  if leastMagnitude ≤ -i ∧ -i ≤ greatestMagnitude then some (-i) else none

/-- Why a text is read as no integer. -/
inductive IntFault where
  | invalid
  /-- The sign is that of a magnitude without an opposite. -/
  | overflow
deriving DecidableEq, Repr

/-- The integer of 64 bits that a text denotes. -/
def int (text : List Char) : Except IntFault Int64 :=
  match signedMagnitude? text with
  | none => .error .invalid
  | some (negative, magnitude) =>
    match if negative then opposite? magnitude else some magnitude with
    | none => .error .overflow
    | some value =>
      if leastInt ≤ value ∧ value ≤ greatestInt then .ok (Int64.ofInt value) else .error .invalid

def float? (text : List Char) : Option Binary64 := Binary64.read? text

/-- The only character of a text. -/
def char? : List Char → Option Char
  | [c] => some c
  | _ => none

/-- The greatest index that a register may be written with, far past the registers there are. -/
def greatestRegisterIndex : Nat := 0xffffffffffffffff

/-- The index after the letter of a register. The letter itself is not looked at, but it must be
a single byte. -/
def registerIndex? : List Char → Option Nat
  | letter :: digits => if letter.utf8Size = 1 then readNat? greatestRegisterIndex digits else none
  | [] => none

end Literal

namespace Token

def invalid (token : Token) (kind : LiteralKind) : EncodingError :=
  .invalidLiteral kind token.text token.span.line

def readInt (token : Token) : Except EncodingError Int64 :=
  match Literal.int token.text.toList with
  | .ok v => .ok v
  | .error .invalid => .error (token.invalid .integer)
  | .error .overflow => .error .overflow

def readFloat (token : Token) : Except EncodingError Binary64 :=
  match Literal.float? token.text.toList with
  | some v => .ok v
  | none => .error (token.invalid .float)

def readChar (token : Token) : Except EncodingError Char :=
  match Literal.char? token.text.toList with
  | some c => .ok c
  | none => .error (token.invalid .char)

def readRegister (token : Token) : Except EncodingError UInt8 :=
  match Literal.registerIndex? token.text.toList with
  | none => .error (token.invalid .register)
  | some index =>
    if index < registerCount then .ok (UInt8.ofNat index)
    else .error (.registerOutOfRange index (registerCount - 1) token.span.line)

end Token

end InvariantMachine

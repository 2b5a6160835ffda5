import InvariantMachine.Assembly.Literal

/-!
# From tokens to programs

A source is a sequence of phrases: an instruction with the operands that its shape asks for, or
the declaration of the entry point, which is encoded as an instruction that does nothing. The
first phrase that is wrong, or that the program refuses, ends the encoding.
-/

namespace InvariantMachine

/-- What a phrase adds to a program. -/
inductive Phrase where
  | instruction (i : Instruction)
  /-- An opcode with a string, which is interned. -/
  | string (opcode : Opcode) (text : String)
  | entryPoint (offset : UInt32) (line : Nat)
deriving DecidableEq, Repr

namespace Phrase

/-- What messages call the declaration of the entry point. -/
def entryDirective : String := "@entrypoint"

/-- The number of tokens after the first of a phrase. -/
def operandCount : Phrase → Nat
  | instruction i =>
    match i.opcode.shape with
    | .none => 0
    | .move => 2
    | _ => 1
  | string _ _ => 1
  | entryPoint _ _ => 1

def malformed (opcode : Opcode) (token : Token) : EncodingError :=
  .malformedOperand opcode.mnemonic token.shown token.span.line

def literal (opcode : Opcode) (token : Token) : Except EncodingError Operand :=
  match token.kind with
  | .int => do return .int (← token.readInt)
  | .float => do return .float (← token.readFloat)
  | .char => do return .char (← token.readChar)
  | .register => do return .register (← token.readRegister)
  | _ => .error (malformed opcode token)

def target (opcode : Opcode) (token : Token) : Except EncodingError Operand :=
  match token.kind with
  | .int => do return .int (← token.readInt)
  | _ => .error (malformed opcode token)

def destination (opcode : Opcode) (token : Token) : Except EncodingError UInt8 :=
  match token.kind with
  | .register => token.readRegister
  | _ => .error (malformed opcode token)

def source (opcode : Opcode) (token : Token) : Except EncodingError Operand :=
  match token.kind with
  | .top => .ok .top
  | _ => literal opcode token

def text (opcode : Opcode) (token : Token) : Except EncodingError String :=
  match token.kind with
  | .string => .ok token.text
  | _ => .error (malformed opcode token)

def ofOpcode (opcode : Opcode) (following : List Token) : Except EncodingError Phrase :=
  match opcode.shape, following with
  | .none, _ => .ok (instruction (.bare opcode))
  | _, [] => .error (.missingOperand opcode.mnemonic)
  | .target, token :: _ => do return instruction (.withOperand opcode (← target opcode token))
  | .literal, token :: _ => do return instruction (.withOperand opcode (← literal opcode token))
  | .stringRef, token :: _ => do return string opcode (← text opcode token)
  | .move, token :: rest => do
    let register ← destination opcode token
    match rest with
    | [] => throw (.missingOperand opcode.mnemonic)
    | token :: _ => return instruction ⟨opcode, some register, ← source opcode token⟩

/-- The declaration of the entry point before given tokens. -/
def ofDirective (directive : Token) (following : List Token) : Except EncodingError Phrase :=
  match following with
  | [] => .error (.missingOperand entryDirective)
  | token :: _ =>
    match token.kind with
    | .int => do
      let offset := (← token.readInt).toInt
      if 0 ≤ offset ∧ offset ≤ 0xffffffff then
        return entryPoint (UInt32.ofNat offset.toNat) directive.span.line
      else throw (token.invalid .entryPoint)
    | _ => .error (.malformedOperand entryDirective token.shown token.span.line)

/-- The phrase that begins with a token, before given tokens. -/
def read (token : Token) (following : List Token) : Except EncodingError Phrase :=
  match token.kind with
  | .mnemonic =>
    match Opcode.ofMnemonic? token.text with
    | some opcode => ofOpcode opcode following
    | none => .error (.unexpectedToken token.text token.span.line)
  | .entryPoint => ofDirective token following
  | _ => .error (.unexpectedToken token.shown token.span.line)

def addTo (p : Program) : Phrase → Except EncodingError Program
  | instruction i => (p.push i).mapError .ofProgramError
  | string opcode text => do
    let (index, p) ← (p.intern text).mapError .capacity
    (p.push (.withOperand opcode (.stringIndex index))).mapError .ofProgramError
  | entryPoint offset line =>
    match p.declareEntry? offset with
    | none => .error (.duplicateEntryPoint line)
    | some p => (p.push (.bare .nop)).mapError .ofProgramError

end Phrase

/-- Encodes the rest of a list of tokens after a program; the first `pending` of them belong to
the phrase that was read last. -/
def encodeOnto (p : Program) (pending : Nat) : List Token → Except EncodingError Program
  | [] => .ok p
  | token :: following =>
    match pending with
    | pending + 1 => encodeOnto p pending following
    | 0 =>
      match Phrase.read token following with
      | .error e => .error e
      | .ok phrase =>
        match phrase.addTo p with
        | .error e => .error e
        | .ok p => encodeOnto p phrase.operandCount following

def encode (tokens : List Token) : Except EncodingError Program := encodeOnto .empty 0 tokens

def assemble (source : String) : Except EncodingError Program :=
  match tokenize source with
  | .error e => .error (.lex e)
  | .ok tokens => encode tokens

end InvariantMachine

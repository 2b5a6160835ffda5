import InvariantMachine.Assembly.Token
import InvariantMachine.Assembly.Lexeme

/-!
# From sources to tokens

A source is read from left to right. Separators are passed over, and at every other place the
longest lexeme becomes a token; a place without one, an unknown word and an unknown escape end
the reading.
-/

namespace InvariantMachine

/-- The place of a source that could not be read. -/
structure LexError where
  text : String
  line : Nat
  col : Nat
deriving DecidableEq, Repr

def LexError.message (e : LexError) : String :=
  s!"line {e.line}, col {e.col}: unexpected input '{e.text}'"

/-- What a word names: the top of the stack, a register, or an instruction. -/
def wordKind? (text : List Char) : Option TokenKind :=
  let word := String.ofList text
  if asciiLowerAll word = "top" then some .top
  else
    let isRegister := match text with
      | r :: digits => (r == 'r' || r == 'R') && !digits.isEmpty && digits.all Lexeme.isDigit
      | [] => false
    if isRegister then some .register
    else (Opcode.ofMnemonic? word).map fun _ => .mnemonic

/-- The two spellings of the entry point directive. -/
def isEntryDirective (text : List Char) : Bool :=
  let directive := asciiLowerAll (String.ofList text)
  directive == "@entrypoint" || directive == ".entry"

/-- The character that an escape letter stands for. -/
def escapeMeaning? : Char → Option Char
  | 'n' => some '\n'
  | 't' => some '\t'
  | 'r' => some '\r'
  | '0' => some '\x00'
  | '\\' => some '\\'
  | '\x27' => some '\x27'
  | '\x22' => some '\x22'
  | _ => none

/-- The inside of a literal with its escapes replaced, onto the reverse of what came before. -/
def unescapeOnto (done : List Char) : List Char → Option (List Char)
  | [] => some done.reverse
  | ['\\'] => none
  | '\\' :: c :: cs =>
    match escapeMeaning? c with
    | some meaning => unescapeOnto (meaning :: done) cs
    | none => none
  | c :: cs => unescapeOnto (c :: done) cs

/-- What stands between the marks of a literal, with its escapes replaced. -/
def literalBody? (text : List Char) : Option String :=
  (unescapeOnto [] (text.drop 1).dropLast).map String.ofList

/-- The kind and the text of the token that a lexeme makes. -/
def tokenOf? (kind : LexemeClass) (text : List Char) : Option (TokenKind × String) :=
  match kind with
  | .word => (wordKind? text).map fun k => (k, String.ofList text)
  | .directive => if isEntryDirective text then some (.entryPoint, String.ofList text) else none
  | .int => some (.int, String.ofList text)
  | .float => some (.float, String.ofList text)
  | .char => (literalBody? text).map fun body => (.char, body)
  | .string => (literalBody? text).map fun body => (.string, body)

/-- What a source begins with. -/
inductive Scan where
  | separator (length : Nat)
  | token (kind : TokenKind) (text : String) (length : Nat)
  | refused (length : Nat)
deriving DecidableEq, Repr

def scan (cs : List Char) : Scan :=
  match Lexeme.separator? cs with
  | some length => .separator length
  | none =>
    match Lexeme.longest? cs with
    | none => .refused (Lexeme.refusedLength cs)
    | some (kind, length) =>
      match tokenOf? kind (cs.take length) with
      | some (kind, text) => .token kind text length
      | none => .refused length

/-- Reads the rest of a source. The first `pending` characters belong to what was scanned before;
`done` holds the tokens so far, the last one first. -/
def tokenizeFrom (span : Span) (pending : Nat) (done : List Token) :
    List Char → Except LexError (List Token)
  | [] => .ok done.reverse
  | c :: cs =>
    match pending with
    | pending + 1 => tokenizeFrom (span.after c) pending done cs
    | 0 =>
      match scan (c :: cs) with
      | .separator length => tokenizeFrom (span.after c) (length - 1) done cs
      | .token kind text length =>
        tokenizeFrom (span.after c) (length - 1) (⟨kind, text, span⟩ :: done) cs
      | .refused length => .error ⟨String.ofList ((c :: cs).take length), span.line, span.col⟩

/-- The tokens of a source, or the first place that has none. -/
def tokenize (source : String) : Except LexError (List Token) :=
  tokenizeFrom .start 0 [] source.toList

end InvariantMachine

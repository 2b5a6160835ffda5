import InvariantMachine.Code.Opcode
import InvariantMachine.Text.Quoted

/-!
# Tokens

The words of a source, each with its kind and the place where it starts. Whoever produces a list
of tokens, the tokenizer or something else, can have it encoded.
-/

namespace InvariantMachine

/-- A place in a source: the line and the byte column, both from one. -/
structure Span where
  line : Nat
  col : Nat
deriving DecidableEq, Repr, Inhabited

namespace Span

def start : Span := ⟨1, 1⟩

def after (span : Span) (c : Char) : Span :=
  if c = '\n' then ⟨span.line + 1, 1⟩ else ⟨span.line, span.col + c.utf8Size⟩

end Span

inductive TokenKind where
  | mnemonic
  | entryPoint
  | int
  | float
  | char
  | string
  | register
  /-- The word for the top of the stack. -/
  | top
deriving DecidableEq, Repr

/-- What diagnostics call a kind of token. -/
def TokenKind.description : TokenKind → String
  | mnemonic => "instruction"
  | entryPoint => "entrypoint directive"
  | int => "integer"
  | float => "float"
  | char => "char"
  | string => "string"
  | register => "register"
  | top => "top"

/-- A token. Its text is what the source says, but for a character or a string it is what the
literal stands for, without marks and escapes. -/
structure Token where
  kind : TokenKind
  text : String
  span : Span
deriving DecidableEq, Repr

def Token.shown (token : Token) : String :=
  match token.kind with
  | .char => quotedLiteral apostrophe token.text
  | .string => quotedLiteral quotationMark token.text
  | _ => token.text

end InvariantMachine

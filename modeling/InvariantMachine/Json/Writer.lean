import InvariantMachine.Number.Layout

/-!
# JSON documents

The documents that the library writes, with fields in the order given, and their two layouts: one
line without spaces, and one item per line indented by two spaces a level.
-/

namespace InvariantMachine

inductive Json where
  | null
  | boolean (value : Bool)
  | integer (value : Int)
  | number (value : Binary64)
  | string (value : String)
  | array (items : List Json)
  | object (fields : List (String × Json))

namespace Json

/-- An optional document; what is absent is null. -/
def optional {α : Type} (write : α → Json) : Option α → Json
  | none => null
  | some a => write a

/-- A named alternative that carries one document. -/
def tagged (name : String) (content : Json) : Json := object [(name, content)]

/-- The escape of a character inside a JSON string: the mark, the backslash and the controls. -/
def escape (c : Char) : List Char :=
  if c = '\x22' then ['\\', '\x22']
  else if c = '\\' then ['\\', '\\']
  else if c = '\x08' then ['\\', 'b']
  else if c = '\x0c' then ['\\', 'f']
  else if c = '\n' then ['\\', 'n']
  else if c = '\r' then ['\\', 'r']
  else if c = '\t' then ['\\', 't']
  else if c.toNat < 0x20 then
    ['\\', 'u', '0', '0', Nat.digitChar (c.toNat / 16), Nat.digitChar (c.toNat % 16)]
  else [c]

def quote (text : String) : String :=
  String.ofList (['\x22'] ++ text.toList.flatMap escape ++ ['\x22'])

/-- The text of a document without parts; none for an array or an object. -/
def leafText : Json → String
  | null => "null"
  | boolean b => if b then "true" else "false"
  | integer i => toString i
  | number x => DecimalLayout.document.write x
  | string s => quote s
  | array _ => ""
  | object _ => ""

mutual

/-- The document on one line without spaces. -/
def compact : Json → String
  | array items => "[" ++ compactItems items ++ "]"
  | object fields => "\x7b" ++ compactFields fields ++ "\x7d"
  | leaf => leafText leaf

def compactItems : List Json → String
  | [] => ""
  | [item] => compact item
  | item :: items => compact item ++ "," ++ compactItems items

def compactFields : List (String × Json) → String
  | [] => ""
  | [(name, content)] => quote name ++ ":" ++ compact content
  | (name, content) :: fields =>
    quote name ++ ":" ++ compact content ++ "," ++ compactFields fields

end

def newLine (level : Nat) : String :=
  String.ofList ('\n' :: List.replicate (2 * level) ' ')

mutual

/-- The document with each part of an array or object on a line of its own. -/
def prettyAt (level : Nat) : Json → String
  | array [] => "[]"
  | array items => "[" ++ prettyItems (level + 1) items ++ newLine level ++ "]"
  | object [] => "\x7b\x7d"
  | object fields => "\x7b" ++ prettyFields (level + 1) fields ++ newLine level ++ "\x7d"
  | leaf => leafText leaf

def prettyItems (level : Nat) : List Json → String
  | [] => ""
  | [item] => newLine level ++ prettyAt level item
  | item :: items => newLine level ++ prettyAt level item ++ "," ++ prettyItems level items

def prettyFields (level : Nat) : List (String × Json) → String
  | [] => ""
  | [(name, content)] => newLine level ++ quote name ++ ": " ++ prettyAt level content
  | (name, content) :: fields =>
    newLine level ++ quote name ++ ": " ++ prettyAt level content ++ ","
      ++ prettyFields level fields

end

/-- The document with two spaces of indentation a level. -/
def pretty (document : Json) : String := prettyAt 0 document

end Json

end InvariantMachine

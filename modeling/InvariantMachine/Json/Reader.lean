import InvariantMachine.Json.Numeral
import InvariantMachine.Json.Quoted

/-!
# Reading JSON texts

Texts are read straight into the values that are wanted, from left to right, so the first thing
wrong is what is reported: a text that is no JSON of the wanted form, or a value that was refused.
What no field asks for is passed over by its form alone.
-/

namespace InvariantMachine.Json

/-- Why a text gave no value. -/
inductive ReadError (ε : Type) where
  | malformed
  /-- The form was right and the value was refused. -/
  | refused (cause : ε)
deriving DecidableEq, Repr

/-- A computation that reads a text. -/
abbrev Reading (ε : Type) := StateT (List Char) (Except (ReadError ε))

namespace Reading

variable {ε α β σ : Type}

def malformed : Reading ε α := throw .malformed

def isBlank (c : Char) : Bool := c == ' ' || c == '\n' || c == '\t' || c == '\r'

/-- The text after its leading blanks. -/
def nonBlank (cs : List Char) : List Char := cs.dropWhile isBlank

/-- The first character that is not blank, which is left in place. -/
def peek? : Reading ε (Option Char) := fun cs => .ok ((nonBlank cs).head?, nonBlank cs)

/-- Passes over blanks and one given character. -/
def expect (c : Char) : Reading ε Unit := fun cs =>
  match nonBlank cs with
  | d :: rest => if d = c then .ok ((), rest) else .error .malformed
  | [] => .error .malformed

/-- Passes over blanks and a given word. -/
def word (letters : List Char) : Reading ε Unit := fun cs =>
  let cs := nonBlank cs
  if letters.isPrefixOf cs then .ok ((), cs.drop letters.length) else .error .malformed

/-- Takes what a scanner finds at the first character that is not blank. -/
def scanned (scan : List Char → Option (α × List Char)) : Reading ε α := fun cs =>
  match scan (nonBlank cs) with
  | some found => .ok found
  | none => .error .malformed

def string : Reading ε String := do
  expect '\x22'
  fun cs => match readQuoted [] cs with
    | some (text, rest) => .ok (String.ofList text, rest)
    | none => .error .malformed

/-- A string of one character. -/
def char : Reading ε Char := do
  match (← string).toList with
  | [c] => return c
  | _ => malformed

def boolean : Reading ε Bool := do
  if (← peek?) = some 't' then
    word "true".toList
    return true
  else
    word "false".toList
    return false

/-- An integer in a range. A number with a fraction or an exponent is none. -/
def integer (least most : Int) : Reading ε Int := do
  let value ← match ← scanned Numeral.read? with
    | .natural n => pure (n : Int)
    | .negative i => pure i
    | .float _ => malformed
  if least ≤ value ∧ value ≤ most then return value else malformed

def natural (most : Nat) : Reading ε Nat := do return (← integer 0 most).toNat

def number : Reading ε Binary64 := do
  match ← scanned Numeral.read? with
  | .natural n => return .ofNat n
  | .negative i => return .ofInt i
  | .float x => return x

/-- A value, or null for none. -/
def optional (read : Reading ε α) : Reading ε (Option α) := do
  if (← peek?) = some 'n' then
    word "null".toList
    return none
  else return some (← read)

/-- The next element of an array whose opening bracket has been read, or none before its closing
bracket, which is left in place. -/
def element? (first : Bool) (read : Reading ε α) : Reading ε (Option α) := do
  match ← peek? with
  | some ']' => return none
  | _ =>
    if !first then
      expect ','
      if (← peek?) = some ']' then malformed
    return some (← read)

/-- The next element, which must be there. -/
def element (first : Bool) (read : Reading ε α) : Reading ε α := do
  match ← element? first read with
  | some a => return a
  | none => malformed

/-- The elements up to the closing bracket. Every element takes a character at least, so the
length of the text is a bound on their count. -/
def elements (read : Reading ε α) : (bound : Nat) → List α → Reading ε (List α)
  | 0, _ => malformed
  | bound + 1, done => do
    match ← element? done.isEmpty read with
    | some a => elements read bound (a :: done)
    | none =>
      expect ']'
      return done.reverse

def array (read : Reading ε α) : Reading ε (List α) := do
  expect '['
  let cs ← get
  elements read (cs.length + 1) []

/-- An open bracket around what is passed over. -/
inductive Enclosure where
  | array
  | object
deriving DecidableEq, Repr

/-- Passes over a name and the colon after it. -/
def skipName? (cs : List Char) : Option (List Char) := do
  match nonBlank cs with
  | '\x22' :: rest =>
    match nonBlank (← skipQuoted rest) with
    | ':' :: rest => some rest
    | _ => none
  | _ => none

/-- Passes over a value inside some enclosures, or over what follows a value; every round takes a
character at least. -/
def skipInside : (bound : Nat) → (afterValue : Bool) → List Enclosure → List Char →
    Option (List Char)
  | 0, _, _, _ => none
  | _ + 1, true, [], cs => some cs
  | bound + 1, true, enclosure :: outer, cs =>
    match enclosure, nonBlank cs with
    | .array, ']' :: rest => skipInside bound true outer rest
    | .array, ',' :: rest => skipInside bound false (enclosure :: outer) rest
    | .object, '}' :: rest => skipInside bound true outer rest
    | .object, ',' :: rest =>
      (skipName? rest).bind fun rest => skipInside bound false (enclosure :: outer) rest
    | _, _ => none
  | bound + 1, false, outer, cs =>
    match nonBlank cs with
    | 'n' :: 'u' :: 'l' :: 'l' :: rest => skipInside bound true outer rest
    | 't' :: 'r' :: 'u' :: 'e' :: rest => skipInside bound true outer rest
    | 'f' :: 'a' :: 'l' :: 's' :: 'e' :: rest => skipInside bound true outer rest
    | '\x22' :: rest => (skipQuoted rest).bind fun rest => skipInside bound true outer rest
    | '[' :: rest =>
      match nonBlank rest with
      | ']' :: rest => skipInside bound true outer rest
      | rest => skipInside bound false (.array :: outer) rest
    | '{' :: rest =>
      match nonBlank rest with
      | '}' :: rest => skipInside bound true outer rest
      | rest => (skipName? rest).bind fun rest => skipInside bound false (.object :: outer) rest
    | cs => (Numeral.skip? cs).bind fun rest => skipInside bound true outer rest

def skip : Reading ε Unit := fun cs =>
  match skipInside (cs.length + 1) false [] cs with
  | some rest => .ok ((), rest)
  | none => .error .malformed

/-- The fields up to the closing brace. Each is read by name onto what the fields before it
gave. -/
def fieldsOnto (readField : String → σ → Reading ε σ) : (bound : Nat) → (first : Bool) → σ →
    Reading ε σ
  | 0, _, _ => malformed
  | bound + 1, first, state => do
    match ← peek? with
    | some '}' =>
      expect '}'
      return state
    | _ =>
      if !first then expect ','
      let name ← string
      expect ':'
      let state ← readField name state
      fieldsOnto readField bound false state

/-- An object, of which each field is read by name onto what the fields before it gave. -/
def object (readField : String → σ → Reading ε σ) (start : σ) : Reading ε σ := do
  expect '{'
  let cs ← get
  fieldsOnto readField (cs.length + 1) true start

/-- A field that may come once. -/
def once (current : Option α) (read : Reading ε α) : Reading ε (Option α) := do
  if current.isSome then malformed else return some (← read)

/-- A field that must have come. -/
def required (current : Option α) : Reading ε α :=
  match current with
  | some a => return a
  | none => malformed

/-- A record, as an object or as an array of its fields in order. -/
def record (asObject asArray : Reading ε α) : Reading ε α := do
  match ← peek? with
  | some '[' =>
    expect '['
    let a ← asArray
    expect ']'
    return a
  | _ => asObject

/-- One of several alternatives: a name alone, or an object of the name and what it carries. An
alternative that carries nothing carries null in an object. -/
def alternative (plain : String → Option α) (carrying : String → Option (Reading ε α)) :
    Reading ε α := do
  match ← peek? with
  | some '{' =>
    expect '{'
    let name ← string
    expect ':'
    let a ← match plain name, carrying name with
      | some a, _ => do
        word "null".toList
        pure a
      | none, some read => read
      | none, none => malformed
    expect '}'
    return a
  | _ =>
    match plain (← string) with
    | some a => return a
    | none => malformed

def whole (read : Reading ε α) (text : String) : Except (ReadError ε) α :=
  match read.run text.toList with
  | .error e => .error e
  | .ok (a, rest) => if (nonBlank rest).isEmpty then .ok a else .error .malformed

end Reading

end InvariantMachine.Json

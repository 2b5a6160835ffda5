import InvariantMachine.Machine.Config
import InvariantMachine.Text.Alphanumeric
import InvariantMachine.Text.Blank
import InvariantMachine.Text.Utf8

/-!
# Environments

Named texts that configure a machine. A file may add to them, one assignment a line, without
replacing what is there. A variable that is missing or has no readable value leaves the standard
setting.
-/

namespace InvariantMachine

/-- Variables and their values. -/
abbrev Environment := List (String × String)

namespace Environment

def get? (env : Environment) (name : String) : Option String := env.lookup name

def setDefault (env : Environment) (name value : String) : Environment :=
  if (env.get? name).isSome then env else env ++ [(name, value)]

/-- The reading of a variable without surrounding blanks. -/
def setting {α : Type} (env : Environment) (name : String) (read : List Char → Option α)
    (standard : α) : α :=
  ((env.get? name).bind fun value => read (trim value.toList)).getD standard

/-- The variables that a configuration depends on. -/
def settings : List String :=
  ["TIM_STACK_CAPACITY", "TIM_MEMORY_SIZE", "TIM_C_REG_MAX", "TIM_EXECUTION_MODE",
    "TIM_EFFICIENCY_SEVERITY", "TIM_CYCLE_BUDGET"]

/-- The configuration that an environment asks for. -/
def config (env : Environment) : Config where
  stackCapacity := env.setting "TIM_STACK_CAPACITY" (readNat? greatestSize)
    Config.standard.stackCapacity
  memorySize := env.setting "TIM_MEMORY_SIZE" (readNat? greatestSize) Config.standard.memorySize
  complexityCeiling := env.setting "TIM_C_REG_MAX" Binary64.read?
    Config.standard.complexityCeiling
  mode := env.setting "TIM_EXECUTION_MODE"
    (fun text => (ExecutionMode.read (String.ofList text)).toOption) Config.standard.mode
  severity := env.setting "TIM_EFFICIENCY_SEVERITY"
    (fun text => (Severity.read (String.ofList text)).toOption) Config.standard.severity
  cycleBudget := env.setting "TIM_CYCLE_BUDGET" (readNat? greatestSize)
    Config.standard.cycleBudget

end Environment

namespace EnvironmentFile

def isNameStart (c : Char) : Bool := c.isAlpha || c == '_'

def isNameRest (c : Char) : Bool := c.isAlphanum || c == '_' || c == '.'

/-- Where a value is being read. -/
inductive Mode where
  | bare
  /-- Behind the value; only blanks and a comment may follow. -/
  | finished
  /-- Inside apostrophes. -/
  | strong
  /-- Inside quotation marks. -/
  | weak
deriving DecidableEq, Repr

/-- A reference to a variable that is being read. -/
inductive Reference where
  | none
  /-- After a dollar sign, with the letters so far in reverse. -/
  | plain (letters : List Char)
  /-- After a dollar sign and a brace. -/
  | braced (letters : List Char)
deriving DecidableEq, Repr

/-- What stands for a reference: a variable, else an earlier assignment, else nothing. -/
def resolved (env assigned : Environment) (letters : List Char) : List Char :=
  let name := String.ofList letters.reverse
  (((env.get? name).or (Environment.get? assigned name)).getD "").toList

/-- Reads the rest of a value. `done` is what was read, in reverse, and `escaped` says that a
backslash came last. -/
def readValue (env assigned : Environment) (mode : Mode) (reference : Reference) (escaped : Bool)
    (done : List Char) : List Char → Option (List Char)
  | [] =>
    match reference, mode with
    | .braced _, _ => none
    | _, .strong => none
    | _, .weak => none
    | .plain letters, _ => some (done.reverse ++ resolved env assigned letters)
    | .none, _ => some done.reverse
  | c :: cs =>
    if mode = .finished then
      if c = ' ' ∨ c = '\t' then readValue env assigned mode reference escaped done cs
      else if c = '#' then some done.reverse
      else none
    else if escaped then
      if c = '\\' ∨ c = '\x27' ∨ c = '\x22' ∨ c = '$' ∨ c = ' ' then
        readValue env assigned mode reference false (c :: done) cs
      else if c = 'n' then readValue env assigned mode reference false ('\n' :: done) cs
      else none
    else if mode = .strong then
      if c = '\x27' then readValue env assigned .bare reference false done cs
      else readValue env assigned .strong reference false (c :: done) cs
    else
      match reference with
      | .plain letters =>
        if isAlphanumeric c then
          readValue env assigned mode (.plain (c :: letters)) false done cs
        else if c = '\x7b' ∧ letters = [] then
          readValue env assigned mode (.braced []) false done cs
        else
          let done := (resolved env assigned letters).reverse ++ done
          if c = '$' then readValue env assigned mode (.plain []) false done cs
          else readValue env assigned mode .none false (c :: done) cs
      | .braced letters =>
        if c = '\x7d' then
          readValue env assigned mode .none false
            ((resolved env assigned letters).reverse ++ done) cs
        else readValue env assigned mode (.braced (c :: letters)) false done cs
      | .none =>
        if c = '$' then readValue env assigned mode (.plain []) false done cs
        else if c = '\\' then readValue env assigned mode .none true done cs
        else if c = '\x22' then
          readValue env assigned (if mode = .weak then .bare else .weak) .none false done cs
        else if mode = .weak then readValue env assigned .weak .none false (c :: done) cs
        else if c = '\x27' then readValue env assigned .strong .none false done cs
        else if c = ' ' ∨ c = '\t' then readValue env assigned .finished .none false done cs
        else readValue env assigned .bare .none false (c :: done) cs

/-- A name at the beginning of a text, and the text behind it and behind blanks. -/
def readName? : List Char → Option (String × List Char)
  | [] => none
  | c :: cs =>
    if isNameStart c then
      some (String.ofList (c :: cs.takeWhile isNameRest),
        (cs.dropWhile isNameRest).dropWhile isBlank)
    else none

/-- An equals sign at the beginning of a text, and the text behind it. -/
def readEquals? : List Char → Option (List Char)
  | '=' :: cs => some cs
  | _ => none

/-- A line: nothing, or a name and its value. The word `export` may stand before the name. -/
def readLine (env assigned : Environment) (line : List Char) :
    Option (Option (String × String)) := do
  let text := (trimEnd line).dropWhile isBlank
  if text.isEmpty || text.head? == some '#' then return none
  let (first, rest) ← readName? text
  let (name, rest) ←
    if first = "export" then
      match readEquals? rest with
      | some rest => some (first, rest)
      | none => do
        let (name, rest) ← readName? rest
        some (name, ← readEquals? rest)
    else do some (first, ← readEquals? rest)
  let value := rest.dropWhile isBlank
  if value.isEmpty || value.head? == some '#' then return some (name, "")
  return some (name, String.ofList (← readValue env assigned .bare .none false [] value))

/-- The lines of a file, without their ends. -/
def lines : List UInt8 → List (List UInt8)
  | [] => [[]]
  | b :: bs =>
    if b = 0x0a then [] :: lines bs
    else match lines bs with
      | [] => [[b]]
      | line :: rest => (b :: line) :: rest

/-- Takes the assignments of lines one by one, up to the first line that is wrong. -/
def loadLines (env assigned : Environment) : List (List UInt8) → Environment
  | [] => env
  | line :: rest =>
    match (utf8Text? line).bind fun text => readLine env assigned text.toList with
    | none => env
    | some none => loadLines env assigned rest
    | some (some (name, value)) =>
      loadLines (env.setDefault name value) ((name, value) :: assigned) rest

/-- The name behind each dollar sign of a text. -/
def referenced : List Char → List String
  | [] => []
  | c :: cs =>
    if c = '$' then
      match cs with
      | '\x7b' :: name => String.ofList (name.takeWhile (· ≠ '\x7d')) :: referenced cs
      | name => String.ofList (name.takeWhile isAlphanumeric) :: referenced cs
    else referenced cs

/-- Every name that a file may refer to. Nothing else in an environment matters to its values. -/
def mentioned (file : List UInt8) : List String :=
  ((lines file).filterMap utf8Text?).flatMap fun line => referenced line.toList

/-- An environment with the assignments of a file. -/
def load (env : Environment) (file : List UInt8) : Environment := loadLines env [] (lines file)

end EnvironmentFile

end InvariantMachine

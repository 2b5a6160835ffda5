import InvariantMachine.Shell.Assembler
import InvariantMachine.Shell.Boot

/-!
# The program

The first argument names the command, `tasm` or `tim`; the others are its arguments. Only here are
files, variables and streams touched.
-/

namespace InvariantMachine.Main

def faultOf : IO.Error → FileFault
  | .noFileOrDirectory _ _ _ => .notFound
  | .inappropriateType _ code _ =>
    if code = 21 ∨ code = -21 then .isDirectory else .notDirectory
  | e@(.invalidArgument _ code _) =>
    if code = 36 ∨ code = -36 then .nameTooLong else .other (toString e)
  | .permissionDenied _ _ _ => .other "Permission denied (os error 13)"
  | e => .other (toString e)

def attempt {α : Type} (operation : IO α) : IO (Except FileFault α) := do
  try return .ok (← operation)
  catch e => return .error (faultOf e)

/-- Whether two paths are the same, or lead to the same file. -/
def sameFile (a b : String) : IO Bool := do
  if Path.components a.toList == Path.components b.toList then return true
  match ← attempt (IO.FS.realPath a), ← attempt (IO.FS.realPath b) with
  | .ok x, .ok y => return x == y
  | _, _ => return false

def perform : FileTask → IO Printed
  | .done printed => return printed
  | .read path next => do
    let outcome ← attempt (IO.FS.readBinFile path)
    perform (next (outcome.map fun bytes => bytes.data.toList))
  | .write path bytes next => do
    let outcome ← attempt (IO.FS.writeBinFile path ⟨bytes.toArray⟩)
    perform (next outcome)
  | .sameFile a b next => do
    let same ← sameFile a b
    perform (next same)

/-- The environment file of the first directory on the way up that has one. -/
def environmentFile : List (List Char) → IO (List UInt8)
  | [] => return []
  | segment :: above => do
    let directory := "/".intercalate ((segment :: above).reverse.map String.ofList)
    match ← attempt (IO.FS.readBinFile (directory ++ "/.env")) with
    | .ok bytes => return bytes.data.toList
    | .error _ => environmentFile above

/-- The variables that have one of the given names. No variable has a name with a null
character. -/
def variablesNamed (names : List String) : IO Environment := do
  let readable := names.filter fun name => !name.contains '\x00'
  let found ← readable.mapM fun name => do
    return (← IO.getEnv name).map fun value => (name, value)
  return found.filterMap id

def environment : IO Environment := do
  let here ← IO.currentDir
  let file ← environmentFile (Path.segments here.toString.toList).reverse
  let env ← variablesNamed (Environment.settings ++ EnvironmentFile.mentioned file).eraseDups
  return EnvironmentFile.load env file

def emit (printed : Printed) : IO UInt32 := do
  IO.print printed.out
  IO.eprint printed.err
  return UInt32.ofNat printed.code

end InvariantMachine.Main

open InvariantMachine in
def main : List String → IO UInt32
  | "tasm" :: args => do Main.emit (← Main.perform (Assembler.command args))
  | "tim" :: args => do Main.emit (Boot.command args (← Main.environment))
  | _ => Main.emit ⟨1, "", "error: expected tasm or tim\n"⟩

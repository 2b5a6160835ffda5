import InvariantMachine.Assembly.Encode
import InvariantMachine.Code.Document
import InvariantMachine.Code.Listing
import InvariantMachine.Code.Stored
import InvariantMachine.Shell.FileTask

/-!
# The assembler command

Assembles a source file to a stored program, prints it as a document, or lists a stored program.
The command writes one file at most, and never the one that it reads.
-/

namespace InvariantMachine.Assembler

def usage : String :=
"tasm — TIM assembler

USAGE:
    tasm [options] <file>

OPTIONS:
    -o, --output <file>   Output file (default: <file> with .tim extension)
    -d, --disassemble     Disassemble a .tim file
        --json            Print the encoded program as JSON instead of writing it
    -v, --verbose         Print the listing after encoding
    -h, --help            Show help"

def hasFlag (args : List String) (short long : String) : Bool :=
  args.any fun a => a == short || a == long

def isOutputFlag (arg : String) : Bool := arg == "-o" || arg == "--output"

/-- The first argument that is neither an option nor the value of the output option. -/
def input? : List String → Option String
  | [] => none
  | [arg] => if isOutputFlag arg || arg.toList.head? == some '-' then none else some arg
  | arg :: value :: rest =>
    if isOutputFlag arg then input? rest
    else if arg.toList.head? == some '-' then input? (value :: rest)
    else some arg

def output? : List String → Option String
  | [] => none
  | arg :: rest => if isOutputFlag arg then rest.head? else output? rest

def succeed (out : String) : FileTask := .done ⟨0, out, ""⟩

def failWith (reason : String) : FileTask := .done ⟨1, "", s!"error: {reason}\n"⟩

/-- What is printed about a program that was stored. -/
def summary (source stored : String) (program : Program) (verbose : Bool) : String :=
  s!"✓ {source} -> {stored}\n   Instructions: {program.size}\n" ++
    s!"   Strings:      {program.strings.size}\n" ++
    (match program.entryPoint? with
      | some offset => s!"   Entry point:  {offset}\n"
      | none => "") ++
    (if verbose then "\n" ++ program.listing else "")

/-- Stores an assembled program unless that would overwrite its source. -/
def store (source : String) (program : Program) (args : List String) : FileTask :=
  let output := (output? args).getD (Path.stored source)
  .sameFile source output fun same =>
    if same then failWith s!"refusing to overwrite {source} with bytecode"
    else .write output program.toBytes fun
      | .ok () => succeed (summary source output program (hasFlag args "-v" "--verbose"))
      | .error fault =>
        failWith s!"cannot write {output}: I/O error: {fault.message}: {fault.message}"

def assembleFile (source : String) (args : List String) : FileTask :=
  .read source fun
    | .error fault => failWith s!"cannot read {source}: {fault.message}"
    | .ok bytes =>
      match utf8Text? bytes with
      | none => failWith s!"cannot read {source}: stream did not contain valid UTF-8"
      | some text =>
        match assemble text with
        | .error e => failWith s!"{source}: {e.message}"
        | .ok program =>
          if args.contains "--json" then succeed (program.document.pretty ++ "\n")
          else store source program args

/-- Writes the listing of a stored program to a file other than its own, or prints it. -/
def emitListing (source listing : String) (args : List String) : FileTask :=
  match output? args with
  | none => succeed listing
  | some output =>
    .sameFile source output fun same =>
      if same then failWith s!"refusing to overwrite {source} with its listing"
      else .write output (utf8Bytes listing) fun
        | .ok () => succeed s!"✓ {source} -> {output}\n"
        | .error fault => failWith s!"cannot write {output}: {fault.message}"

def disassembleFile (source : String) (args : List String) : FileTask :=
  .read source fun
    | .error fault =>
      failWith s!"cannot load {source}: I/O error: {fault.message}: {fault.message}"
    | .ok bytes =>
      match Program.ofBytes bytes with
      | .error e => failWith s!"cannot load {source}: {e.message}"
      | .ok program => emitListing source program.listing args

def command (args : List String) : FileTask :=
  if hasFlag args "-h" "--help" then succeed (usage ++ "\n")
  else
    match input? args with
    | none => .done ⟨1, "", usage ++ "\n"⟩
    | some source =>
      if hasFlag args "-d" "--disassemble" then disassembleFile source args
      else assembleFile source args

end InvariantMachine.Assembler

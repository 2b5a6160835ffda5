import InvariantMachine.Code.Program
import InvariantMachine.Text.Padding

/-!
# Listings

The readable form of a program: the entry point if it was declared, an indexed line for each
instruction, and the string pool if it holds anything.
-/

namespace InvariantMachine.Program

def listing (p : Program) : String :=
  let header := match p.entryPoint? with
    | some offset => s!"; entrypoint {offset}\n"
    | none => ""
  let code := p.instructions.toList.mapIdx fun index i => s!"{zeroPadded 4 index}  {i.text}\n"
  let pool := p.strings.toList.mapIdx fun index text =>
    s!"${leftAligned 4 index} {listedString text}\n"
  header ++ String.join code ++
    (if p.strings.isEmpty then "" else "\n; strings\n" ++ String.join pool)

end InvariantMachine.Program

import InvariantMachine.Code.StringPool
import InvariantMachine.Machine.Memory
import InvariantMachine.Machine.Stack
import InvariantMachine.Machine.Value
import InvariantMachine.Registration.Verifier

/-!
# What instructions do

The meaning of each instruction on the store that it works on: the stack, the registers, the
memory and the output. The entries that an instruction takes from the stack are counted before
anything is done. An instruction says where execution goes on and leaves that to the machine; one
that fails leaves the store as it is by then.
-/

namespace InvariantMachine

structure Store where
  stack : BoundedStack Value
  registers : Vector Value registerCount
  memory : Memory
  output : String
deriving DecidableEq

inductive Flow where
  | next
  | goto (address : Nat)
  | halt
deriving DecidableEq, Repr

/-- A failed instruction: the violation, and what it leaves of all that an instruction reaches. -/
structure Failure where
  violation : Violation
  store : Store
  pc : Nat
  registration : Registration
deriving DecidableEq

abbrev Effect := Except Failure (Store × Flow)

/-- What an instruction depends on besides the store. -/
structure Context where
  mode : ExecutionMode
  strings : StringPool
  here : Nat
  after : Nat
  verifier : Verifier
  registration : Registration

namespace Context

/-- What enforcing the registration invariants finds. -/
def enforced (ctx : Context) : Except Violation Unit := ctx.verifier.enforce ctx.registration

/-- A failure with a store. The program counter is behind the instruction by then. -/
def failure (ctx : Context) (s : Store) (violation : Violation) : Failure where
  violation := violation
  store := s
  pc := ctx.after
  registration := ctx.registration

end Context

namespace Store

/-- Takes the top entry. Where there is none, the default value stands in for it. -/
def pop (s : Store) : Value × Store :=
  match s.stack.pop? with
  | some (v, stack) => (v, { s with stack })
  | none => (default, s)

def push (ctx : Context) (s : Store) (v : Value) : Except Failure Store :=
  match s.stack.push v with
  | .ok stack => .ok { s with stack }
  | .error e => .error (ctx.failure s (.stackOverflow e.capacity))

end Store

namespace Effect

def fail (ctx : Context) (s : Store) (violation : Violation) : Effect :=
  .error (ctx.failure s violation)

/-- Pushes a value and goes on behind the instruction. -/
def push (ctx : Context) (s : Store) (v : Value) : Effect :=
  match s.push ctx v with
  | .ok s => .ok (s, .next)
  | .error failure => .error failure

/-- Pushes a value that may not exist. -/
def pushResult (ctx : Context) (s : Store) : Except Violation Value → Effect
  | .ok v => push ctx s v
  | .error violation => fail ctx s violation

/-- Too few entries on the stack: strict mode fails, lenient mode passes the instruction over. -/
def underflow (ctx : Context) (s : Store) (required : Nat) : Effect :=
  match ctx.mode with
  | .strict => fail ctx s (.stackUnderflow required s.stack.size)
  | .lenient => .ok (s, .next)

def integers (ctx : Context) (s : Store) (f : Int64 → Int64 → Int64) : Effect :=
  let (b, s) := s.pop
  let (a, s) := s.pop
  push ctx s (.int (f a.asInt b.asInt))

/-- An operation that a zero on the right refuses. -/
def divisions (ctx : Context) (s : Store) (f : Int64 → Int64 → Int64) : Effect :=
  let (b, s) := s.pop
  let (a, s) := s.pop
  if b.asInt = 0 then fail ctx s .divisionByZero else push ctx s (.int (f a.asInt b.asInt))

def floats (ctx : Context) (s : Store) (f : Binary64 → Binary64 → Binary64) : Effect :=
  let (b, s) := s.pop
  let (a, s) := s.pop
  push ctx s (.float (f a.asFloat b.asFloat))

/-- Pushes one or zero by the order of two entries. -/
def comparison (ctx : Context) (s : Store) (holds : Option Ordering → Bool) : Effect :=
  let (b, s) := s.pop
  let (a, s) := s.pop
  push ctx s (.int (if holds (a.compare? b) then 1 else 0))

def conversion (ctx : Context) (s : Store) (f : Value → Value) : Effect :=
  let (v, s) := s.pop
  push ctx s (f v)

end Effect

namespace Store

def operandValue (s : Store) (here : Nat) : Operand → Except Violation Value
  | .int v => .ok (.int v)
  | .float v => .ok (.float v)
  | .char c => .ok (.char c)
  | .stringIndex i => .ok (.str i)
  | .register index =>
    match s.registers[index.toNat]? with
    | some v => .ok v
    | none => .error (.registerOutOfBounds index)
  | .none => .error (.invalidOperand Operand.none.tag here)
  | .top => .error (.invalidOperand Operand.top.tag here)

end Store

namespace Context

def textOf (ctx : Context) (v : Value) : Except Violation String :=
  match v with
  | .str index =>
    match ctx.strings.get? index with
    | some text => .ok text
    | none => .error (.stringOutOfBounds index)
  | other => .error (.invalidOperand other.tag ctx.here)

def printed (ctx : Context) (v : Value) : Except Violation String :=
  match v with
  | .int n => .ok (toString n)
  | .float x => .ok (DecimalLayout.plain.write x)
  | .char c => .ok (String.ofList [c])
  | .str _ => ctx.textOf v

end Context

/-- The address that a jump carries; what is no address is past every memory. -/
def Operand.target : Operand → Nat
  | int t => if t.toInt < 0 then greatestSize else t.toInt.toNat
  | _ => greatestSize

namespace Store

open Effect

/-- Copies the top entry. -/
def duplicate (ctx : Context) (s : Store) : Effect :=
  let (v, s) := s.pop
  match s.push ctx v with
  | .ok s => Effect.push ctx s v
  | .error failure => .error failure

/-- Exchanges the two top entries; fewer than two stay as they are. -/
def exchange (s : Store) : Effect :=
  match s.stack.swapWithTop? 1 with
  | some stack => .ok ({ s with stack }, .next)
  | none => .ok (s, .next)

/-- Carries out an instruction that uses an entry below the top, at the depth that its operand
gives. A depth that the stack does not reach is an underflow. -/
def atDepth (ctx : Context) (s : Store) (operand : Operand) (act : Nat → Option Effect) : Effect :=
  match s.operandValue ctx.here operand with
  | .error violation => fail ctx s violation
  | .ok v =>
    match act v.asAddress with
    | some effect => effect
    | none => underflow ctx s (min (v.asAddress + 1) greatestSize)

/-- The string index that an operand stands for. A reading that is no index stands for the
greatest. -/
def stringIndexOf (s : Store) (here : Nat) : Operand → Except Violation UInt32
  | .stringIndex index => .ok index
  | operand => do
    let raw := (← s.operandValue here operand).asInt.toInt
    return if 0 ≤ raw ∧ raw ≤ 0xffffffff then UInt32.ofNat raw.toNat else 0xffffffff

def pushStringOf (ctx : Context) (s : Store) (operand : Operand) : Effect :=
  match s.stringIndexOf ctx.here operand with
  | .error violation => fail ctx s violation
  | .ok index =>
    match ctx.strings.get? index with
    | none => fail ctx s (.stringOutOfBounds index)
    | some _ => Effect.push ctx s (.str index)

def setRegister (s : Store) (index : UInt8) (v : Value) : Store :=
  { s with registers := s.registers.setIfInBounds index.toNat v }

/-- Moves a literal, a register or the top of the stack to a register. -/
def move (ctx : Context) (s : Store) (index : UInt8) (operand : Operand) : Effect :=
  if Instruction.isRegister index then
    match operand with
    | .top =>
      match s.stack.pop? with
      | some (v, stack) => .ok ({ s.setRegister index v with stack }, .next)
      | none => underflow ctx s 1
    | operand =>
      match s.operandValue ctx.here operand with
      | .error violation => fail ctx s violation
      | .ok v => .ok (s.setRegister index v, .next)
  else fail ctx s (.registerOutOfBounds index)

/-- Jumps if the top entry is zero, or if it is not. -/
def branch (s : Store) (onZero : Bool) (operand : Operand) : Effect :=
  let (v, s) := s.pop
  .ok (s, if v.isZero == onZero then .goto operand.target else .next)

def load (ctx : Context) (s : Store) : Effect :=
  let (address, s) := s.pop
  pushResult ctx s ((s.memory.read address.asAddress).map fun b => .int (Int64.ofNat b.toNat))

/-- Writes the lowest byte of the second entry to the address of the first. -/
def store (ctx : Context) (s : Store) : Effect :=
  let (address, s) := s.pop
  let (v, s) := s.pop
  match s.memory.write address.asAddress (UInt8.ofNat v.asInt.toUInt64.toNat) with
  | .error violation => fail ctx s violation
  | .ok memory => .ok ({ s with memory }, .next)

/-- Pushes the address after the instruction and jumps. -/
def call (ctx : Context) (s : Store) (operand : Operand) : Effect :=
  match s.push ctx (.int (Int64.ofNat ctx.after)) with
  | .ok s => .ok (s, .goto operand.target)
  | .error failure => .error failure

def ret (s : Store) : Effect :=
  let (v, s) := s.pop
  .ok (s, .goto v.asAddress)

def strlen (ctx : Context) (s : Store) : Effect :=
  let (v, s) := s.pop
  pushResult ctx s ((ctx.textOf v).map fun text => .int (Int64.ofNat text.length))

def print (ctx : Context) (s : Store) : Effect :=
  let (v, s) := s.pop
  match ctx.printed v with
  | .error violation => fail ctx s violation
  | .ok text => .ok ({ s with output := s.output ++ text }, .next)

end Store

open Effect in
/-- Carries out an instruction that finds its entries on the stack. -/
def perform (ctx : Context) (s : Store) (i : Instruction) : Effect :=
  match i.opcode with
  | .halt => .ok (s, .halt)
  | .nop | .mirror | .regCommit => .ok (s, .next)
  | .regCheck =>
    match ctx.enforced with
    | .error violation => fail ctx s violation
    | .ok _ => .ok (s, .next)
  | .push => pushResult ctx s (s.operandValue ctx.here i.operand)
  | .pop => .ok (s.pop.2, .next)
  | .dup => s.duplicate ctx
  | .swap => s.exchange
  | .indup => s.atDepth ctx i.operand fun depth => (s.stack.peekAt? depth).map (push ctx s)
  | .inswap => s.atDepth ctx i.operand fun depth =>
    (s.stack.swapWithTop? depth).map fun stack => .ok ({ s with stack }, .next)
  | .mov => s.move ctx (i.register.getD noRegister) i.operand
  | .pushStr | .getStr => s.pushStringOf ctx i.operand
  | .add => integers ctx s (· + ·)
  | .sub => integers ctx s (· - ·)
  | .mul => integers ctx s (· * ·)
  | .div => divisions ctx s (· / ·)
  | .mod => divisions ctx s (· % ·)
  | .and => integers ctx s (· &&& ·)
  | .or => integers ctx s (· ||| ·)
  | .addF => floats ctx s (· + ·)
  | .subF => floats ctx s (· - ·)
  | .mulF => floats ctx s (· * ·)
  | .divF => floats ctx s (· / ·)
  | .modF => floats ctx s Binary64.remainder
  | .cmpe => comparison ctx s (· == some .eq)
  | .cmpne => comparison ctx s (· != some .eq)
  | .cmpg => comparison ctx s (· == some .gt)
  | .cmpl => comparison ctx s (· == some .lt)
  | .cmpge => comparison ctx s fun o => o == some .gt || o == some .eq
  | .cmple => comparison ctx s fun o => o == some .lt || o == some .eq
  | .itof => conversion ctx s fun v => .float v.asFloat
  | .ftoi => conversion ctx s fun v => .int v.asFloat.toInt64
  | .itoc => conversion ctx s fun v => .char v.asChar
  | .load => s.load ctx
  | .store => s.store ctx
  | .jmp => .ok (s, .goto i.operand.target)
  | .zjmp => s.branch true i.operand
  | .nzjmp => s.branch false i.operand
  | .call => s.call ctx i.operand
  | .ret => s.ret
  | .native =>
    fail ctx s (.nativeCallUnsupported (match i.operand with | .int id => id | _ => -1))
  | .strlen => s.strlen ctx
  | .print => s.print ctx

def execute (ctx : Context) (s : Store) (i : Instruction) : Effect :=
  if i.opcode.stackInputs ≤ s.stack.size then perform ctx s i
  else Effect.underflow ctx s i.opcode.stackInputs

end InvariantMachine

import Mathlib
import InvariantMachine.Proofs.Underflow

/-!
# Stack discipline

The table of inputs and the instructions agree about the entries that are taken. Where the entries
of the table are there, no instruction meets an empty stack. An instruction that succeeds leaves
everything below its inputs as it was and puts its outputs in their place; only the exchange with
an entry at a depth reaches further down, and exchanges just two entries.
-/

namespace InvariantMachine

namespace BoundedStack

variable {α : Type} {s t : BoundedStack α} {depth : Nat}

/-- The second stack is the first with some entries from its top replaced by others. -/
structure Replaces (s t : BoundedStack α) (taken left : Nat) : Prop where
  taken_le : taken ≤ s.size
  size_eq : t.size = s.size - taken + left
  below_eq : t.toList.take (s.size - taken) = s.toList.take (s.size - taken)

/-- The second stack is the first with its top and the entry at a depth exchanged. -/
structure Exchanges (s t : BoundedStack α) (depth : Nat) : Prop where
  depth_lt : depth < s.size
  size_eq : t.size = s.size
  top_eq : t.peekAt? 0 = s.peekAt? depth
  deep_eq : t.peekAt? depth = s.peekAt? 0
  others_eq : ∀ d, d ≠ 0 → d ≠ depth → t.peekAt? d = s.peekAt? d

theorem replaces_of_items {taken left below : List α} (hs : s.items = taken ++ below)
    (ht : t.items = left ++ below) : s.Replaces t taken.length left.length := by
  have hsize : s.size = taken.length + below.length := by rw [size, hs, List.length_append]
  have hbelow : s.size - taken.length = below.reverse.length := by
    rw [List.length_reverse]
    omega
  constructor
  · omega
  · rw [size, ht, List.length_append, hbelow, List.length_reverse]
    omega
  · rw [hbelow, toList, toList, hs, ht, List.reverse_append, List.reverse_append]
    simp only [List.take_left]

theorem exchanges_of_swapWithTop? (h : s.swapWithTop? depth = some t) : s.Exchanges t depth := by
  obtain ⟨-, top, other, htop, hother, hitems⟩ := swapWithTop?_eq_some h
  have htop_lt : 0 < s.items.length := (List.getElem?_eq_some_iff.mp htop).1
  have hdepth_lt : depth < s.items.length := (List.getElem?_eq_some_iff.mp hother).1
  constructor
  · exact hdepth_lt
  · rw [size, size, hitems, List.length_set, List.length_set]
  · show t.items[0]? = s.items[depth]?
    rw [hitems, List.getElem?_set, hother]
    split
    · simp_all
    · simp [htop_lt]
  · show t.items[depth]? = s.items[0]?
    rw [hitems, htop]
    simp [hdepth_lt]
  · intro d hd hd'
    show t.items[d]? = s.items[d]?
    rw [hitems, List.getElem?_set_ne hd'.symm, List.getElem?_set_ne hd.symm]

theorem replaces_of_swapWithTop?_one (h : s.swapWithTop? 1 = some t) : s.Replaces t 2 2 := by
  obtain ⟨-, top, other, htop, hother, hitems⟩ := swapWithTop?_eq_some h
  match hs : s.items with
  | [] => simp [hs] at htop
  | [_] => simp [hs] at hother
  | a :: b :: below =>
    rw [hs] at htop hother hitems
    obtain rfl : a = top := by simpa using htop
    obtain rfl : b = other := by simpa using hother
    have hbefore : s.items = [a, b] ++ below := hs
    have hafter : t.items = [b, a] ++ below := hitems
    exact replaces_of_items hbefore hafter

end BoundedStack

/-! ### Entries taken on trust -/

namespace Effect

variable {missing : Effect} {ctx : Context} {s : Store}

/-- Takes the top entry; another effect stands in where there is none. -/
def takeOne (missing : Effect) (s : Store) (next : Value → BoundedStack Value → Effect) : Effect :=
  match s.stack.pop? with
  | none => missing
  | some (a, stack) => next a stack

def takeTwo (missing : Effect) (s : Store) (next : Value → Value → BoundedStack Value → Effect) :
    Effect :=
  match s.stack.pop? with
  | none => missing
  | some (b, below) =>
    match below.pop? with
    | none => missing
    | some (a, stack) => next a b stack

theorem takeOne_of_le {next : Value → BoundedStack Value → Effect} (h : 1 ≤ s.stack.size) :
    takeOne missing s next = withOne ctx s next := by
  unfold takeOne withOne
  cases hpop : s.stack.pop? with
  | none =>
    have hsize := BoundedStack.size_of_pop?_eq_none hpop
    omega
  | some entry => rfl

theorem takeTwo_of_le {next : Value → Value → BoundedStack Value → Effect}
    (h : 2 ≤ s.stack.size) : takeTwo missing s next = withTwo ctx s next := by
  unfold takeTwo withTwo
  cases hpop : s.stack.pop? with
  | none =>
    have hsize := BoundedStack.size_of_pop?_eq_none hpop
    omega
  | some entry =>
    have hsize := BoundedStack.size_of_pop?_eq_some hpop
    dsimp only
    cases hpop' : entry.2.pop? with
    | none =>
      have hsize' := BoundedStack.size_of_pop?_eq_none hpop'
      omega
    | some entry' => rfl

end Effect

open Effect

/-- Carries out an instruction on the trust that the entries it takes are there. Nothing is counted;
another effect stands in wherever the stack is found empty. The instructions that take no entry by
the table are carried out as ever. -/
def executeTrusting (missing : Effect) (ctx : Context) (s : Store) (i : Instruction) : Effect :=
  match i.opcode.binary?, i.opcode.unary? ctx s with
  | some f, _ => takeTwo missing s fun a b stack => pushResult ctx { s with stack } (f a b)
  | none, some f => takeOne missing s fun v stack => pushResult ctx { s with stack } (f v)
  | none, none =>
    match i.opcode with
    | .pop => takeOne missing s fun _ stack => .ok ({ s with stack }, .next)
    | .dup => takeOne missing s fun v stack =>
      match Store.push ctx { s with stack } v with
      | .ok s => push ctx s v
      | .error failure => .error failure
    | .swap =>
      match s.stack.swapWithTop? 1 with
      | none => missing
      | some stack => .ok ({ s with stack }, .next)
    | .store => takeTwo missing s fun v address stack =>
      match s.memory.write address.asAddress (UInt8.ofNat v.asInt.toUInt64.toNat) with
      | .error violation => fail ctx { s with stack } violation
      | .ok memory => .ok ({ s with stack, memory }, .next)
    | .print => takeOne missing s fun v stack =>
      match ctx.printed v with
      | .error violation => fail ctx { s with stack } violation
      | .ok text => .ok ({ s with stack, output := s.output ++ text }, .next)
    | .zjmp => takeOne missing s fun v stack =>
      .ok ({ s with stack }, if v.isZero == true then .goto i.operand.target else .next)
    | .nzjmp => takeOne missing s fun v stack =>
      .ok ({ s with stack }, if v.isZero == false then .goto i.operand.target else .next)
    | .ret => takeOne missing s fun v stack => .ok ({ s with stack }, .goto v.asAddress)
    | _ => execute ctx s i

variable {ctx : Context} {s : Store} {i : Instruction}

private theorem takeOne_copy (h : 1 ≤ s.stack.size) (missing : Effect) :
    (takeOne missing s fun v stack =>
      match Store.push ctx { s with stack } v with
      | .ok s => push ctx s v
      | .error failure => .error failure) = withOne ctx s fun v _ => push ctx s v := by
  unfold takeOne withOne
  cases hpop : s.stack.pop? with
  | none =>
    have hsize := BoundedStack.size_of_pop?_eq_none hpop
    omega
  | some entry =>
    dsimp only
    rw [Store.push_of_pop?_eq_some hpop]

/-- Where the entries that the table asks for are there, none is ever missed. -/
theorem executeTrusting_eq (h : i.opcode.stackInputs ≤ s.stack.size) (missing : Effect) :
    executeTrusting missing ctx s i = execute ctx s i := by
  cases hbinary : i.opcode.binary? with
  | some f =>
    rw [Opcode.stackInputs_of_binary hbinary] at h
    simp only [executeTrusting, hbinary]
    rw [execute_of_binary hbinary]
    exact takeTwo_of_le h
  | none =>
    cases hunary : i.opcode.unary? ctx s with
    | some f =>
      rw [Opcode.stackInputs_of_unary hunary] at h
      simp only [executeTrusting, hbinary, hunary]
      rw [execute_of_unary hunary]
      exact takeOne_of_le h
    | none =>
      simp only [executeTrusting, hbinary, hunary]
      cases hop : i.opcode <;> rw [hop] at h <;> try rfl
      case pop => exact (takeOne_of_le h).trans (execute_pop hop).symm
      case dup => exact (takeOne_copy h missing).trans (execute_dup hop).symm
      case zjmp => exact (takeOne_of_le h).trans (execute_branch true hop).symm
      case nzjmp => exact (takeOne_of_le h).trans (execute_branch false hop).symm
      case ret => exact (takeOne_of_le h).trans (execute_ret hop).symm
      case print => exact (takeOne_of_le h).trans (execute_print hop).symm
      case store => exact (takeTwo_of_le h).trans (execute_store hop).symm
      case swap =>
        rw [execute_swap hop]
        cases hswap : s.stack.swapWithTop? 1 with
        | none =>
          have hsize := BoundedStack.size_le_of_swapWithTop?_eq_none hswap
          change 2 ≤ s.stack.size at h
          omega
        | some stack => rfl

/-! ### Entries replaced -/

namespace Opcode

/-- The number of entries that the operation leaves in place of those that it takes. -/
def stackOutputs : Opcode → Nat
  | dup | swap => 2
  | push | pushStr | getStr | indup | call
  | add | sub | mul | div | mod | and | or | addF | subF | mulF | divF | modF
  | cmpe | cmpne | cmpg | cmpl | cmpge | cmple | itof | ftoi | itoc | load | strlen => 1
  | _ => 0

end Opcode

/-- The number of entries that an instruction takes: those of its opcode, and the top where a move
has it as its source. -/
def Instruction.stackInputs (i : Instruction) : Nat :=
  if i.opcode = .mov ∧ i.operand = .top then 1 else i.opcode.stackInputs

/-- An instruction other than an exchange at a depth takes and leaves so many entries. -/
structure Instruction.HasArity (i : Instruction) (taken left : Nat) : Prop where
  opcode_ne : i.opcode ≠ .inswap
  stackInputs_eq : i.stackInputs = taken
  stackOutputs_eq : i.opcode.stackOutputs = left

theorem Instruction.hasArity_of_opcode {op : Opcode} (hop : i.opcode = op)
    (hmov : op ≠ .mov := by decide) (hinswap : op ≠ .inswap := by decide) :
    i.HasArity op.stackInputs op.stackOutputs := by
  rw [← hop] at hmov hinswap ⊢
  exact ⟨hinswap, if_neg fun h => hmov h.1, rfl⟩

/-- What an instruction makes of the stack where it finds the entries that it uses. -/
inductive Store.Balanced (s : Store) (here : Nat) (i : Instruction) (s' : Store) : Prop
  | replaced (opcode : i.opcode ≠ .inswap)
      (entries : s.stack.Replaces s'.stack i.stackInputs i.opcode.stackOutputs)
  | exchanged {v : Value} (opcode : i.opcode = .inswap)
      (depth : s.operandValue here i.operand = .ok v)
      (entries : s.stack.Exchanges s'.stack v.asAddress)

/-- A lenient machine went on behind an instruction that lacked entries. -/
structure Context.Skips (ctx : Context) (s : Store) (i : Instruction) (s' : Store) (flow : Flow) :
    Prop where
  lenient : ctx.mode = .lenient
  lacks : s.Lacks ctx.here i
  store_eq : s' = s
  flow_eq : flow = .next

namespace Effect

variable {stack : BoundedStack Value}

/-- A success of the effect keeps the stack discipline of an instruction, or skips it. -/
def Balanced (ctx : Context) (s : Store) (i : Instruction) (e : Effect) : Prop :=
  e.Meets (fun s' flow => ctx.Skips s i s' flow ∨ s.Balanced ctx.here i s') fun _ => True

theorem balanced_underflow (h : s.Lacks ctx.here i) (required : Nat) :
    Balanced ctx s i (underflow ctx s required) :=
  meets_underflow (fun hlenient => .inl ⟨hlenient, h, rfl, rfl⟩) fun _ => trivial

theorem balanced_ok {below : List Value} (taken left : List Value) {s' : Store} {flow : Flow}
    (hs : s.stack.items = taken ++ below) (hs' : s'.stack.items = left ++ below)
    (h : i.HasArity taken.length left.length) : Balanced ctx s i (.ok (s', flow)) := by
  refine .inr (.replaced h.opcode_ne ?_)
  rw [h.stackInputs_eq, h.stackOutputs_eq]
  exact BoundedStack.replaces_of_items hs hs'

theorem balanced_push {below : List Value} (taken kept : List Value) {v : Value}
    (hs : s.stack.items = taken ++ below) (hstack : stack.items = kept ++ below)
    (h : i.HasArity taken.length (kept.length + 1)) :
    Balanced ctx s i (push ctx { s with stack } v) := by
  apply meets_push
  · intro t ht _
    have ht' : t.items = (v :: kept) ++ below := by rw [ht, hstack, List.cons_append]
    have hpushed : Balanced ctx s i (.ok ({ s with stack := t }, .next)) :=
      balanced_ok taken (v :: kept) hs ht' h
    exact hpushed
  · exact fun _ => trivial

theorem balanced_pushResult {below : List Value} (taken kept : List Value)
    {result : Except Violation Value} (hs : s.stack.items = taken ++ below)
    (hstack : stack.items = kept ++ below) (h : i.HasArity taken.length (kept.length + 1)) :
    Balanced ctx s i (pushResult ctx { s with stack } result) := by
  cases result with
  | ok v => exact balanced_push taken kept hs hstack h
  | error violation => trivial

theorem balanced_withOne {next : Value → BoundedStack Value → Effect}
    (hin : i.opcode.stackInputs = 1)
    (h : ∀ a rest, s.stack.items = [a] ++ rest.items → Balanced ctx s i (next a rest)) :
    Balanced ctx s i (withOne ctx s next) := by
  apply meets_withOne
  · intro hnil
    apply balanced_underflow
    apply Store.Lacks.inputs
    rw [hin, BoundedStack.size, hnil]
    exact Nat.one_pos
  · intro a rest hitems _
    exact h a rest hitems

theorem balanced_withTwo {next : Value → Value → BoundedStack Value → Effect}
    (hin : i.opcode.stackInputs = 2)
    (h : ∀ a b rest, s.stack.items = [b, a] ++ rest.items → Balanced ctx s i (next a b rest)) :
    Balanced ctx s i (withTwo ctx s next) := by
  apply meets_withTwo
  · intro hshort
    apply balanced_underflow
    apply Store.Lacks.inputs
    rw [hin]
    exact hshort
  · intro a b rest hitems _
    exact h a b rest hitems

theorem balanced_atDepth {α : Type} {find : Nat → Option α} {next : α → Effect}
    (hop : i.opcode = .indup ∨ i.opcode = .inswap)
    (hdeep : ∀ depth, find depth = none → s.stack.size ≤ depth)
    (h : ∀ v a, s.operandValue ctx.here i.operand = .ok v → find v.asAddress = some a →
      Balanced ctx s i (next a)) :
    Balanced ctx s i (s.atDepth ctx i.operand fun depth => (find depth).map next) := by
  apply meets_atDepth
  · exact fun _ _ => trivial
  · intro v effect hvalue he
    obtain ⟨a, ha, rfl⟩ := Option.map_eq_some_iff.mp he
    exact h v a hvalue ha
  · intro v hvalue hnone
    apply balanced_underflow
    apply Store.Lacks.depth hop hvalue
    have hle := hdeep v.asAddress (Option.map_eq_none_iff.mp hnone)
    unfold Value.asAddress at hle
    split at hle
    · left
      assumption
    · right
      omega

end Effect

theorem Instruction.hasArity_of_binary {f : Value → Value → Except Violation Value}
    (h : i.opcode.binary? = some f) : i.HasArity 2 1 := by
  cases hop : i.opcode <;> rw [hop] at h <;>
    first
    | exact Instruction.hasArity_of_opcode hop
    | contradiction

theorem Instruction.hasArity_of_unary {f : Value → Except Violation Value}
    (h : i.opcode.unary? ctx s = some f) : i.HasArity 1 1 := by
  cases hop : i.opcode <;> rw [hop] at h <;>
    first
    | exact Instruction.hasArity_of_opcode hop
    | contradiction

theorem balanced_move (hop : i.opcode = .mov) :
    Balanced ctx s i (s.move ctx (i.register.getD noRegister) i.operand) := by
  have hinswap : i.opcode ≠ .inswap := by simp [hop]
  have hleft : i.opcode.stackOutputs = 0 := by
    rw [hop]
    rfl
  by_cases hvalid : Instruction.isRegister (i.register.getD noRegister)
  · by_cases htop : i.operand = .top
    · have harity : i.HasArity 1 0 := ⟨hinswap, if_pos ⟨hop, htop⟩, hleft⟩
      rw [htop, Store.move_top hvalid]
      -- The table has no input for a move, so what it lacks is the top and no input.
      apply meets_withOne
      · intro hnil
        apply balanced_underflow
        cases hregister : i.register with
        | none =>
          rw [hregister] at hvalid
          contradiction
        | some index =>
          rw [hregister] at hvalid
          apply Store.Lacks.top hop hregister hvalid htop
          rw [BoundedStack.size, hnil]
          rfl
      · intro v rest hitems _
        exact balanced_ok [v] [] hitems rfl harity
    · have hin : i.stackInputs = 0 := by
        rw [Instruction.stackInputs, if_neg fun h => htop h.2, hop]
        rfl
      rw [Store.move_of_ne_top hvalid htop]
      split
      · trivial
      · exact balanced_ok [] [] rfl rfl ⟨hinswap, hin, hleft⟩
  · rw [Store.move_of_not_isRegister hvalid]
    trivial

/-- Every instruction that succeeds keeps the discipline, unless it lacked entries and was
skipped. -/
theorem execute_balanced : Balanced ctx s i (execute ctx s i) := by
  have hinputs {op : Opcode} (hop : i.opcode = op) : i.opcode.stackInputs = op.stackInputs :=
    congrArg _ hop
  apply execute_elim (motive := Balanced ctx s i)
  case binary =>
    intro f hf
    apply balanced_withTwo (Opcode.stackInputs_of_binary hf)
    intro a b rest hs
    exact balanced_pushResult [b, a] [] hs rfl (Instruction.hasArity_of_binary hf)
  case unary =>
    intro f hf
    apply balanced_withOne (Opcode.stackInputs_of_unary hf)
    intro v rest hs
    exact balanced_pushResult [v] [] hs rfl (Instruction.hasArity_of_unary hf)
  case halt | jmp =>
    intro hop
    exact balanced_ok [] [] rfl rfl (Instruction.hasArity_of_opcode hop)
  case idle =>
    intro hop
    rcases hop with hop | hop | hop <;>
      exact balanced_ok [] [] rfl rfl (Instruction.hasArity_of_opcode hop)
  case check =>
    intro hop
    split
    · trivial
    · exact balanced_ok [] [] rfl rfl (Instruction.hasArity_of_opcode hop)
  case push =>
    intro hop
    exact balanced_pushResult [] [] rfl rfl (Instruction.hasArity_of_opcode hop)
  case pop =>
    intro hop
    apply balanced_withOne (hinputs hop)
    intro v rest hs
    exact balanced_ok [v] [] hs rfl (Instruction.hasArity_of_opcode hop)
  case dup =>
    intro hop
    apply balanced_withOne (hinputs hop)
    intro v rest hs
    exact balanced_push [v] [v] hs hs (Instruction.hasArity_of_opcode hop)
  case swap =>
    intro hop
    split
    · rename_i hswap
      apply balanced_underflow
      apply Store.Lacks.inputs
      rw [hinputs hop]
      exact Nat.lt_succ_of_le (BoundedStack.size_le_of_swapWithTop?_eq_none hswap)
    · rename_i stack hswap
      obtain ⟨hopcode, hin, hout⟩ := Instruction.hasArity_of_opcode hop
      refine .inr (.replaced hopcode ?_)
      rw [hin, hout]
      exact BoundedStack.replaces_of_swapWithTop?_one hswap
  case indup =>
    intro hop
    apply balanced_atDepth (.inl hop)
    · intro depth hnone
      exact List.getElem?_eq_none_iff.mp hnone
    · intro _ v _ _
      exact balanced_push [] [] rfl rfl (Instruction.hasArity_of_opcode hop)
  case inswap =>
    intro hop
    apply balanced_atDepth (.inr hop)
    · intro depth hnone
      exact BoundedStack.size_le_of_swapWithTop?_eq_none hnone
    · intro v stack hvalue hswap
      exact .inr (.exchanged hop hvalue (BoundedStack.exchanges_of_swapWithTop? hswap))
  case mov => exact balanced_move
  case string =>
    intro hop
    have hpushes : i.HasArity 0 1 := by
      rcases hop with hop | hop <;> exact Instruction.hasArity_of_opcode hop
    unfold Store.pushStringOf
    split
    · trivial
    · split
      · trivial
      · exact balanced_push [] [] rfl rfl hpushes
  case store =>
    intro hop
    apply balanced_withTwo (hinputs hop)
    intro v address rest hs
    split
    · trivial
    · exact balanced_ok [address, v] [] hs rfl (Instruction.hasArity_of_opcode hop)
  case print =>
    intro hop
    apply balanced_withOne (hinputs hop)
    intro v rest hs
    split
    · trivial
    · exact balanced_ok [v] [] hs rfl (Instruction.hasArity_of_opcode hop)
  case branch =>
    intro onZero hop
    have htakes : i.HasArity 1 0 := by
      cases onZero <;> exact Instruction.hasArity_of_opcode hop
    have hin : i.opcode.stackInputs = 1 := by
      cases onZero <;> exact hinputs hop
    apply balanced_withOne hin
    intro v rest hs
    exact balanced_ok [v] [] hs rfl htakes
  case call =>
    intro hop
    apply meets_call
    · intro t hitems _
      have hcalled : Balanced ctx s i (.ok ({ s with stack := t }, .goto i.operand.target)) :=
        balanced_ok [] [_] rfl hitems (Instruction.hasArity_of_opcode hop)
      exact hcalled
    · exact fun _ => trivial
  case ret =>
    intro hop
    apply balanced_withOne (hinputs hop)
    intro v rest hs
    exact balanced_ok [v] [] hs rfl (Instruction.hasArity_of_opcode hop)
  case native => exact fun _ _ => trivial

/-- Where the entries that the table asks for are there, an instruction never finds the stack empty,
whatever stands in for what it would miss. An instruction that succeeds, and was not skipped for
want of entries, leaves those below its inputs as they were and its outputs in the place of the
inputs. The one exception exchanges the top with the entry at a depth and leaves all others. -/
theorem execute_takes_inputs_leaves_outputs (ctx : Context) (s : Store) (i : Instruction) :
    (i.opcode.stackInputs ≤ s.stack.size →
      ∀ missing, executeTrusting missing ctx s i = execute ctx s i) ∧
    ∀ s' flow, execute ctx s i = .ok (s', flow) →
      ctx.Skips s i s' flow ∨ s.Balanced ctx.here i s' := by
  constructor
  · exact executeTrusting_eq
  · intro s' flow h
    exact execute_balanced.of_ok h

private def strictContext : Context := ⟨.strict, .empty, 0, 1, .ofConfig .standard, .initial⟩

private def threeEntries : Store where
  stack := ⟨[.int 3, .int 2, .int 1], 3, by decide⟩
  registers := Vector.replicate registerCount default
  memory := .ofSize 0
  output := ""

/-- On a full stack of three entries, a sum takes two and leaves one, and an exchange at depth two
reaches the bottom. -/
theorem execute_takes_inputs_leaves_outputs_sumAndExchange :
    (∃ s', execute strictContext threeEntries (.bare .add) = .ok (s', .next) ∧
      threeEntries.stack.Replaces s'.stack 2 1 ∧
      ∀ missing, executeTrusting missing strictContext threeEntries (.bare .add) =
        .ok (s', .next)) ∧
    ∃ s', execute strictContext threeEntries (.withOperand .inswap (.int 2)) = .ok (s', .next) ∧
      threeEntries.stack.Exchanges s'.stack 2 := by
  have hstrict : strictContext.mode ≠ .lenient := by decide
  constructor
  · obtain ⟨htrusting, hsuccess⟩ :=
      execute_takes_inputs_leaves_outputs strictContext threeEntries (.bare .add)
    have hrun : execute strictContext threeEntries (.bare .add) =
        .ok ({ threeEntries with stack := ⟨[.int 5, .int 1], 3, by decide⟩ }, .next) := by
      decide +kernel
    refine ⟨_, hrun, ?_, fun missing => (htrusting (by decide) missing).trans hrun⟩
    rcases hsuccess _ _ hrun with hskips | ⟨-, hentries⟩ | ⟨hop, -, -⟩
    · exact absurd hskips.lenient hstrict
    · exact hentries
    · contradiction
  · obtain ⟨-, hsuccess⟩ := execute_takes_inputs_leaves_outputs strictContext threeEntries
      (.withOperand .inswap (.int 2))
    have hrun : execute strictContext threeEntries (.withOperand .inswap (.int 2)) =
        .ok ({ threeEntries with stack := ⟨[.int 1, .int 2, .int 3], 3, by decide⟩ }, .next) := by
      decide +kernel
    refine ⟨_, hrun, ?_⟩
    rcases hsuccess _ _ hrun with hskips | ⟨hop, -⟩ | ⟨-, hdepth, hentries⟩
    · exact absurd hskips.lenient hstrict
    · contradiction
    · cases hdepth
      exact hentries

end InvariantMachine

import Mathlib
import InvariantMachine.Machine.Execute

/-!
# What an instruction can do

An effect meets two conditions, one on the store and the flow of a success and one on the failure.
Each way of putting effects together has a rule for this. The instructions fall into a few groups:
those that only turn the entries they take into a value are described by the value, and every
other one by itself. A property of all instructions is proved group by group.
-/

namespace InvariantMachine

theorem map_eq_ok {ε α β : Type} {x : Except ε α} {f : α → β} {b : β}
    (h : x.map f = .ok b) : ∃ a, x = .ok a ∧ b = f a := by
  cases x with
  | error e => contradiction
  | ok a => exact ⟨a, rfl, (Except.ok.inj h).symm⟩

theorem map_eq_error {ε α β : Type} {x : Except ε α} {f : α → β} {e : ε}
    (h : x.map f = .error e) : x = .error e := by
  cases x with
  | error e' => exact congrArg Except.error (Except.error.inj h)
  | ok a => contradiction

namespace BoundedStack

variable {α : Type} {s t : BoundedStack α} {a b : α} {depth : Nat}

theorem pop?_eq_some (h : s.pop? = some (a, t)) :
    s.items = a :: t.items ∧ t.capacity = s.capacity := by
  unfold pop? at h
  split at h
  · contradiction
  · rename_i hitems
    obtain ⟨rfl, rfl⟩ := Prod.mk.inj (Option.some.inj h)
    exact ⟨hitems, rfl⟩

theorem items_of_pop?_eq_none (h : s.pop? = none) : s.items = [] := by
  unfold pop? at h
  split at h
  · assumption
  · contradiction

theorem size_of_pop?_eq_none (h : s.pop? = none) : s.size = 0 := by
  rw [size, items_of_pop?_eq_none h]
  rfl

theorem size_of_pop?_eq_some (h : s.pop? = some (a, t)) : s.size = t.size + 1 := by
  rw [size, (pop?_eq_some h).1]
  rfl

theorem push_eq_ok (h : s.push a = .ok t) :
    t.items = a :: s.items ∧ t.capacity = s.capacity := by
  unfold push at h
  split at h
  · obtain rfl := Except.ok.inj h
    exact ⟨rfl, rfl⟩
  · contradiction

theorem push_eq_error {e : CapacityExceeded} (h : s.push a = .error e) :
    e = ⟨.stack, s.capacity⟩ ∧ s.items.length = s.capacity := by
  have hle := s.length_le
  unfold push at h
  split at h
  · contradiction
  · exact ⟨(Except.error.inj h).symm, by omega⟩

theorem mem_of_peekAt?_eq_some (h : s.peekAt? depth = some a) : a ∈ s.items :=
  List.mem_of_getElem? h

theorem swapWithTop?_eq_some (h : s.swapWithTop? depth = some t) :
    t.capacity = s.capacity ∧ ∃ top other, s.items[0]? = some top ∧ s.items[depth]? = some other ∧
      t.items = (s.items.set 0 other).set depth top := by
  unfold swapWithTop? at h
  split at h
  · rename_i top other htop hother
    obtain rfl := Option.some.inj h
    rw [peek?, List.head?_eq_getElem?] at htop
    exact ⟨rfl, top, other, htop, hother, rfl⟩
  · contradiction

theorem size_le_of_swapWithTop?_eq_none (h : s.swapWithTop? depth = none) : s.size ≤ depth := by
  unfold swapWithTop? at h
  split at h
  · contradiction
  · rename_i hnone
    by_contra hlt
    have hdepth : depth < s.items.length := Nat.not_le.mp hlt
    have hpos : 0 < s.items.length := by omega
    refine hnone s.items[0] s.items[depth] ?_ (List.getElem?_eq_getElem hdepth)
    rw [peek?, List.head?_eq_getElem?, List.getElem?_eq_getElem hpos]

theorem mem_of_swapWithTop? (h : s.swapWithTop? depth = some t) (ha : a ∈ t.items) :
    a ∈ s.items := by
  obtain ⟨-, top, other, htop, hother, hitems⟩ := swapWithTop?_eq_some h
  rw [hitems] at ha
  rcases List.mem_or_eq_of_mem_set ha with ha | rfl
  · rcases List.mem_or_eq_of_mem_set ha with ha | rfl
    · exact ha
    · exact List.mem_of_getElem? hother
  · exact List.mem_of_getElem? htop

end BoundedStack

namespace Effect

variable {ctx : Context} {s : Store}
variable {done : Store → Flow → Prop} {failed : Failure → Prop}

def withOne (ctx : Context) (s : Store) (next : Value → BoundedStack Value → Effect) : Effect :=
  match s.stack.pop? with
  | none => underflow ctx s 1
  | some (a, stack) => next a stack

def withTwo (ctx : Context) (s : Store) (next : Value → Value → BoundedStack Value → Effect) :
    Effect :=
  match s.stack.pop? with
  | none => underflow ctx s 2
  | some (b, below) =>
    match below.pop? with
    | none => underflow ctx s 2
    | some (a, stack) => next a b stack

/-- Both ways an effect can end meet their conditions. -/
def Meets (e : Effect) (done : Store → Flow → Prop) (failed : Failure → Prop) : Prop :=
  match e with
  | .ok (s, flow) => done s flow
  | .error failure => failed failure

theorem Meets.of_ok {e : Effect} {s' : Store} {flow : Flow} (h : e.Meets done failed)
    (he : e = .ok (s', flow)) : done s' flow := by
  rw [he] at h
  exact h

theorem Meets.of_error {e : Effect} {failure : Failure} (h : e.Meets done failed)
    (he : e = .error failure) : failed failure := by
  rw [he] at h
  exact h

theorem Meets.imp {e : Effect} {done' : Store → Flow → Prop} {failed' : Failure → Prop}
    (h : e.Meets done failed) (hdone : ∀ s flow, done s flow → done' s flow)
    (hfailed : ∀ failure, failed failure → failed' failure) : e.Meets done' failed' := by
  cases e with
  | ok result => exact hdone _ _ h
  | error failure => exact hfailed _ h

theorem meets_push {v : Value}
    (hdone : ∀ t : BoundedStack Value, t.items = v :: s.stack.items →
      t.capacity = s.stack.capacity → done { s with stack := t } .next)
    (hfull : s.stack.items.length = s.stack.capacity →
      failed (ctx.failure s (.stackOverflow s.stack.capacity))) :
    (push ctx s v).Meets done failed := by
  unfold push Store.push
  cases hpush : s.stack.push v with
  | ok t =>
    obtain ⟨hitems, hcap⟩ := BoundedStack.push_eq_ok hpush
    exact hdone t hitems hcap
  | error e =>
    obtain ⟨rfl, hlen⟩ := BoundedStack.push_eq_error hpush
    exact hfull hlen

theorem meets_call {operand : Operand}
    (hdone : ∀ t : BoundedStack Value, t.items = .int (Int64.ofNat ctx.after) :: s.stack.items →
      t.capacity = s.stack.capacity → done { s with stack := t } (.goto operand.target))
    (hfull : s.stack.items.length = s.stack.capacity →
      failed (ctx.failure s (.stackOverflow s.stack.capacity))) :
    (s.call ctx operand).Meets done failed := by
  unfold Store.call Store.push
  cases hpush : s.stack.push (.int (Int64.ofNat ctx.after)) with
  | ok t =>
    obtain ⟨hitems, hcap⟩ := BoundedStack.push_eq_ok hpush
    exact hdone t hitems hcap
  | error e =>
    obtain ⟨rfl, hlen⟩ := BoundedStack.push_eq_error hpush
    exact hfull hlen

theorem meets_pushResult {result : Except Violation Value}
    (hdone : ∀ v, result = .ok v → ∀ t : BoundedStack Value, t.items = v :: s.stack.items →
      t.capacity = s.stack.capacity → done { s with stack := t } .next)
    (hfull : s.stack.items.length = s.stack.capacity →
      failed (ctx.failure s (.stackOverflow s.stack.capacity)))
    (herror : ∀ violation, result = .error violation → failed (ctx.failure s violation)) :
    (pushResult ctx s result).Meets done failed := by
  cases result with
  | ok v => exact meets_push (hdone v rfl) hfull
  | error violation => exact herror violation rfl

theorem meets_underflow {required : Nat} (hlenient : ctx.mode = .lenient → done s .next)
    (hstrict : ctx.mode = .strict →
      failed (ctx.failure s (.stackUnderflow required s.stack.size))) :
    (underflow ctx s required).Meets done failed := by
  unfold underflow
  split
  · rename_i h
    exact hstrict h
  · rename_i h
    exact hlenient h

theorem meets_withOne {next : Value → BoundedStack Value → Effect}
    (hshort : s.stack.items = [] → (underflow ctx s 1).Meets done failed)
    (hnext : ∀ a rest, s.stack.items = a :: rest.items → rest.capacity = s.stack.capacity →
      (next a rest).Meets done failed) :
    (withOne ctx s next).Meets done failed := by
  unfold withOne
  split
  · rename_i h
    exact hshort (BoundedStack.items_of_pop?_eq_none h)
  · rename_i a rest h
    obtain ⟨hitems, hcap⟩ := BoundedStack.pop?_eq_some h
    exact hnext a rest hitems hcap

theorem meets_withTwo {next : Value → Value → BoundedStack Value → Effect}
    (hshort : s.stack.items.length < 2 → (underflow ctx s 2).Meets done failed)
    (hnext : ∀ a b rest, s.stack.items = b :: a :: rest.items →
      rest.capacity = s.stack.capacity → (next a b rest).Meets done failed) :
    (withTwo ctx s next).Meets done failed := by
  unfold withTwo
  split
  · rename_i h
    have hnil := BoundedStack.items_of_pop?_eq_none h
    exact hshort (by simp [hnil])
  · rename_i b below h
    obtain ⟨hitems, hcap⟩ := BoundedStack.pop?_eq_some h
    split
    · rename_i h'
      have hnil := BoundedStack.items_of_pop?_eq_none h'
      exact hshort (by simp [hitems, hnil])
    · rename_i a rest h'
      obtain ⟨hitems', hcap'⟩ := BoundedStack.pop?_eq_some h'
      exact hnext a b rest (by rw [hitems, hitems']) (hcap'.trans hcap)

theorem meets_atDepth {here : Operand} {act : Nat → Option Effect}
    (herror : ∀ violation, s.operandValue ctx.here here = .error violation →
      failed (ctx.failure s violation))
    (hact : ∀ v effect, s.operandValue ctx.here here = .ok v → act v.asAddress = some effect →
      effect.Meets done failed)
    (hshort : ∀ v, s.operandValue ctx.here here = .ok v → act v.asAddress = none →
      (underflow ctx s (min (v.asAddress + 1) greatestSize)).Meets done failed) :
    (s.atDepth ctx here act).Meets done failed := by
  unfold Store.atDepth
  split
  · rename_i violation h
    exact herror violation h
  · rename_i v h
    split
    · rename_i effect he
      exact hact v effect h he
    · rename_i he
      exact hshort v h he

end Effect

/-! ### Entries counted and taken -/

namespace BoundedStack

variable {α : Type} {s : BoundedStack α} {depth : Nat}

theorem peekAt?_eq_none (h : s.size ≤ depth) : s.peekAt? depth = none :=
  List.getElem?_eq_none_iff.mpr h

theorem swapWithTop?_eq_none (h : s.size ≤ depth) : s.swapWithTop? depth = none := by
  cases hswap : s.swapWithTop? depth with
  | none => rfl
  | some t =>
    obtain ⟨-, top, other, -, hother, -⟩ := swapWithTop?_eq_some hswap
    cases hother.symm.trans (peekAt?_eq_none h)

theorem push_of_pop?_eq_some {a : α} {t : BoundedStack α} (h : s.pop? = some (a, t)) :
    t.push a = .ok s := by
  obtain ⟨hitems, hcap⟩ := pop?_eq_some h
  have hle := s.length_le
  rw [hitems, List.length_cons] at hle
  rw [push, dif_pos (by omega)]
  exact congrArg Except.ok (ext hitems.symm hcap)

end BoundedStack

open Effect

variable {ctx : Context} {s : Store} {i : Instruction}

theorem Store.pop_of_pop?_eq_some {v : Value} {stack : BoundedStack Value}
    (h : s.stack.pop? = some (v, stack)) : s.pop = (v, { s with stack }) := by
  rw [pop, h]

theorem Store.push_of_pop?_eq_some {v : Value} {stack : BoundedStack Value}
    (h : s.stack.pop? = some (v, stack)) : Store.push ctx { s with stack } v = .ok s := by
  rw [push, BoundedStack.push_of_pop?_eq_some h]

/-- The table has no input for a move. One of the top takes it where there is one. -/
theorem Store.move_top {index : UInt8} (h : Instruction.isRegister index) :
    s.move ctx index .top =
      withOne ctx s fun v rest => .ok ({ s.setRegister index v with stack := rest }, .next) := by
  rw [move, if_pos h, withOne]
  cases s.stack.pop? <;> rfl

theorem Store.move_of_ne_top {index : UInt8} {o : Operand} (h : Instruction.isRegister index)
    (ho : o ≠ .top) : s.move ctx index o = match s.operandValue ctx.here o with
      | .error violation => fail ctx s violation
      | .ok v => .ok (s.setRegister index v, .next) := by
  cases o with
  | top => contradiction
  | none | int _ | float _ | char _ | stringIndex _ | register _ => exact if_pos h

theorem Store.move_of_not_isRegister {index : UInt8} {o : Operand}
    (h : ¬Instruction.isRegister index) :
    s.move ctx index o = fail ctx s (.registerOutOfBounds index) := by
  cases o <;> exact if_neg h

theorem execute_of_short (h : s.stack.size < i.opcode.stackInputs) :
    execute ctx s i = underflow ctx s i.opcode.stackInputs :=
  if_neg (Nat.not_le.mpr h)

theorem execute_of_enough (h : i.opcode.stackInputs ≤ s.stack.size) :
    execute ctx s i = perform ctx s i :=
  if_pos h

theorem execute_of_none {op : Opcode} (hop : i.opcode = op) (hin : op.stackInputs = 0) :
    execute ctx s i = perform ctx s i := by
  apply execute_of_enough
  rw [hop, hin]
  exact Nat.zero_le _

theorem execute_of_one {next : Value → BoundedStack Value → Effect}
    (hin : i.opcode.stackInputs = 1)
    (h : ∀ v rest, s.stack.pop? = some (v, rest) → perform ctx s i = next v rest) :
    execute ctx s i = withOne ctx s next := by
  unfold withOne
  cases hpop : s.stack.pop? with
  | none =>
    have hsize := BoundedStack.size_of_pop?_eq_none hpop
    rw [execute_of_short (by omega), hin]
  | some entry =>
    have hsize := BoundedStack.size_of_pop?_eq_some hpop
    rw [execute_of_enough (by omega)]
    exact h entry.1 entry.2 hpop

theorem execute_of_two {next : Value → Value → BoundedStack Value → Effect}
    (hin : i.opcode.stackInputs = 2)
    (h : ∀ a b below rest, s.stack.pop? = some (b, below) → below.pop? = some (a, rest) →
      perform ctx s i = next a b rest) :
    execute ctx s i = withTwo ctx s next := by
  unfold withTwo
  cases hpop : s.stack.pop? with
  | none =>
    have hsize := BoundedStack.size_of_pop?_eq_none hpop
    rw [execute_of_short (by omega), hin]
  | some entry =>
    have hsize := BoundedStack.size_of_pop?_eq_some hpop
    dsimp only
    cases hpop' : entry.2.pop? with
    | none =>
      have hsize' := BoundedStack.size_of_pop?_eq_none hpop'
      rw [execute_of_short (by omega), hin]
    | some entry' =>
      have hsize' := BoundedStack.size_of_pop?_eq_some hpop'
      rw [execute_of_enough (by omega)]
      exact h entry'.1 entry.1 entry.2 entry'.2 hpop hpop'

/-! ### The groups of instructions -/

namespace Opcode

variable {op : Opcode}

/-- What an opcode makes of two entries, if that is all it does. -/
def binary? : Opcode → Option (Value → Value → Except Violation Value)
  | add => integers (· + ·)
  | sub => integers (· - ·)
  | mul => integers (· * ·)
  | and => integers (· &&& ·)
  | or => integers (· ||| ·)
  | div => divisions (· / ·)
  | mod => divisions (· % ·)
  | addF => floats (· + ·)
  | subF => floats (· - ·)
  | mulF => floats (· * ·)
  | divF => floats (· / ·)
  | modF => floats Binary64.remainder
  | cmpe => comparison (· == some .eq)
  | cmpne => comparison (· != some .eq)
  | cmpg => comparison (· == some .gt)
  | cmpl => comparison (· == some .lt)
  | cmpge => comparison fun o => o == some .gt || o == some .eq
  | cmple => comparison fun o => o == some .lt || o == some .eq
  | _ => none
where
  integers (f : Int64 → Int64 → Int64) : Option (Value → Value → Except Violation Value) :=
    some fun a b => .ok (.int (f a.asInt b.asInt))
  divisions (f : Int64 → Int64 → Int64) : Option (Value → Value → Except Violation Value) :=
    some fun a b =>
      if b.asInt = 0 then .error .divisionByZero else .ok (.int (f a.asInt b.asInt))
  floats (f : Binary64 → Binary64 → Binary64) :
      Option (Value → Value → Except Violation Value) :=
    some fun a b => .ok (.float (f a.asFloat b.asFloat))
  comparison (holds : Option Ordering → Bool) :
      Option (Value → Value → Except Violation Value) :=
    some fun a b => .ok (.int (if holds (a.compare? b) then 1 else 0))

/-- What an opcode makes of one entry, if that is all it does. -/
def unary? (ctx : Context) (s : Store) : Opcode → Option (Value → Except Violation Value)
  | itof => some fun v => .ok (.float v.asFloat)
  | ftoi => some fun v => .ok (.int v.asFloat.toInt64)
  | itoc => some fun v => .ok (.char v.asChar)
  | load => some fun v => (s.memory.read v.asAddress).map fun b => .int (Int64.ofNat b.toNat)
  | strlen => some fun v => (ctx.textOf v).map fun text => .int (Int64.ofNat text.length)
  | _ => none

theorem stackInputs_of_binary {f : Value → Value → Except Violation Value}
    (h : op.binary? = some f) : op.stackInputs = 2 := by
  cases op <;> first | rfl | contradiction

theorem stackInputs_of_unary {f : Value → Except Violation Value}
    (h : op.unary? ctx s = some f) : op.stackInputs = 1 := by
  cases op <;> first | rfl | contradiction

end Opcode

/-! ### The effect of each group -/

theorem perform_of_binary {f : Value → Value → Except Violation Value}
    (h : i.opcode.binary? = some f) {a b : Value} {below rest : BoundedStack Value}
    (hb : s.stack.pop? = some (b, below)) (ha : below.pop? = some (a, rest)) :
    perform ctx s i = pushResult ctx { s with stack := rest } (f a b) := by
  have hpop := Store.pop_of_pop?_eq_some hb
  have hpop' := Store.pop_of_pop?_eq_some (s := { s with stack := below }) ha
  unfold perform
  cases hop : i.opcode <;> rw [hop] at h <;> try contradiction
  all_goals
    obtain rfl := Option.some.inj h
    simp only [integers, divisions, floats, comparison, hpop, hpop']
  case div | mod => split <;> rfl
  all_goals rfl

theorem execute_of_binary {f : Value → Value → Except Violation Value}
    (h : i.opcode.binary? = some f) :
    execute ctx s i =
      withTwo ctx s fun a b rest => pushResult ctx { s with stack := rest } (f a b) := by
  apply execute_of_two (Opcode.stackInputs_of_binary h)
  intro a b below rest hb ha
  exact perform_of_binary h hb ha

theorem execute_of_unary {f : Value → Except Violation Value}
    (h : i.opcode.unary? ctx s = some f) :
    execute ctx s i =
      withOne ctx s fun v rest => pushResult ctx { s with stack := rest } (f v) := by
  apply execute_of_one (Opcode.stackInputs_of_unary h)
  intro v rest hv
  have hpop := Store.pop_of_pop?_eq_some hv
  unfold perform
  cases hop : i.opcode <;> rw [hop] at h <;> try contradiction
  all_goals
    obtain rfl := Option.some.inj h
    simp only [conversion, Store.load, Store.strlen, hpop]
  all_goals rfl

theorem execute_pop (hop : i.opcode = .pop) :
    execute ctx s i = withOne ctx s fun _ rest => .ok ({ s with stack := rest }, .next) := by
  apply execute_of_one (by rw [hop]; rfl)
  intro v rest hv
  simp only [perform, hop, Store.pop_of_pop?_eq_some hv]

/-- A copy takes the top and puts it back, which a stack that held it has room for. -/
theorem execute_dup (hop : i.opcode = .dup) :
    execute ctx s i = withOne ctx s fun v _ => push ctx s v := by
  apply execute_of_one (by rw [hop]; rfl)
  intro v rest hv
  simp only [perform, hop, Store.duplicate, Store.pop_of_pop?_eq_some hv,
    Store.push_of_pop?_eq_some hv]

theorem execute_swap (hop : i.opcode = .swap) :
    execute ctx s i = match s.stack.swapWithTop? 1 with
      | none => underflow ctx s 2
      | some stack => .ok ({ s with stack }, .next) := by
  have hin : i.opcode.stackInputs = 2 := by rw [hop]; rfl
  cases hswap : s.stack.swapWithTop? 1 with
  | none =>
    have hshort := BoundedStack.size_le_of_swapWithTop?_eq_none hswap
    rw [execute_of_short (by omega), hin]
  | some stack =>
    have henough : 2 ≤ s.stack.size := by
      by_contra hlt
      have hnone : s.stack.swapWithTop? 1 = none := BoundedStack.swapWithTop?_eq_none (by omega)
      cases hnone.symm.trans hswap
    rw [execute_of_enough (by omega)]
    simp only [perform, hop, Store.exchange, hswap]

theorem execute_store (hop : i.opcode = .store) :
    execute ctx s i = withTwo ctx s fun v address rest =>
      match s.memory.write address.asAddress (UInt8.ofNat v.asInt.toUInt64.toNat) with
      | .error violation => fail ctx { s with stack := rest } violation
      | .ok memory => .ok ({ s with stack := rest, memory }, .next) := by
  apply execute_of_two (by rw [hop]; rfl)
  intro v address below rest haddress hv
  have hpop := Store.pop_of_pop?_eq_some haddress
  have hpop' := Store.pop_of_pop?_eq_some (s := { s with stack := below }) hv
  cases hwrite : s.memory.write address.asAddress (UInt8.ofNat v.asInt.toUInt64.toNat) with
  | error violation => simp only [perform, hop, Store.store, hpop, hpop', hwrite]
  | ok memory => simp only [perform, hop, Store.store, hpop, hpop', hwrite]

theorem execute_print (hop : i.opcode = .print) :
    execute ctx s i = withOne ctx s fun v rest =>
      match ctx.printed v with
      | .error violation => fail ctx { s with stack := rest } violation
      | .ok text => .ok ({ s with stack := rest, output := s.output ++ text }, .next) := by
  apply execute_of_one (by rw [hop]; rfl)
  intro v rest hv
  have hpop := Store.pop_of_pop?_eq_some hv
  cases hprinted : ctx.printed v with
  | error violation => simp only [perform, hop, Store.print, hpop, hprinted]
  | ok text => simp only [perform, hop, Store.print, hpop, hprinted]

theorem execute_branch (onZero : Bool) (hop : i.opcode = if onZero then .zjmp else .nzjmp) :
    execute ctx s i = withOne ctx s fun v rest =>
      .ok ({ s with stack := rest },
        if v.isZero == onZero then .goto i.operand.target else .next) := by
  apply execute_of_one (by cases onZero <;> rw [hop] <;> rfl)
  intro v rest hv
  cases onZero <;>
    simp only [perform, hop, Store.branch, Store.pop_of_pop?_eq_some hv] <;> rfl

theorem execute_ret (hop : i.opcode = .ret) :
    execute ctx s i = withOne ctx s fun v rest =>
      .ok ({ s with stack := rest }, .goto v.asAddress) := by
  apply execute_of_one (by rw [hop]; rfl)
  intro v rest hv
  simp only [perform, hop, Store.ret, Store.pop_of_pop?_eq_some hv]

/-- Whatever holds of every group of instructions, as a function of what it is carried out in and
on, holds of every instruction. -/
theorem execute_elim_uniform {motive : (Context → Store → Effect) → Prop}
    (binary : ∀ f, i.opcode.binary? = some f → motive fun ctx s =>
      withTwo ctx s fun a b rest => pushResult ctx { s with stack := rest } (f a b))
    (unary : ∀ f : Context → Store → Value → Except Violation Value,
      (∀ ctx s, i.opcode.unary? ctx s = some (f ctx s)) → motive fun ctx s =>
        withOne ctx s fun v rest => pushResult ctx { s with stack := rest } (f ctx s v))
    (halt : i.opcode = .halt → motive fun _ s => .ok (s, .halt))
    (idle : i.opcode = .nop ∨ i.opcode = .mirror ∨ i.opcode = .regCommit →
      motive fun _ s => .ok (s, .next))
    (check : i.opcode = .regCheck → motive fun ctx s => match ctx.enforced with
      | .error violation => fail ctx s violation
      | .ok _ => .ok (s, .next))
    (push : i.opcode = .push → motive fun ctx s =>
      pushResult ctx s (s.operandValue ctx.here i.operand))
    (pop : i.opcode = .pop → motive fun ctx s => withOne ctx s fun _ rest =>
      .ok ({ s with stack := rest }, .next))
    (dup : i.opcode = .dup → motive fun ctx s => withOne ctx s fun v _ => Effect.push ctx s v)
    (swap : i.opcode = .swap → motive fun ctx s => match s.stack.swapWithTop? 1 with
      | none => underflow ctx s 2
      | some stack => .ok ({ s with stack }, .next))
    (indup : i.opcode = .indup → motive fun ctx s => s.atDepth ctx i.operand fun depth =>
      (s.stack.peekAt? depth).map (Effect.push ctx s))
    (inswap : i.opcode = .inswap → motive fun ctx s => s.atDepth ctx i.operand fun depth =>
      (s.stack.swapWithTop? depth).map fun stack => .ok ({ s with stack }, .next))
    (mov : i.opcode = .mov → motive fun ctx s =>
      s.move ctx (i.register.getD noRegister) i.operand)
    (string : i.opcode = .pushStr ∨ i.opcode = .getStr → motive fun ctx s =>
      s.pushStringOf ctx i.operand)
    (store : i.opcode = .store → motive fun ctx s => withTwo ctx s fun v address rest =>
      match s.memory.write address.asAddress (UInt8.ofNat v.asInt.toUInt64.toNat) with
      | .error violation => fail ctx { s with stack := rest } violation
      | .ok memory => .ok ({ s with stack := rest, memory }, .next))
    (print : i.opcode = .print → motive fun ctx s => withOne ctx s fun v rest =>
      match ctx.printed v with
      | .error violation => fail ctx { s with stack := rest } violation
      | .ok text => .ok ({ s with stack := rest, output := s.output ++ text }, .next))
    (jmp : i.opcode = .jmp → motive fun _ s => .ok (s, .goto i.operand.target))
    (branch : ∀ onZero, i.opcode = (if onZero then .zjmp else .nzjmp) → motive fun ctx s =>
      withOne ctx s fun v rest => .ok ({ s with stack := rest },
        if v.isZero == onZero then .goto i.operand.target else .next))
    (call : i.opcode = .call → motive fun ctx s => s.call ctx i.operand)
    (ret : i.opcode = .ret → motive fun ctx s => withOne ctx s fun v rest =>
      .ok ({ s with stack := rest }, .goto v.asAddress))
    (native : ∀ id, i.opcode = .native → motive fun ctx s =>
      fail ctx s (.nativeCallUnsupported id)) :
    motive fun ctx s => execute ctx s i := by
  -- What an opcode does in every context and on every store is what holds of it.
  have of_eq {e : Context → Store → Effect} (he : motive e)
      (heq : ∀ ctx s, execute ctx s i = e ctx s) : motive fun ctx s => execute ctx s i := by
    rw [funext₂ heq]
    exact he
  have of_perform {op : Opcode} (hop : i.opcode = op) (hin : op.stackInputs = 0) (ctx : Context)
      (s : Store) : execute ctx s i = perform ctx s i := execute_of_none hop hin
  cases hb : i.opcode.binary? with
  | some f => exact of_eq (binary f hb) fun ctx s => execute_of_binary hb
  | none =>
    -- The groups of one opcode each are left, and those that make a value of one entry.
    have of_unary (f : Context → Store → Value → Except Violation Value)
        (hf : ∀ ctx s, i.opcode.unary? ctx s = some (f ctx s)) :
        motive fun ctx s => execute ctx s i :=
      of_eq (unary f hf) fun ctx s => execute_of_unary (hf ctx s)
    cases hop : i.opcode <;> rw [hop] at hb of_unary <;>
      try exact absurd hb (Option.some_ne_none _)
    case itof | ftoi | itoc | load | strlen => exact of_unary _ fun _ _ => rfl
    case pop => exact of_eq (pop hop) fun ctx s => execute_pop hop
    case dup => exact of_eq (dup hop) fun ctx s => execute_dup hop
    case swap => exact of_eq (swap hop) fun ctx s => execute_swap hop
    case store => exact of_eq (store hop) fun ctx s => execute_store hop
    case print => exact of_eq (print hop) fun ctx s => execute_print hop
    case zjmp => exact of_eq (branch true hop) fun ctx s => execute_branch true hop
    case nzjmp => exact of_eq (branch false hop) fun ctx s => execute_branch false hop
    case ret => exact of_eq (ret hop) fun ctx s => execute_ret hop
    all_goals
      have hexecute := of_perform hop rfl
      simp only [perform, hop] at hexecute
    case halt => exact of_eq (halt hop) hexecute
    case nop => exact of_eq (idle (.inl hop)) hexecute
    case mirror => exact of_eq (idle (.inr (.inl hop))) hexecute
    case regCommit => exact of_eq (idle (.inr (.inr hop))) hexecute
    case regCheck => exact of_eq (check hop) hexecute
    case push => exact of_eq (push hop) hexecute
    case indup => exact of_eq (indup hop) hexecute
    case inswap => exact of_eq (inswap hop) hexecute
    case mov => exact of_eq (mov hop) hexecute
    case pushStr => exact of_eq (string (.inl hop)) hexecute
    case getStr => exact of_eq (string (.inr hop)) hexecute
    case jmp => exact of_eq (jmp hop) hexecute
    case call => exact of_eq (call hop) hexecute
    case native => exact of_eq (native _ hop) hexecute

/-- Whatever holds of the effect of every group of instructions holds of every instruction. -/
theorem execute_elim {motive : Effect → Prop}
    (binary : ∀ f, i.opcode.binary? = some f → motive (withTwo ctx s fun a b rest =>
      pushResult ctx { s with stack := rest } (f a b)))
    (unary : ∀ f, i.opcode.unary? ctx s = some f → motive (withOne ctx s fun v rest =>
      pushResult ctx { s with stack := rest } (f v)))
    (halt : i.opcode = .halt → motive (.ok (s, .halt)))
    (idle : i.opcode = .nop ∨ i.opcode = .mirror ∨ i.opcode = .regCommit →
      motive (.ok (s, .next)))
    (check : i.opcode = .regCheck → motive (match ctx.enforced with
      | .error violation => fail ctx s violation
      | .ok _ => .ok (s, .next)))
    (push : i.opcode = .push →
      motive (pushResult ctx s (s.operandValue ctx.here i.operand)))
    (pop : i.opcode = .pop →
      motive (withOne ctx s fun _ rest => .ok ({ s with stack := rest }, .next)))
    (dup : i.opcode = .dup → motive (withOne ctx s fun v _ => Effect.push ctx s v))
    (swap : i.opcode = .swap → motive (match s.stack.swapWithTop? 1 with
      | none => underflow ctx s 2
      | some stack => .ok ({ s with stack }, .next)))
    (indup : i.opcode = .indup → motive (s.atDepth ctx i.operand fun depth =>
      (s.stack.peekAt? depth).map (Effect.push ctx s)))
    (inswap : i.opcode = .inswap → motive (s.atDepth ctx i.operand fun depth =>
      (s.stack.swapWithTop? depth).map fun stack => .ok ({ s with stack }, .next)))
    (mov : i.opcode = .mov → motive (s.move ctx (i.register.getD noRegister) i.operand))
    (string : i.opcode = .pushStr ∨ i.opcode = .getStr → motive (s.pushStringOf ctx i.operand))
    (store : i.opcode = .store → motive (withTwo ctx s fun v address rest =>
      match s.memory.write address.asAddress (UInt8.ofNat v.asInt.toUInt64.toNat) with
      | .error violation => fail ctx { s with stack := rest } violation
      | .ok memory => .ok ({ s with stack := rest, memory }, .next)))
    (print : i.opcode = .print → motive (withOne ctx s fun v rest =>
      match ctx.printed v with
      | .error violation => fail ctx { s with stack := rest } violation
      | .ok text => .ok ({ s with stack := rest, output := s.output ++ text }, .next)))
    (jmp : i.opcode = .jmp → motive (.ok (s, .goto i.operand.target)))
    (branch : ∀ onZero, i.opcode = (if onZero then .zjmp else .nzjmp) →
      motive (withOne ctx s fun v rest => .ok ({ s with stack := rest },
        if v.isZero == onZero then .goto i.operand.target else .next)))
    (call : i.opcode = .call → motive (s.call ctx i.operand))
    (ret : i.opcode = .ret → motive (withOne ctx s fun v rest =>
      .ok ({ s with stack := rest }, .goto v.asAddress)))
    (native : ∀ id, i.opcode = .native → motive (fail ctx s (.nativeCallUnsupported id))) :
    motive (execute ctx s i) :=
  execute_elim_uniform (motive := fun e => motive (e ctx s)) binary
    (fun f hf => unary (f ctx s) (hf ctx s)) halt idle check push pop dup swap indup inswap mov
    string store print jmp branch call ret native

end InvariantMachine

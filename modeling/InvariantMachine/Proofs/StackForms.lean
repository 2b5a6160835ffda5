import Mathlib
import InvariantMachine.Proofs.Steps
import InvariantMachine.Proofs.Underflow

/-!
# Stack instructions in two forms

A duplication and an exchange of the two top entries are instructions of their own and cases of
instructions that reach to a depth. The short forms have their entries counted before they move
them; the forms with a depth look there and report what they do not find. Both make the same of
every stack, so two machines that run the one and the other differ in their code and in nothing
else. An exchange at a depth is its own inverse.
-/

namespace InvariantMachine

namespace BoundedStack

section
variable {α : Type} {s t : BoundedStack α} {a : α} {depth : Nat}

theorem peekAt?_zero_of_pop? (h : s.pop? = some (a, t)) : s.peekAt? 0 = some a := by
  rw [peekAt?, (pop?_eq_some h).1]
  rfl

theorem swapWithTop?_swapWithTop? (h : s.swapWithTop? depth = some t) :
    t.swapWithTop? depth = some s := by
  obtain ⟨hcapacity, top, other, htop, hother, hitems⟩ := swapWithTop?_eq_some h
  have hlength : t.items.length = s.items.length := by
    rw [hitems, List.length_set, List.length_set]
  obtain ⟨hdepth, hother'⟩ := List.getElem?_eq_some_iff.mp hother
  obtain ⟨hpos, htop'⟩ := List.getElem?_eq_some_iff.mp htop
  cases hagain : t.swapWithTop? depth with
  | none =>
    have hle := size_le_of_swapWithTop?_eq_none hagain
    rw [size, hlength] at hle
    omega
  | some u =>
    obtain ⟨hcapacity', top', other', htop₂, hother₂, hitems'⟩ := swapWithTop?_eq_some hagain
    have hdeep : other' = top := by
      rw [hitems] at hother₂
      simpa [hdepth] using hother₂.symm
    have hfirst : top' = other := by
      rw [hitems, List.getElem?_set] at htop₂
      split at htop₂
      · simp_all
      · simpa [hpos] using htop₂.symm
    have hback : u.items = s.items := by
      rw [hitems', hitems, hdeep, hfirst, ← htop', ← hother']
      apply List.ext_getElem
      · simp
      · intro n hn _
        simp only [List.getElem_set]
        grind
    exact congrArg some (ext hback (hcapacity'.trans hcapacity))

end

variable {mode : ExecutionMode} {s t : BoundedStack Value} {depth : Nat}

/-- What is left where too few entries are on the stack. -/
def lacking (mode : ExecutionMode) (s : BoundedStack Value) (required : Nat) :
    Except Violation (BoundedStack Value) :=
  match mode with
  | .strict => .error (.stackUnderflow required s.size)
  | .lenient => .ok s

def pushed (s : BoundedStack Value) (v : Value) : Except Violation (BoundedStack Value) :=
  (s.push v).mapError fun e => .stackOverflow e.capacity

/-- Looks for an entry at a depth and pushes a copy of it. -/
def copied (mode : ExecutionMode) (s : BoundedStack Value) (depth : Nat) :
    Except Violation (BoundedStack Value) :=
  match s.peekAt? depth with
  | none => s.lacking mode (min (depth + 1) greatestSize)
  | some v => s.pushed v

/-- Looks for an entry at a depth and exchanges it with the top. -/
def exchanged (mode : ExecutionMode) (s : BoundedStack Value) (depth : Nat) :
    Except Violation (BoundedStack Value) :=
  match s.swapWithTop? depth with
  | none => s.lacking mode (min (depth + 1) greatestSize)
  | some t => .ok t

theorem exchanged_exchanged (h : s.exchanged mode depth = .ok t) :
    t.exchanged mode depth = .ok s := by
  unfold exchanged at h
  cases hswap : s.swapWithTop? depth with
  | none =>
    have hskipped : s.lacking mode (min (depth + 1) greatestSize) = .ok t := by
      simpa only [hswap] using h
    have hback : t = s := by
      cases mode with
      | strict => contradiction
      | lenient => exact (Except.ok.inj hskipped).symm
    subst hback
    rw [exchanged, hswap]
    exact hskipped
  | some u =>
    rw [hswap] at h
    obtain rfl := Except.ok.inj h
    rw [exchanged, swapWithTop?_swapWithTop? hswap]

end BoundedStack

namespace Effect

variable {ctx ctx' : Context} {s s' : Store} {i j : Instruction} {v : Value} {flow : Flow}

/-- An instruction changes the stack and goes on, or it fails and changes nothing. -/
def onStack (ctx : Context) (s : Store) : Except Violation (BoundedStack Value) → Effect
  | .ok stack => .ok ({ s with stack }, .next)
  | .error violation => fail ctx s violation

/-- What an effect makes of the store, whatever the context is that it was made in. -/
def outcome (e : Effect) : Except (Violation × Store) (Store × Flow) :=
  e.mapError fun failure => (failure.violation, failure.store)

theorem outcome_onStack (ctx ctx' : Context) (s : Store)
    (result : Except Violation (BoundedStack Value)) :
    (onStack ctx s result).outcome = (onStack ctx' s result).outcome := by
  cases result <;> rfl

theorem onStack_lacking (ctx : Context) (s : Store) (required : Nat) :
    onStack ctx s (s.stack.lacking ctx.mode required) = underflow ctx s required := by
  unfold underflow BoundedStack.lacking
  cases ctx.mode <;> rfl

theorem onStack_pushed (ctx : Context) (s : Store) (v : Value) :
    onStack ctx s (s.stack.pushed v) = push ctx s v := by
  unfold push Store.push BoundedStack.pushed
  cases s.stack.push v <;> rfl

theorem execute_dup_eq_copied (ctx : Context) (s : Store) (hop : i.opcode = .dup) :
    execute ctx s i = onStack ctx s (s.stack.copied ctx.mode 0) := by
  rw [execute_dup hop]
  unfold withOne BoundedStack.copied
  cases hpop : s.stack.pop? with
  | none =>
    have hsize := BoundedStack.size_of_pop?_eq_none hpop
    rw [BoundedStack.peekAt?_eq_none (by omega)]
    exact (onStack_lacking ctx s 1).symm
  | some entry =>
    rw [BoundedStack.peekAt?_zero_of_pop? hpop]
    exact (onStack_pushed ctx s entry.1).symm

theorem execute_swap_eq_exchanged (ctx : Context) (s : Store) (hop : i.opcode = .swap) :
    execute ctx s i = onStack ctx s (s.stack.exchanged ctx.mode 1) := by
  rw [execute_swap hop]
  unfold BoundedStack.exchanged
  cases s.stack.swapWithTop? 1 with
  | none => exact (onStack_lacking ctx s 2).symm
  | some stack => rfl

theorem execute_indup (hop : i.opcode = .indup) (hv : s.operandValue ctx.here i.operand = .ok v) :
    execute ctx s i = onStack ctx s (s.stack.copied ctx.mode v.asAddress) := by
  rw [execute_of_none hop rfl, perform, hop]
  dsimp only
  unfold Store.atDepth BoundedStack.copied
  rw [hv]
  dsimp only
  cases s.stack.peekAt? v.asAddress with
  | none => exact (onStack_lacking ctx s _).symm
  | some copy => exact (onStack_pushed ctx s copy).symm

theorem execute_inswap (hop : i.opcode = .inswap)
    (hv : s.operandValue ctx.here i.operand = .ok v) :
    execute ctx s i = onStack ctx s (s.stack.exchanged ctx.mode v.asAddress) := by
  rw [execute_of_none hop rfl, perform, hop]
  dsimp only
  unfold Store.atDepth BoundedStack.exchanged
  rw [hv]
  dsimp only
  cases s.stack.swapWithTop? v.asAddress with
  | none => exact (onStack_lacking ctx s _).symm
  | some stack => rfl

theorem operandValue_of_inswap (hop : i.opcode = .inswap) (h : execute ctx s i = .ok (s', flow)) :
    ∃ v, s.operandValue ctx.here i.operand = .ok v := by
  cases hv : s.operandValue ctx.here i.operand with
  | ok v => exact ⟨v, rfl⟩
  | error violation =>
    rw [execute_of_none hop rfl, perform, hop] at h
    dsimp only at h
    rw [Store.atDepth, hv] at h
    contradiction

theorem execute_inswap_inswap (hop : i.opcode = .inswap)
    (h : execute ctx s i = .ok (s', flow)) :
    flow = .next ∧ execute ctx s' i = .ok (s, .next) := by
  obtain ⟨v, hv⟩ := operandValue_of_inswap hop h
  rw [execute_inswap hop hv] at h
  cases hstack : s.stack.exchanged ctx.mode v.asAddress with
  | error violation =>
    rw [hstack] at h
    contradiction
  | ok stack =>
    rw [hstack] at h
    obtain ⟨rfl, rfl⟩ := Prod.mk.inj (Except.ok.inj h)
    have hv' : ({ s with stack } : Store).operandValue ctx.here i.operand = .ok v := hv
    refine ⟨rfl, ?_⟩
    rw [execute_inswap hop hv', BoundedStack.exchanged_exchanged hstack]
    rfl

end Effect

/-! ### The two forms -/

/-- The first instruction is the short form of the second. -/
inductive Instruction.ShortFor (i j : Instruction) : Prop
  | dup (opcode : i.opcode = .dup) (indexed : j.opcode = .indup) (depth : j.operand = .int 0)
  | swap (opcode : i.opcode = .swap) (indexed : j.opcode = .inswap) (depth : j.operand = .int 1)

namespace Instruction.ShortFor

variable {i j : Instruction}

/-- Both forms do one thing to the stack, which depends on the mode and the stack only. -/
theorem exists_onStack (h : i.ShortFor j) :
    ∃ change : ExecutionMode → BoundedStack Value → Except Violation (BoundedStack Value),
      ∀ ctx s, execute ctx s i = Effect.onStack ctx s (change ctx.mode s.stack) ∧
        execute ctx s j = Effect.onStack ctx s (change ctx.mode s.stack) := by
  cases h with
  | dup hop hindexed hdepth =>
    refine ⟨fun mode stack => stack.copied mode 0, fun ctx s => ?_⟩
    have hv : s.operandValue ctx.here j.operand = .ok (.int 0) := by
      rw [hdepth]
      rfl
    exact ⟨Effect.execute_dup_eq_copied ctx s hop, Effect.execute_indup hindexed hv⟩
  | swap hop hindexed hdepth =>
    refine ⟨fun mode stack => stack.exchanged mode 1, fun ctx s => ?_⟩
    have hv : s.operandValue ctx.here j.operand = .ok (.int 1) := by
      rw [hdepth]
      rfl
    exact ⟨Effect.execute_swap_eq_exchanged ctx s hop, Effect.execute_inswap hindexed hv⟩

theorem ofOpcode?_eq (h : i.ShortFor j) :
    Activity.ofOpcode? (some i.opcode) = .ofOpcode? (some j.opcode) := by
  cases h with
  | dup hop hindexed _ | swap hop hindexed _ =>
    rw [hop, hindexed]
    rfl

theorem retire_eq (h : i.ShortFor j) (r : Registration) :
    r.retire (some i.opcode) = r.retire (some j.opcode) := by
  cases h with
  | dup hop hindexed _ | swap hop hindexed _ =>
    rw [hop, hindexed]
    rfl

end Instruction.ShortFor

namespace Machine

variable {m m' : Machine} {i j : Instruction} {after after' : Nat}

/-- The machine with another memory and another place in it. -/
def withCode (m : Machine) (memory : Memory) (pc : Nat) : Machine :=
  { m with store := { m.store with memory }, pc }

/-- The second machine is the first but for its memory and the place in it. -/
def SameButCode (m m' : Machine) : Prop := ∃ memory pc, m' = m.withCode memory pc

theorem sameButCode_withCode (m : Machine) (memory : Memory) (pc : Nat) :
    m.SameButCode (m.withCode memory pc) := ⟨memory, pc, rfl⟩

theorem SameButCode.checked (h : m.SameButCode m') : m.checked.SameButCode m'.checked := by
  obtain ⟨memory, pc, rfl⟩ := h
  rw [checked_comm (f := (withCode · memory pc)) rfl (fun _ => rfl) rfl]
  exact sameButCode_withCode m.checked memory pc

theorem SameButCode.cycle (h : m.SameButCode m') (hforms : i.ShortFor j)
    (hfetch : m.store.memory.fetch m.pc = .ok (.instruction i after))
    (hfetch' : m'.store.memory.fetch m'.pc = .ok (.instruction j after')) :
    m.cycle.SameButCode m'.cycle := by
  obtain ⟨memory, pc, rfl⟩ := h
  obtain ⟨change, hchange⟩ := hforms.exists_onStack
  have hi : m.effect (.instruction i after) =
      Effect.onStack (m.context after) m.store (change m.config.mode m.store.stack) :=
    (hchange (m.context after) m.store).1
  have hj : (m.withCode memory pc).effect (.instruction j after') =
      Effect.onStack ((m.withCode memory pc).context after') (m.withCode memory pc).store
        (change m.config.mode m.store.stack) :=
    (hchange ((m.withCode memory pc).context after') (m.withCode memory pc).store).2
  cases hresult : change m.config.mode m.store.stack with
  | error violation =>
    rw [hresult] at hi hj
    rw [cycle_of_failed hfetch hi, cycle_of_failed hfetch' hj]
    exact ⟨memory, after', rfl⟩
  | ok stack =>
    rw [hresult] at hi hj
    rw [cycle_of_retired hfetch hi, cycle_of_retired hfetch' hj]
    apply SameButCode.checked
    refine ⟨memory, after', ?_⟩
    have hactivity := hforms.ofOpcode?_eq
    have hregistration := hforms.retire_eq m.registration
    simp only [retired, account, proceed, withCode, Fetched.opcode?, Fetched.after, hactivity,
      hregistration]

/-- A step over a short form and one over its form with a depth keep two machines the same. -/
theorem SameButCode.step (h : m.SameButCode m') (hforms : i.ShortFor j)
    (hfetch : m.store.memory.fetch m.pc = .ok (.instruction i after))
    (hfetch' : m'.store.memory.fetch m'.pc = .ok (.instruction j after')) :
    m.step.SameButCode m'.step := by
  have hbegun : m.begun.SameButCode m'.begun := by
    obtain ⟨memory, pc, rfl⟩ := h
    exact sameButCode_withCode m.begun memory pc
  have hcycle := hbegun.cycle hforms hfetch hfetch'
  obtain ⟨memory, pc, rfl⟩ := h
  have hrunning : (m.withCode memory pc).isRunning = m.isRunning := rfl
  have hedit : (m.withCode memory pc).editViolation? = m.editViolation? := rfl
  unfold Machine.step
  rw [hrunning, hedit]
  split
  · split
    · exact ⟨memory, pc, rfl⟩
    · exact hcycle
  · exact sameButCode_withCode m memory pc

end Machine

/-- A duplication and an exchange of the two top entries are those at depth zero and at depth one:
on every stack they come to the same, success, failure or an instruction passed over, and a step
over either leaves machines that differ in their code and in nothing else. An exchange at any depth
that succeeds leads back when it is made again. -/
theorem stack_forms_agree :
    (∀ i j, Instruction.ShortFor i j →
      (∀ ctx s, execute ctx s i = execute ctx s j) ∧
      (∀ ctx ctx' s, ctx.mode = ctx'.mode →
        (execute ctx s i).outcome = (execute ctx' s j).outcome) ∧
      ∀ m m' after after', Machine.SameButCode m m' →
        m.store.memory.fetch m.pc = .ok (.instruction i after) →
        m'.store.memory.fetch m'.pc = .ok (.instruction j after') →
        m.step.SameButCode m'.step) ∧
    ∀ ctx s i s' flow, i.opcode = .inswap → execute ctx s i = .ok (s', flow) →
      flow = .next ∧ execute ctx s' i = .ok (s, .next) := by
  constructor
  · intro i j hforms
    obtain ⟨change, hchange⟩ := hforms.exists_onStack
    refine ⟨?_, ?_, ?_⟩
    · intro ctx s
      exact (hchange ctx s).1.trans (hchange ctx s).2.symm
    · intro ctx ctx' s hmode
      rw [(hchange ctx s).1, (hchange ctx' s).2, hmode]
      exact Effect.outcome_onStack ctx ctx' s _
    · intro m m' after after' hsame hfetch hfetch'
      exact hsame.step hforms hfetch hfetch'
  · intro ctx s i s' flow hop h
    exact Effect.execute_inswap_inswap hop h

private def oneEntry : BoundedStack Value := ⟨[.int 7], 1, by decide⟩

private def duplication : Program :=
  ⟨#[.bare .dup], .empty, ⟨0, false⟩, by decide, by decide, by decide⟩

private def copyAtZero : Program :=
  ⟨#[.withOperand .indup (.int 0)], .empty, ⟨0, false⟩, by decide, by decide, by decide⟩

private def fullMachine (p : Program) : Machine :=
  let m := Machine.initial p { Config.standard with memorySize := 16, stackCapacity := 1 }
  { m with store := { m.store with stack := oneEntry } }

private def fullStore : Store := (fullMachine duplication).store

private def atFour (mode : ExecutionMode) : Context :=
  ⟨mode, .empty, 4, 5, .ofConfig .standard, .initial⟩

private def threeEntriesStore : Store where
  stack := ⟨[.int 3, .int 2, .int 1], 4, by decide⟩
  registers := (Vector.replicate registerCount default).setIfInBounds 5 (.int 2)
  memory := .ofSize 0
  output := ""

/-- Both forms of a duplication overflow a full stack of one entry, both forms of an exchange
require a second entry on it, and the exchange at a depth from a register is undone by another. -/
theorem stack_forms_agree_fullStack :
    execute (atFour .strict) fullStore (.bare .dup) =
      .error ((atFour .strict).failure fullStore (.stackOverflow 1)) ∧
    execute (atFour .strict) fullStore (.withOperand .indup (.int 0)) =
      .error ((atFour .strict).failure fullStore (.stackOverflow 1)) ∧
    (execute (atFour .strict) fullStore (.withOperand .inswap (.int 1))).outcome =
      .error (.stackUnderflow 2 1, fullStore) ∧
    (fullMachine duplication).step.violation = some (.stackOverflow 1) ∧
    (fullMachine duplication).step.SameButCode (fullMachine copyAtZero).step ∧
    ∃ s', execute (atFour .strict) threeEntriesStore (.withOperand .inswap (.register 5)) =
        .ok (s', .next) ∧
      s'.stack.items = [.int 1, .int 2, .int 3] ∧
      execute (atFour .strict) s' (.withOperand .inswap (.register 5)) =
        .ok (threeEntriesStore, .next) := by
  obtain ⟨hforms, hinverse⟩ := stack_forms_agree
  obtain ⟨hdup, -, hsteps⟩ := hforms (.bare .dup) (.withOperand .indup (.int 0)) (.dup rfl rfl rfl)
  obtain ⟨-, hswap, -⟩ :=
    hforms (.bare .swap) (.withOperand .inswap (.int 1)) (.swap rfl rfl rfl)
  have hoverflow : execute (atFour .strict) fullStore (.bare .dup) =
      .error ((atFour .strict).failure fullStore (.stackOverflow 1)) := by decide +kernel
  have hshort : (execute (atFour .strict) fullStore (.bare .swap)).outcome =
      .error (.stackUnderflow 2 1, fullStore) := by decide +kernel
  have hexchange :
      execute (atFour .strict) threeEntriesStore (.withOperand .inswap (.register 5)) =
        .ok ({ threeEntriesStore with stack := ⟨[.int 1, .int 2, .int 3], 4, by decide⟩ },
          .next) := by decide +kernel
  refine ⟨hoverflow, ?_, ?_, by decide +kernel, ?_, _, hexchange, rfl, ?_⟩
  · exact (hdup (atFour .strict) fullStore).symm.trans hoverflow
  · exact (hswap (atFour .strict) (atFour .strict) fullStore rfl).symm.trans hshort
  · exact hsteps _ _ 1 10 ⟨_, _, rfl⟩ (by decide +kernel) (by decide +kernel)
  · exact (hinverse _ _ _ _ _ rfl hexchange).2

end InvariantMachine

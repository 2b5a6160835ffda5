import Mathlib
import InvariantMachine.Proofs.Frame
import InvariantMachine.Proofs.HostSession

/-!
# The bounds of a machine

A machine keeps its configuration, its strings, the size of its memory and the capacity of its
stack, whatever it runs and whatever its host does. A step leaves at most one entry more on the
stack than it found there.
-/

namespace InvariantMachine

/-- The second stack has the capacity of the first and at most one entry more. -/
structure BoundedStack.Grows {α : Type} (s t : BoundedStack α) : Prop where
  size_le : t.size ≤ s.size + 1
  capacity_eq : t.capacity = s.capacity

namespace BoundedStack

variable {α : Type} {s t : BoundedStack α} {a : α}

theorem Grows.refl (s : BoundedStack α) : s.Grows s := ⟨Nat.le_succ _, rfl⟩

theorem Grows.of_size_le (h : t.size ≤ s.size) (hcap : t.capacity = s.capacity) : s.Grows t :=
  ⟨h.trans (Nat.le_succ _), hcap⟩

theorem size_le_of_items (h : s.items = a :: t.items) : t.size ≤ s.size := by
  rw [size, size, h, List.length_cons]
  exact Nat.le_succ _

theorem grows_of_swapWithTop? {depth : Nat} (h : s.swapWithTop? depth = some t) : s.Grows t := by
  obtain ⟨hcap, top, other, -, -, hitems⟩ := swapWithTop?_eq_some h
  refine .of_size_le ?_ hcap
  rw [size, size, hitems, List.length_set, List.length_set]

end BoundedStack

namespace Effect

open BoundedStack

variable {ctx : Context} {s : Store} {stack : BoundedStack Value}

/-- However an effect ends, the stack has at most one entry more in the same capacity. -/
def Grows (s : Store) (e : Effect) : Prop :=
  e.Meets (fun s' _ => s.stack.Grows s'.stack) fun failure => s.stack.Grows failure.store.stack

theorem grows_skip {flow : Flow} : Grows s (.ok (s, flow)) := .refl s.stack

theorem grows_fail (violation : Violation) : (fail ctx s violation).Grows s := .refl s.stack

theorem grows_pushResult (hle : stack.size ≤ s.stack.size)
    (hcap : stack.capacity = s.stack.capacity) (result : Except Violation Value) :
    (pushResult ctx { s with stack } result).Grows s := by
  apply meets_pushResult
  · intro v _ t ht htcap
    refine ⟨?_, htcap.trans hcap⟩
    rw [size, ht, List.length_cons]
    exact Nat.succ_le_succ hle
  · exact fun _ => .of_size_le hle hcap
  · exact fun _ _ => .of_size_le hle hcap

theorem grows_push (v : Value) : (push ctx s v).Grows s :=
  grows_pushResult le_rfl rfl (.ok v)

theorem grows_underflow (required : Nat) : (underflow ctx s required).Grows s :=
  meets_underflow (fun _ => .refl s.stack) fun _ => .refl s.stack

theorem grows_withOne {next : Value → BoundedStack Value → Effect}
    (h : ∀ a rest, rest.size ≤ s.stack.size → rest.capacity = s.stack.capacity →
      (next a rest).Grows s) : (withOne ctx s next).Grows s :=
  meets_withOne (fun _ => grows_underflow 1) fun a rest hitems hcap =>
    h a rest (size_le_of_items hitems) hcap

theorem grows_withTwo {next : Value → Value → BoundedStack Value → Effect}
    (h : ∀ a b rest, rest.size ≤ s.stack.size → rest.capacity = s.stack.capacity →
      (next a b rest).Grows s) : (withTwo ctx s next).Grows s := by
  refine meets_withTwo (fun _ => grows_underflow 2) fun a b rest hitems hcap => h a b rest ?_ hcap
  rw [size, size, hitems, List.length_cons, List.length_cons]
  omega

theorem grows_atDepth {α : Type} {o : Operand} {find : Nat → Option α} {next : α → Effect}
    (h : ∀ depth a, find depth = some a → (next a).Grows s) :
    (s.atDepth ctx o fun depth => (find depth).map next).Grows s := by
  refine meets_atDepth (fun violation _ => grows_fail violation) ?_ fun _ _ _ => grows_underflow _
  intro v effect _ he
  obtain ⟨a, ha, rfl⟩ := Option.map_eq_some_iff.mp he
  exact h _ a ha

end Effect

open Effect

variable {ctx : Context} {s : Store} {i : Instruction}

theorem execute_grows : (execute ctx s i).Grows s := by
  apply execute_elim (motive := fun e => e.Grows s)
  case binary =>
    exact fun f _ => grows_withTwo fun a b rest hle hcap => grows_pushResult hle hcap (f a b)
  case unary =>
    exact fun f _ => grows_withOne fun v rest hle hcap => grows_pushResult hle hcap (f v)
  case halt | idle | jmp => exact fun _ => grows_skip
  case check =>
    intro _
    split
    · exact grows_fail _
    · exact grows_skip
  case push => exact fun _ => grows_pushResult le_rfl rfl _
  case pop => exact fun _ => grows_withOne fun _ _ hle hcap => .of_size_le hle hcap
  case dup => exact fun _ => grows_withOne fun v _ _ _ => grows_push v
  case swap =>
    intro _
    split
    · exact grows_underflow 2
    · rename_i stack hswap
      exact BoundedStack.grows_of_swapWithTop? hswap
  case indup => exact fun _ => grows_atDepth fun _ v _ => grows_push v
  case inswap =>
    exact fun _ => grows_atDepth fun _ _ hswap => BoundedStack.grows_of_swapWithTop? hswap
  case mov =>
    intro _
    unfold Store.move
    split
    · split
      · split
        · rename_i v stack hpop
          obtain ⟨hitems, hcap⟩ := BoundedStack.pop?_eq_some hpop
          exact .of_size_le (BoundedStack.size_le_of_items hitems) hcap
        · exact grows_underflow 1
      · split
        · exact grows_fail _
        · exact .refl s.stack
    · exact grows_fail _
  case string =>
    intro _
    unfold Store.pushStringOf
    split
    · exact grows_fail _
    · split
      · exact grows_fail _
      · exact grows_push _
  case store =>
    intro _
    apply grows_withTwo
    intro v address rest hle hcap
    split <;> exact .of_size_le hle hcap
  case print =>
    intro _
    apply grows_withOne
    intro v rest hle hcap
    split <;> exact .of_size_le hle hcap
  case branch => exact fun _ _ => grows_withOne fun _ _ hle hcap => .of_size_le hle hcap
  case call =>
    intro _
    apply meets_call
    · intro t ht hcap
      refine ⟨?_, hcap⟩
      rw [BoundedStack.size, ht]
      exact le_rfl
    · exact fun _ => .refl s.stack
  case ret => exact fun _ => grows_withOne fun _ _ hle hcap => .of_size_le hle hcap
  case native => exact fun _ _ => grows_fail _

namespace Machine

variable {m m' : Machine}

/-- What no step and no edit of a host changes. -/
structure Keeps (m m' : Machine) : Prop where
  config : m'.config = m.config
  strings : m'.strings = m.strings
  memory_size : m'.store.memory.size = m.store.memory.size
  stack_capacity : m'.store.stack.capacity = m.store.stack.capacity

theorem Keeps.refl (m : Machine) : m.Keeps m := ⟨rfl, rfl, rfl, rfl⟩

theorem Keeps.trans {m'' : Machine} (h : m.Keeps m') (h' : m'.Keeps m'') : m.Keeps m'' :=
  ⟨h'.config.trans h.config, h'.strings.trans h.strings, h'.memory_size.trans h.memory_size,
    h'.stack_capacity.trans h.stack_capacity⟩

theorem effect_grows (m : Machine) (fetched : Fetched) : (m.effect fetched).Grows m.store := by
  cases fetched with
  | instruction i after => exact execute_grows
  | unknown after => exact grows_skip

theorem memory_size_of_effect {fetched : Fetched} {store : Store} {flow : Flow}
    (h : m.effect fetched = .ok (store, flow)) : store.memory.size = m.store.memory.size := by
  cases fetched with
  | instruction i after => exact Store.MemoryKept.size_eq (execute_framed.of_ok h).2
  | unknown after =>
    cases h
    rfl

theorem CheckEnd.keeps (h : CheckEnd m m') : m.Keeps m' ∧ m'.store = m.store := by
  cases h <;> exact ⟨⟨rfl, rfl, rfl, rfl⟩, rfl⟩

theorem CycleEnd.keeps (h : CycleEnd m m') : m.Keeps m' ∧ m.store.stack.Grows m'.store.stack := by
  cases h with
  | unfetched _ => exact ⟨⟨rfl, rfl, rfl, rfl⟩, .refl _⟩
  | @failed fetched failure _ heffect =>
    have hgrows := (m.effect_grows fetched).of_error heffect
    have hmemory := congrArg Memory.size (onStack_of_effect heffect).memory_eq
    exact ⟨⟨rfl, rfl, hmemory, hgrows.capacity_eq⟩, hgrows⟩
  | @retired fetched store flow _ heffect =>
    have hgrows := (m.effect_grows fetched).of_ok heffect
    obtain ⟨hkeeps, hstore⟩ := (check_ends (m.retired fetched store flow)).keeps
    have hretired : m.Keeps (m.retired fetched store flow) := by
      refine ⟨config_proceed store fetched.after flow, strings_proceed store fetched.after flow,
        ?_, ?_⟩ <;> rw [store_retired]
      · exact memory_size_of_effect heffect
      · exact hgrows.capacity_eq
    refine ⟨hretired.trans hkeeps, ?_⟩
    rw [hstore, store_retired]
    exact hgrows

theorem step_keeps (m : Machine) : m.Keeps m.step ∧ m.store.stack.Grows m.step.store.stack := by
  by_cases hrun : m.status = .running
  · cases hedit : m.editViolation? with
    | some violation =>
      rw [step_of_rejected hrun hedit]
      exact ⟨⟨rfl, rfl, rfl, rfl⟩, .refl _⟩
    | none =>
      rw [step_of_accepted hrun hedit]
      obtain ⟨hkeeps, hgrows⟩ := m.begun.cycle_ends.keeps
      exact ⟨⟨hkeeps.config, hkeeps.strings, hkeeps.memory_size, hkeeps.stack_capacity⟩, hgrows⟩
  · rw [step_of_not_running hrun]
    exact ⟨.refl m, .refl _⟩

theorem steps_keep (m : Machine) (n : Nat) : m.Keeps (m.steps n) :=
  steps_invariant (fun _ h => h.trans (step_keeps _).1) (.refl m) n

theorem session_keeps (m : Machine) (actions : List HostAction) : m.Keeps (m.session actions) :=
  session_invariant (fun _ h => h.trans (step_keeps _).1)
    (fun _ _ h => h.trans ⟨rfl, rfl, rfl, rfl⟩) (.refl m) actions

theorem stack_size_steps_le (m : Machine) (n : Nat) :
    (m.steps n).store.stack.size ≤ m.store.stack.size + n := by
  induction n with
  | zero => exact le_rfl
  | succ n ih => exact (step_keeps (m.steps n)).2.size_le.trans (Nat.succ_le_succ ih)

/-- From the start on, the stack holds at most as many entries as steps were taken, and never more
than its capacity. -/
theorem stack_size_steps_initial_le (p : Program) (config : Config) (n : Nat) :
    ((initial p config).steps n).store.stack.size ≤ n ∧
      ((initial p config).steps n).store.stack.size ≤ config.stackCapacity := by
  constructor
  · have hle := (initial p config).stack_size_steps_le n
    have hempty : (initial p config).store.stack.size = 0 := rfl
    omega
  · have hle := ((initial p config).steps n).store.stack.length_le
    rw [((initial p config).steps_keep n).stack_capacity] at hle
    exact hle

end Machine

end InvariantMachine

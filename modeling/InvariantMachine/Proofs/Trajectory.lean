import Mathlib
import InvariantMachine.Proofs.Coherence
import InvariantMachine.Proofs.Confinement

/-!
# The registration along a run

A step that ends without a violation enters into the registration state the opcode that it decoded
and nothing else. Along a run without violations the registration state is therefore a function of
the opcodes in their order: no operand, no entry, no branch and no policy leaks into it. The
distribution never changes, so all commits after the first one commit the same complexity again.
-/

namespace InvariantMachine

theorem Registration.complexity_commit_congr {r r' : Registration} (h : r'.basins = r.basins) :
    r'.commit.complexity = r.commit.complexity := by
  simp only [commit, h]

/-- The part of a machine in which a run is accounted for. -/
structure Ledger where
  activity : Activity
  registration : Registration

namespace Ledger

/-- Enters what a step decoded, an opcode or a byte that is none. A step that decoded nothing enters
nothing. -/
def enter (l : Ledger) : Option (Option Opcode) → Ledger
  | none => l
  | some opcode? => ⟨.ofOpcode? opcode?, l.registration.retire opcode?⟩

theorem complexity_enter_of_ne (l : Ledger) {decoded? : Option (Option Opcode)}
    (h : decoded? ≠ some (some .regCommit)) :
    (l.enter decoded?).registration.complexity = l.registration.complexity := by
  cases decoded? with
  | none => rfl
  | some opcode? =>
    apply Registration.complexity_retire
    exact mt (congrArg some) h

theorem complexity_enter_commit (l : Ledger) :
    (l.enter (some (some .regCommit))).registration.complexity =
      l.registration.commit.complexity := rfl

theorem basins_enter (l : Ledger) (decoded? : Option (Option Opcode)) :
    (l.enter decoded?).registration.basins = l.registration.basins := by
  cases decoded? with
  | none => rfl
  | some opcode? => exact l.registration.basins_retire opcode?

/-- The first commit sets the complexity, and no later one changes it. -/
theorem complexity_foldl_enter (l : Ledger) (opcodes : List (Option (Option Opcode))) :
    (opcodes.foldl enter l).registration.complexity =
      if some (some .regCommit) ∈ opcodes then l.registration.commit.complexity
      else l.registration.complexity := by
  induction opcodes generalizing l with
  | nil => rfl
  | cons decoded? rest ih =>
    have hcommit : (l.enter decoded?).registration.commit.complexity =
        l.registration.commit.complexity :=
      Registration.complexity_commit_congr (l.basins_enter decoded?)
    rw [List.foldl_cons, ih, hcommit]
    by_cases hfirst : decoded? = some (some .regCommit)
    · subst hfirst
      simp [complexity_enter_commit]
    · rw [l.complexity_enter_of_ne hfirst]
      simp [Ne.symm hfirst]

end Ledger

namespace Machine

variable {m m' : Machine} {n k : Nat}

def ledger (m : Machine) : Ledger := ⟨m.activity, m.registration⟩

/-- What a step decodes: nothing, a byte that is no opcode, or an opcode. -/
def decoded? (m : Machine) : Option (Option Opcode) := m.fetched?.map Fetched.opcode?

/-- What the first steps decode, one after the other. -/
def opcodes (m : Machine) (n : Nat) : List (Option (Option Opcode)) :=
  (List.range n).map fun k => (m.steps k).decoded?

theorem opcodes_succ (m : Machine) (n : Nat) :
    m.opcodes (n + 1) = m.opcodes n ++ [(m.steps n).decoded?] := by
  simp [opcodes, List.range_succ]

theorem take_opcodes (m : Machine) (h : k ≤ n) : (m.opcodes n).take k = m.opcodes k := by
  rw [opcodes, ← List.map_take, List.take_range, Nat.min_eq_left h]
  rfl

theorem ledger_retired (fetched : Fetched) (store : Store) (flow : Flow) :
    (m.retired fetched store flow).ledger = m.ledger.enter (some fetched.opcode?) := by
  cases flow <;> rfl

theorem CheckEnd.ledger_eq (h : CheckEnd m m') : m'.ledger = m.ledger := by
  cases h <;> rfl

theorem decoded?_of_not_running (h : m.status ≠ .running) : m.decoded? = none := by
  have hfetched : m.fetched? = none := by
    apply Option.eq_none_iff_forall_ne_some.mpr
    intro fetched hsome
    exact h (running_of_fetched? hsome)
  rw [decoded?, hfetched]
  rfl

theorem ledger_step (h : m.step.status ≠ .haltedViolation) :
    m.step.ledger = m.ledger.enter m.decoded? := by
  have hends := m.step_ends
  generalize m.step = after at hends h ⊢
  cases hends with
  | halted hstatus =>
    rw [decoded?_of_not_running hstatus]
    rfl
  | unfetched => exact absurd rfl h
  | failed => exact absurd rfl h
  | @retired fetched store flow hfetch _ =>
    rw [(check_ends _).ledger_eq, ledger_retired, decoded?, hfetch]
    rfl

theorem status_ne_of_le (hk : k ≤ n) (h : (m.steps n).status ≠ .haltedViolation) :
    (m.steps k).status ≠ .haltedViolation := by
  intro hhalted
  obtain ⟨j, rfl⟩ := Nat.exists_eq_add_of_le hk
  have hstopped : (m.steps k).status ≠ .running := by
    rw [hhalted]
    decide
  rw [steps_add, steps_of_not_running hstopped] at h
  exact h hhalted

/-- What is accounted for along a run without violations is a function of what the run decodes. -/
theorem ledger_steps (h : (m.steps n).status ≠ .haltedViolation) :
    (m.steps n).ledger = (m.opcodes n).foldl Ledger.enter m.ledger := by
  induction n with
  | zero => rfl
  | succ n ih =>
    have hbefore := ih (status_ne_of_le (Nat.le_succ n) h)
    rw [opcodes_succ, List.foldl_append, ← hbefore]
    exact ledger_step h

theorem status_ne_of_violation {p : Program} {config : Config} (h₀ : ofProgram p config = .ok m)
    (h : (m.steps n).violation = none) : (m.steps n).status ≠ .haltedViolation := by
  obtain ⟨-, rfl⟩ := ofProgram_eq_ok h₀
  have hcoherent : ((initial p config).steps n).Coherent :=
    steps_invariant (fun _ hm => hm.step) (coherent_initial p config) n
  intro hhalted
  have hsome := hcoherent.violation_iff.mpr hhalted
  rw [h] at hsome
  contradiction

theorem ledger_of_ofProgram {p : Program} {config : Config} (h₀ : ofProgram p config = .ok m) :
    m.ledger = ⟨.idle, .initial⟩ := by
  obtain ⟨-, rfl⟩ := ofProgram_eq_ok h₀
  rfl

/-- Two machines, of whatever programs and configurations, that decode the same opcodes in the same
order and raise no violation have the same activity and the same registration state after each of
their steps, even where one of them skips what the other carries out. The complexity is the
initial one before the first commit, and one and the same from then on. -/
theorem registration_of_opcodes {p p' : Program} {config config' : Config}
    (h₀ : ofProgram p config = .ok m) (h₀' : ofProgram p' config' = .ok m')
    (hclean : (m.steps n).violation = none) (hclean' : (m'.steps n).violation = none)
    (hopcodes : m.opcodes n = m'.opcodes n) :
    ∀ k ≤ n, (m.steps k).activity = (m'.steps k).activity ∧
      (m.steps k).registration = (m'.steps k).registration ∧
      (m.steps k).registration.complexity =
        if some (some .regCommit) ∈ m.opcodes k then Registration.initial.commit.complexity
        else Registration.initial.complexity := by
  intro k hk
  have hledger : (m.steps k).ledger = (m.opcodes k).foldl Ledger.enter ⟨.idle, .initial⟩ := by
    rw [← ledger_of_ofProgram h₀]
    exact ledger_steps (status_ne_of_le hk (status_ne_of_violation h₀ hclean))
  have hledger' : (m'.steps k).ledger = (m'.opcodes k).foldl Ledger.enter ⟨.idle, .initial⟩ := by
    rw [← ledger_of_ofProgram h₀']
    exact ledger_steps (status_ne_of_le hk (status_ne_of_violation h₀' hclean'))
  have hopcodes_k : m.opcodes k = m'.opcodes k := by
    rw [← m.take_opcodes hk, hopcodes, m'.take_opcodes hk]
  have hsame : (m.steps k).ledger = (m'.steps k).ledger := by
    rw [hledger, hledger', hopcodes_k]
  refine ⟨congrArg Ledger.activity hsame, congrArg Ledger.registration hsame, ?_⟩
  have hcomplexity := congrArg (·.registration.complexity) hledger
  rw [Ledger.complexity_foldl_enter] at hcomplexity
  exact hcomplexity

private def copyFromBelow : Program :=
  ⟨#[.withOperand .push (.int 7), .withOperand .indup (.int 5), .bare .halt], .empty, ⟨0, false⟩,
    by decide, by decide, by decide⟩

private def copyTop : Program :=
  ⟨#[.withOperand .push (.float 2.5), .withOperand .indup (.int 0), .bare .halt], .empty,
    ⟨0, false⟩, by decide, by decide, by decide⟩

/-- Where the one machine skips the copy and the other carries it out, in a memory and on a stack of
other sizes, the registration states are the same. -/
theorem registration_of_opcodes_copies :
    ∃ m m', ofProgram copyFromBelow { Config.standard with memorySize := 32 } = .ok m ∧
      ofProgram copyTop { Config.standard with memorySize := 64, stackCapacity := 2 } = .ok m' ∧
      (m.steps 2).store.stack.size = 1 ∧ (m'.steps 2).store.stack.size = 2 ∧
      m.opcodes 4 = [some (some .push), some (some .indup), some (some .halt), none] ∧
      ∀ k ≤ 4, (m.steps k).registration = (m'.steps k).registration := by
  have h₀ := @ofProgram_of_le copyFromBelow { Config.standard with memorySize := 32 } (by decide)
  have h₀' := @ofProgram_of_le copyTop
    { Config.standard with memorySize := 64, stackCapacity := 2 } (by decide)
  have hclean : ((initial copyFromBelow { Config.standard with memorySize := 32 }).steps
      4).violation = none := by decide +kernel
  have hsame := registration_of_opcodes h₀ h₀' hclean (by decide +kernel) (by decide +kernel)
  exact ⟨_, _, h₀, h₀', by decide +kernel, by decide +kernel, by decide +kernel,
    fun k hk => (hsame k hk).2.1⟩

end Machine

end InvariantMachine

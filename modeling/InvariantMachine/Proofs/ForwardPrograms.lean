import Mathlib
import InvariantMachine.Proofs.Runs
import InvariantMachine.Proofs.Traps

/-!
# Programs that only go forward

In a program without stores and returns whose jumps and calls lead to later instructions, or to
none, every step leaves an instruction behind for good. After as many steps as there are
instructions control is past all of them, at the end of the code or at the address of an unresolved
target, and there the next step halts.
-/

namespace InvariantMachine

/-- As the target of a jump or call that stands at an index, the operand is a later index, or a
negative one, which is the index of nothing. -/
def Operand.LeadsPast (j : Nat) : Operand → Prop
  | int t => (j : Int) < t.toInt ∨ t.toInt < 0
  | _ => True

instance (j : Nat) (o : Operand) : Decidable (o.LeadsPast j) :=
  match o with
  | .int _ => inferInstanceAs (Decidable (_ ∨ _))
  | .none | .float _ | .char _ | .register _ | .stringIndex _ | .top => .isTrue trivial

namespace Program

variable {p : Program} {n j a : Nat}

/-- No jump and no call of the program leads to itself or to an instruction before it. -/
def ForwardOnly (p : Program) : Prop :=
  ∀ j (h : j < p.instructions.size),
    p.instructions[j].opcode.takesAddress → p.instructions[j].operand.LeadsPast j

instance (p : Program) : Decidable p.ForwardOnly :=
  inferInstanceAs (Decidable (∀ j (h : j < p.instructions.size),
    p.instructions[j].opcode.takesAddress → p.instructions[j].operand.LeadsPast j))

/-- Where control can be when a number of instructions is left behind: at a later one, at the end of
the code, or at the address of an unresolved target. -/
def Ahead (p : Program) (n a : Nat) : Prop :=
  n ≤ p.size ∧ (a = unresolvedTarget ∨ ∃ j, n ≤ j ∧ j ≤ p.size ∧ a = p.offset j)

theorem ahead_offset (hn : n ≤ j) (hj : j ≤ p.size) : p.Ahead n (p.offset j) :=
  ⟨hn.trans hj, .inr ⟨j, hn, hj, rfl⟩⟩

theorem ahead_resolve {t : Int} (hn : n ≤ p.size) (ht : (n : Int) ≤ t ∨ t < 0) :
    p.Ahead n (p.resolve t) := by
  by_cases h : 0 ≤ t ∧ t ≤ p.size
  · rw [resolve_of_le h.1 h.2]
    apply ahead_offset <;> omega
  · exact ⟨hn, .inl (resolve_of_not_le h)⟩

theorem ahead_start (p : Program) : p.Ahead 0 p.start := by
  rcases p.boundary_start with ⟨j, hj, hstart⟩ | hstart
  · rw [hstart]
    exact ahead_offset (Nat.zero_le j) hj
  · exact ⟨Nat.zero_le _, .inl hstart⟩

theorem Ahead.exists_instruction (h : p.Ahead n a) (ha : a < p.image.length) :
    ∃ j, j < p.instructions.size ∧ n ≤ j ∧ a = p.offset j := by
  rcases h with ⟨-, rfl | ⟨j, hnj, hj, rfl⟩⟩
  · have hle := p.image_length_le_unresolvedTarget
    omega
  · rcases Nat.lt_or_eq_of_le hj with hlt | rfl
    · exact ⟨j, hlt, hnj, rfl⟩
    · rw [image_length] at ha
      exact absurd ha (Nat.lt_irrefl _)

/-- Where an instruction of a program that only goes forward sends control, this instruction is left
behind. -/
theorem ahead_of_justified (hforward : p.ForwardOnly) (hj : j < p.instructions.size)
    (hret : p.instructions[j].opcode ≠ .ret) (hn : n ≤ j) {s : Store}
    (h : (Flow.goto a).Justified s (p.placed p.instructions[j])) : p.Ahead (n + 1) a := by
  rcases h with ⟨htakes, rfl⟩ | ⟨hop, -⟩
  · have hleads := hforward j hj htakes
    have hwell : p.instructions[j].WellFormed := wellFormed_of_mem (Array.getElem_mem hj)
    obtain ⟨op, t, hi⟩ := hwell.exists_target htakes
    have hop : op.takesAddress := by simpa [placed, hi] using htakes
    rw [hi] at hleads ⊢
    rw [target_placed p hop]
    have hpast : (j : Int) < t.toInt ∨ t.toInt < 0 := hleads
    apply ahead_resolve
    · show n + 1 ≤ p.instructions.size
      omega
    · omega
  · exact absurd hop hret

end Program

def Flow.destination (after : Nat) : Flow → Nat
  | goto a => a
  | next | halt => after

namespace Machine

variable {p : Program} {config : Config} {m : Machine} {n : Nat}

theorem pc_retired (fetched : Fetched) (store : Store) (flow : Flow) :
    (m.retired fetched store flow).pc = flow.destination fetched.after := by
  cases flow <;> rfl

theorem exists_of_running_step (hrecheck : m.recheck = false) (h : m.step.status = .running) :
    ∃ fetched store flow, m.store.memory.fetch m.pc = .ok fetched ∧
      m.effect fetched = .ok (store, flow) ∧ flow ≠ .halt ∧
      m.step.pc = flow.destination fetched.after := by
  have hrun := running_of_step h
  rw [step_of_not_recheck hrun hrecheck] at h ⊢
  have hends := m.begun.cycle_ends
  generalize m.begun.cycle = m' at hends h ⊢
  cases hends with
  | unfetched _ => contradiction
  | failed _ _ => contradiction
  | @retired fetched store flow hfetch heffect =>
    have hcheck := check_ends (m.begun.retired fetched store flow)
    refine ⟨fetched, store, flow, hfetch, heffect, ?_, ?_⟩
    · intro hhalt
      subst hhalt
      cases hcheck.running_of_running h
    · rw [hcheck.pc_eq]
      exact pc_retired fetched store flow

/-- A step of a program that only goes forward leaves one more instruction behind. -/
theorem Sound.ahead_step (hret : ∀ i ∈ p.instructions, i.opcode ≠ .ret)
    (hforward : p.ForwardOnly) (hfit : p.image.length ≤ config.memorySize)
    (hm : m.Sound p config) (ha : p.Ahead n m.pc) (h : m.step.status = .running) :
    p.Ahead (n + 1) m.step.pc := by
  obtain ⟨fetched, store, flow, hfetch, heffect, hflow, hpc⟩ :=
    exists_of_running_step hm.recheck_eq h
  rw [hm.memory_eq] at hfetch
  -- Behind the image the machine would have halted.
  have hinside : m.pc < p.image.length := by
    by_contra hbehind
    rcases Memory.fetch_behind hfit (Nat.le_of_not_lt hbehind) with ⟨-, hnone⟩ | hhalt
    · rw [hnone] at hfetch
      cases hfetch
    · rw [hhalt] at hfetch
      cases hfetch
      have heffect' : m.effect (.instruction (.bare .halt) (m.pc + 1)) = .ok (m.store, .halt) := rfl
      rw [heffect'] at heffect
      cases heffect
      exact hflow rfl
  obtain ⟨j, hj, hn, hat⟩ := ha.exists_instruction hinside
  have hplaced := Memory.fetch_offset (Memory.image_isPrefix_ofImage p.image config.memorySize)
    (Array.getElem?_eq_getElem hj)
  rw [hat, hplaced] at hfetch
  obtain rfl := Except.ok.inj hfetch
  rw [hpc]
  cases flow with
  | halt => exact absurd rfl hflow
  | next => exact Program.ahead_offset (Nat.succ_le_succ hn) hj
  | goto a =>
    obtain ⟨hjustified, -⟩ := execute_framed.of_ok heffect
    exact Program.ahead_of_justified hforward hj (hret _ (Array.getElem_mem hj)) hn hjustified

theorem ahead_steps (hp : ∀ i ∈ p.instructions, i.opcode ≠ .store ∧ i.opcode ≠ .ret)
    (hforward : p.ForwardOnly) (hfit : p.image.length ≤ config.memorySize) (n : Nat)
    (h : ((initial p config).steps n).status = .running) :
    p.Ahead n ((initial p config).steps n).pc := by
  induction n with
  | zero => exact p.ahead_start
  | succ n ih =>
    have hsound := ((sound_initial p config).steps hp hfit rfl n).1
    apply hsound.ahead_step (fun i hi => (hp i hi).2) hforward hfit
    · exact ih (running_of_step h)
    · exact h

/-- A program without stores and returns whose jumps and calls only go forward has stopped after one
step more than it has instructions, wherever it starts and whatever its configuration. -/
theorem forward_program_stops {m : Machine} (h₀ : ofProgram p config = .ok m)
    (hp : ∀ i ∈ p.instructions, i.opcode ≠ .store ∧ i.opcode ≠ .ret)
    (hforward : p.ForwardOnly) : (m.run (p.size + 1)).1.status ≠ .running := by
  obtain ⟨hfit, rfl⟩ := ofProgram_eq_ok h₀
  rw [run_eq_steps]
  intro hrun
  have hahead := ahead_steps hp hforward hfit (p.size + 1) hrun
  exact Nat.not_succ_le_self p.size hahead.1

private def jumpNowhere : Program :=
  ⟨#[.withOperand .push (.int 0), .withOperand .zjmp (.int (-1))], .empty, ⟨0, false⟩,
    by decide, by decide, by decide⟩

private def jumpNowhereMachine : Machine :=
  initial jumpNowhere { Config.standard with memorySize := 24 }

/-- The bound is met: after two steps this program still runs. -/
theorem forward_program_stops_jumpNowhere :
    ∃ m, ofProgram jumpNowhere { Config.standard with memorySize := 24 } = .ok m ∧
      (∀ i ∈ jumpNowhere.instructions, i.opcode ≠ .store ∧ i.opcode ≠ .ret) ∧
      jumpNowhere.ForwardOnly ∧ (m.run 2).1.status = .running ∧
      (m.run (jumpNowhere.size + 1)).1.status ≠ .running := by
  have h₀ : ofProgram jumpNowhere { Config.standard with memorySize := 24 } =
      .ok jumpNowhereMachine := ofProgram_of_le (by decide)
  have hp : ∀ i ∈ jumpNowhere.instructions, i.opcode ≠ .store ∧ i.opcode ≠ .ret := by decide
  have hforward : jumpNowhere.ForwardOnly := by decide
  exact ⟨jumpNowhereMachine, h₀, hp, hforward, by decide +kernel,
    forward_program_stops h₀ hp hforward⟩

end Machine

end InvariantMachine

import Mathlib
import InvariantMachine.Machine.Run
import InvariantMachine.Proofs.Frame
import InvariantMachine.Proofs.Verdicts

/-!
# How a step ends

A step of a running machine either stops at a rejected edit or goes through one cycle. A cycle ends
in one of three ways: nothing could be fetched, the effect of what was fetched failed, or it was
retired and the invariants were verified. What holds after every step is proved of these three
ends, and what holds after every run from what holds after every step.
-/

namespace InvariantMachine

namespace Machine

variable {m m' : Machine} {violation : Violation}

def steps (m : Machine) : Nat → Machine
  | 0 => m
  | n + 1 => (m.steps n).step

/-- The machine when a step comes to its fetch. -/
def begun (m : Machine) : Machine := { m with recheck := false, cycles := m.cycles + 1 }

theorem isRunning_iff : m.isRunning ↔ m.status = .running := beq_iff_eq

theorem step_of_not_running (h : m.status ≠ .running) : m.step = m := by
  rw [step, if_neg (mt isRunning_iff.mp h)]

theorem running_of_step (h : m.step.status = .running) : m.status = .running := by
  by_contra hrun
  rw [step_of_not_running hrun] at h
  exact hrun h

theorem steps_succ (m : Machine) (n : Nat) : m.steps (n + 1) = m.step.steps n := by
  induction n with
  | zero => rfl
  | succ n ih => exact congrArg step ih

theorem steps_add (m : Machine) (j n : Nat) : m.steps (j + n) = (m.steps j).steps n := by
  induction n with
  | zero => rfl
  | succ n ih => exact congrArg step ih

theorem steps_invariant {P : Machine → Prop} (hstep : ∀ m, P m → P m.step) (h : P m) (n : Nat) :
    P (m.steps n) := by
  induction n with
  | zero => exact h
  | succ n ih => exact hstep _ ih

theorem steps_of_not_running (h : m.status ≠ .running) (n : Nat) : m.steps n = m := by
  induction n with
  | zero => rfl
  | succ n ih => rw [steps, ih, step_of_not_running h]

/-- Two machines whose steps keep one relation, or lead to another that steps keep for good, are
in one of the two after every run. -/
theorem steps_related {R S : Machine → Machine → Prop}
    (hR : ∀ a b, R a b → R a.step b.step ∨ S a.step b.step)
    (hS : ∀ a b, S a b → S a.step b.step) {a b : Machine} (h : R a b) (n : Nat) :
    R (a.steps n) (b.steps n) ∨ S (a.steps n) (b.steps n) := by
  induction n with
  | zero => exact .inl h
  | succ n ih =>
    rcases ih with hn | hn
    · exact hR _ _ hn
    · exact .inr (hS _ _ hn)

/-- Whether a machine halted on a violation of a kind. -/
def HaltedOn (m : Machine) (P : Violation → Prop) : Prop :=
  m.status = .haltedViolation ∧ ∃ violation, m.violation = some violation ∧ P violation

theorem haltedOn_fail {P : Violation → Prop} (h : P violation) : (m.fail violation).HaltedOn P :=
  ⟨rfl, violation, rfl, h⟩

theorem HaltedOn.step {P : Violation → Prop} (h : m.HaltedOn P) : m.step.HaltedOn P := by
  have hrun : m.status ≠ .running := by
    rw [h.1]
    decide
  rw [step_of_not_running hrun]
  exact h

theorem HaltedOn.status_steps_ne {P : Violation → Prop} (h : m.HaltedOn P) (n : Nat) :
    (m.steps n).status ≠ .haltedNominal := by
  rw [steps_of_not_running (by rw [h.1]; decide), h.1]
  decide

theorem step_of_rejected (hrun : m.status = .running) (h : m.editViolation? = some violation) :
    m.step = { m with recheck := false }.fail violation := by
  rw [step, if_pos (isRunning_iff.mpr hrun), h]

theorem step_of_accepted (hrun : m.status = .running) (h : m.editViolation? = none) :
    m.step = m.begun.cycle := by
  rw [step, if_pos (isRunning_iff.mpr hrun), h]
  rfl

theorem editViolation?_eq_some_iff :
    m.editViolation? = some violation ↔
      m.recheck ∧ m.verifier.verify m.registration = .error violation := by
  unfold editViolation?
  cases m.recheck <;> cases m.verifier.verify m.registration <;> simp

theorem editViolation?_of_not_recheck (h : m.recheck = false) : m.editViolation? = none := by
  rw [editViolation?, h]
  rfl

theorem editViolation?_of_error (hrecheck : m.recheck = true)
    (h : m.verifier.verify m.registration = .error violation) :
    m.editViolation? = some violation :=
  editViolation?_eq_some_iff.mpr ⟨hrecheck, h⟩

theorem step_of_not_recheck (hrun : m.status = .running) (h : m.recheck = false) :
    m.step = m.begun.cycle :=
  step_of_accepted hrun (editViolation?_of_not_recheck h)

theorem enforce_of_accepted (hrecheck : m.recheck = true) (h : m.editViolation? = none) :
    m.verifier.enforce m.registration = .ok () := by
  cases hv : m.verifier.verify m.registration with
  | error violation => simp [editViolation?_of_error hrecheck hv] at h
  | ok finding => exact Verifier.enforce_eq_ok_iff.mpr ⟨finding, hv⟩

/-- The instruction that a step would carry out, as it stands in memory. -/
def current? (m : Machine) : Option Instruction :=
  match m.store.memory.fetch m.pc with
  | .ok (.instruction i _) => if m.isRunning then some i else none
  | _ => none

theorem current?_eq_some {i : Instruction} {after : Nat} (hrun : m.status = .running)
    (hfetch : m.store.memory.fetch m.pc = .ok (.instruction i after)) : m.current? = some i := by
  rw [current?, hfetch]
  exact if_pos (isRunning_iff.mpr hrun)

/-- How a verification at the end of a step turns out. -/
inductive CheckEnd (m : Machine) : Machine → Prop
  | rejected {violation : Violation}
      (verify : m.verifier.verify m.registration = .error violation) :
      CheckEnd m (m.fail violation)
  | accepted (softFindings : Nat) (enforce : m.verifier.enforce m.registration = .ok ()) :
      CheckEnd m { m with softFindings }

theorem check_ends (m : Machine) : CheckEnd m m.checked := by
  unfold checked
  split
  · rename_i violation h
    exact .rejected h
  · rename_i finding h
    exact .accepted _ (Verifier.enforce_eq_ok_iff.mpr ⟨_, h⟩)
  · rename_i h
    exact .accepted m.softFindings (Verifier.enforce_eq_ok_iff.mpr ⟨_, h⟩)

/-- A change of machines that the verifier does not see may be made after the verification. -/
theorem checked_comm {f : Machine → Machine}
    (hverify : (f m).verifier.verify (f m).registration = m.verifier.verify m.registration)
    (hfail : ∀ violation, (f m).fail violation = f (m.fail violation))
    (hfinding : { f m with softFindings := (f m).softFindings + 1 } =
      f { m with softFindings := m.softFindings + 1 }) :
    (f m).checked = f m.checked := by
  unfold checked
  rw [hverify]
  cases m.verifier.verify m.registration with
  | error violation => exact hfail violation
  | ok finding =>
    cases finding with
    | none => rfl
    | some _ => exact hfinding

def failedWith (m : Machine) (failure : Failure) : Machine :=
  { m with
    store := failure.store
    pc := failure.pc
    registration := failure.registration }.fail failure.violation

/-- What fails has changed nothing but the stack, and stands behind what was fetched. -/
theorem onStack_of_effect {fetched : Fetched} {failure : Failure}
    (h : m.effect fetched = .error failure) :
    failure.OnStack (m.context fetched.after) m.store := by
  cases fetched with
  | instruction i after => exact execute_framed.of_error h
  | unknown after => contradiction

/-- A machine whose instruction fails keeps all but the stack, the program counter, which is behind
the instruction, and the records of the halt. -/
theorem failedWith_eq {fetched : Fetched} {failure : Failure}
    (heffect : m.effect fetched = .error failure) :
    m.failedWith failure = { m with
      pc := fetched.after
      store := { m.store with stack := failure.store.stack }
      status := .haltedViolation
      violation := some failure.violation } := by
  have honly := onStack_of_effect heffect
  rw [failedWith, fail, honly.pc_eq, honly.registration_eq, honly.store_eq]
  rfl

/-- The machine whose instruction was carried out, before the verification. -/
def retired (m : Machine) (fetched : Fetched) (store : Store) (flow : Flow) : Machine :=
  (m.proceed store fetched.after flow).account fetched.opcode?

/-- The ways a cycle ends. -/
inductive CycleEnd (m : Machine) : Machine → Prop
  | unfetched {violation : Violation} (fetch : m.store.memory.fetch m.pc = .error violation) :
      CycleEnd m (m.fail violation)
  | failed {fetched : Fetched} {failure : Failure}
      (fetch : m.store.memory.fetch m.pc = .ok fetched)
      (effect : m.effect fetched = .error failure) :
      CycleEnd m (m.failedWith failure)
  | retired {fetched : Fetched} {store : Store} {flow : Flow}
      (fetch : m.store.memory.fetch m.pc = .ok fetched)
      (effect : m.effect fetched = .ok (store, flow)) :
      CycleEnd m (m.retired fetched store flow).checked

theorem cycle_ends (m : Machine) : CycleEnd m m.cycle := by
  unfold cycle
  split
  · rename_i violation hfetch
    exact .unfetched hfetch
  · rename_i fetched hfetch
    split
    · rename_i failure heffect
      exact .failed hfetch heffect
    · rename_i store flow heffect
      exact .retired hfetch heffect

theorem cycle_of_unfetched (hfetch : m.store.memory.fetch m.pc = .error violation) :
    m.cycle = m.fail violation := by
  rw [cycle, hfetch]

theorem cycle_of_failed {fetched : Fetched} {failure : Failure}
    (hfetch : m.store.memory.fetch m.pc = .ok fetched)
    (heffect : m.effect fetched = .error failure) :
    m.cycle = m.failedWith failure := by
  rw [cycle, hfetch]
  dsimp only
  rw [heffect]
  rfl

theorem cycle_of_retired {fetched : Fetched} {store : Store} {flow : Flow}
    (hfetch : m.store.memory.fetch m.pc = .ok fetched)
    (heffect : m.effect fetched = .ok (store, flow)) :
    m.cycle = (m.retired fetched store flow).checked := by
  rw [cycle, hfetch]
  dsimp only
  rw [heffect]
  rfl

theorem step_of_unfetched (hrun : m.status = .running) (hrecheck : m.recheck = false)
    (hfetch : m.store.memory.fetch m.pc = .error violation) : m.step = m.begun.fail violation := by
  rw [step_of_not_recheck hrun hrecheck]
  exact cycle_of_unfetched (m := m.begun) hfetch

theorem step_of_retired (hrun : m.status = .running) (hrecheck : m.recheck = false)
    {fetched : Fetched} {store : Store} {flow : Flow}
    (hfetch : m.store.memory.fetch m.pc = .ok fetched)
    (heffect : m.effect fetched = .ok (store, flow)) :
    m.step = (m.begun.retired fetched store flow).checked := by
  rw [step_of_not_recheck hrun hrecheck]
  exact cycle_of_retired (m := m.begun) hfetch heffect

@[simp] theorem store_proceed (store : Store) (after : Nat) (flow : Flow) :
    (m.proceed store after flow).store = store := by
  cases flow <;> rfl

@[simp] theorem config_proceed (store : Store) (after : Nat) (flow : Flow) :
    (m.proceed store after flow).config = m.config := by
  cases flow <;> rfl

@[simp] theorem strings_proceed (store : Store) (after : Nat) (flow : Flow) :
    (m.proceed store after flow).strings = m.strings := by
  cases flow <;> rfl

@[simp] theorem recheck_proceed (store : Store) (after : Nat) (flow : Flow) :
    (m.proceed store after flow).recheck = m.recheck := by
  cases flow <;> rfl

@[simp] theorem store_retired (fetched : Fetched) (store : Store) (flow : Flow) :
    (m.retired fetched store flow).store = store :=
  m.store_proceed store fetched.after flow

theorem status_retired (hrun : m.status = .running) (fetched : Fetched) (store : Store)
    (flow : Flow) : (m.retired fetched store flow).status ≠ .haltedViolation := by
  cases flow with
  | next | goto _ =>
    change m.status ≠ _
    rw [hrun]
    decide
  | halt => exact Status.noConfusion

@[simp] theorem violation_proceed (store : Store) (after : Nat) (flow : Flow) :
    (m.proceed store after flow).violation = m.violation := by
  cases flow <;> rfl

theorem CheckEnd.running_of_running (h : CheckEnd m m') (hafter : m'.status = .running) :
    m.status = .running := by
  cases h with
  | rejected _ => contradiction
  | accepted _ _ => exact hafter

theorem CheckEnd.violation_of_running (h : CheckEnd m m') (hafter : m'.status = .running) :
    m'.violation = m.violation := by
  cases h with
  | rejected _ => contradiction
  | accepted _ _ => rfl

theorem CycleEnd.violation_of_running (h : CycleEnd m m') (hafter : m'.status = .running) :
    m'.violation = m.violation := by
  cases h with
  | unfetched _ => contradiction
  | failed _ _ => contradiction
  | @retired fetched store flow _ _ =>
    rw [(check_ends _).violation_of_running hafter]
    exact violation_proceed store fetched.after flow

theorem CheckEnd.recheck_eq (h : CheckEnd m m') : m'.recheck = m.recheck := by
  cases h <;> rfl

theorem CheckEnd.pc_eq (h : CheckEnd m m') : m'.pc = m.pc := by
  cases h <;> rfl

theorem CheckEnd.running_or_halted (h : CheckEnd m m') (hrun : m.status = .running) :
    m'.status = .running ∨ m'.HaltedOn (·.kind = .invariant) := by
  cases h with
  | rejected hverify => exact .inr (haltedOn_fail (Verifier.verify_error_kind hverify))
  | accepted _ _ => exact .inl hrun

theorem CycleEnd.recheck_eq (h : CycleEnd m m') : m'.recheck = m.recheck := by
  cases h with
  | unfetched _ => rfl
  | failed _ _ => rfl
  | @retired fetched store flow _ _ =>
    exact (check_ends _).recheck_eq.trans (recheck_proceed store fetched.after flow)

theorem recheck_step_eq_false (h : m.recheck = false) : m.step.recheck = false := by
  by_cases hrun : m.status = .running
  · rw [step_of_not_recheck hrun h]
    exact m.begun.cycle_ends.recheck_eq
  · rw [step_of_not_running hrun]
    exact h

theorem recheck_steps_eq_false (h : m.recheck = false) (n : Nat) : (m.steps n).recheck = false :=
  steps_invariant (P := (·.recheck = false)) (fun _ h => recheck_step_eq_false h) h n

/-- A relation of two machines without edits holds after a step if it holds after a cycle of both,
or held of both when they halted. -/
theorem step_together {R : Machine → Machine → Prop} (hstatus : m'.status = m.status)
    (hrecheck : m.recheck = false) (hrecheck' : m'.recheck = false)
    (hcycle : m.status = .running → R m.begun.cycle m'.begun.cycle)
    (hhalted : m.status ≠ .running → R m m') : R m.step m'.step := by
  by_cases hrun : m.status = .running
  · rw [step_of_not_recheck hrun hrecheck, step_of_not_recheck (hstatus.trans hrun) hrecheck']
    exact hcycle hrun
  · have hrun' : m'.status ≠ .running := by
      rw [hstatus]
      exact hrun
    rw [step_of_not_running hrun, step_of_not_running hrun']
    exact hhalted hrun

theorem violation_of_running_step (h : m.step.status = .running) :
    m.step.violation = m.violation := by
  have hrun := running_of_step h
  cases hedit : m.editViolation? with
  | some violation =>
    rw [step_of_rejected hrun hedit] at h
    contradiction
  | none =>
    rw [step_of_accepted hrun hedit] at h ⊢
    exact m.begun.cycle_ends.violation_of_running h

theorem violation_of_running_steps {n : Nat} (h : (m.steps n).status = .running) :
    (m.steps n).violation = m.violation := by
  induction n with
  | zero => rfl
  | succ n ih => exact (violation_of_running_step h).trans (ih (running_of_step h))

theorem CheckEnd.kind (h : CheckEnd m m') (hbefore : m.status ≠ .haltedViolation)
    (hafter : m'.status = .haltedViolation) :
    ∃ violation, m'.violation = some violation ∧ violation.kind = .invariant := by
  cases h with
  | rejected hverify => exact ⟨_, rfl, Verifier.verify_error_kind hverify⟩
  | accepted _ _ => exact absurd hafter hbefore

theorem CheckEnd.kind_of_violation {violation : Violation} (h : CheckEnd m m')
    (hbefore : m.violation = none) (hafter : m'.violation = some violation) :
    violation.kind = .invariant := by
  cases h with
  | rejected hverify =>
    rw [← Option.some.inj hafter]
    exact Verifier.verify_error_kind hverify
  | accepted _ _ =>
    rw [hbefore] at hafter
    contradiction

end Machine

end InvariantMachine

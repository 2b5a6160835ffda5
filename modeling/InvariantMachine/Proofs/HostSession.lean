import Mathlib
import InvariantMachine.Proofs.Fetch
import InvariantMachine.Proofs.Runs

/-!
# Hosts that edit the registration state

A host steps and runs a machine and replaces its registration state in any order. A running
machine that was stepped holds a registration state that the verifier accepts, unless the host has
edited it since; an edit is verified before the next fetch. So no instruction is ever carried out
on a registration state that the verifier rejects. A step inside a run is the step after a shorter
run, so what holds of every step that follows some actions holds of these too.
-/

namespace InvariantMachine

/-- What a host does to a machine. -/
inductive HostAction where
  | step
  | run (budget : Nat)
  /-- Replaces the registration state. -/
  | edit (registration : Registration)
deriving DecidableEq

namespace HostAction

def perform (m : Machine) : HostAction → Machine
  | step => m.step
  | run budget => (m.run budget).1
  | edit registration => m.editRegistration registration

/-- Whether a running machine takes a step in the action. -/
def takesStep : HostAction → Bool
  | step => true
  | run budget => budget != 0
  | edit _ => false

/-- Whether an edit waits to be verified after the action, given whether one did before. -/
def pendingAfter (pending : Bool) : HostAction → Bool
  | edit _ => true
  | action => pending && !action.takesStep

/-- Whether an edit waits to be verified after some actions: no step came after the last one. -/
def editPending (actions : List HostAction) : Bool := actions.foldl pendingAfter false

end HostAction

namespace Machine

variable {m : Machine}

def session (m : Machine) (actions : List HostAction) : Machine :=
  actions.foldl HostAction.perform m

theorem session_concat (m : Machine) (actions : List HostAction) (action : HostAction) :
    m.session (actions ++ [action]) = action.perform (m.session actions) := by
  rw [session, List.foldl_append]
  rfl

theorem session_invariant {P : Machine → Prop} (hstep : ∀ m, P m → P m.step)
    (hedit : ∀ m registration, P m → P (m.editRegistration registration)) (h : P m)
    (actions : List HostAction) : P (m.session actions) := by
  induction actions using List.reverseRecOn with
  | nil => exact h
  | append_singleton actions action ih =>
    rw [session_concat]
    cases action with
    | step => exact hstep _ ih
    | run budget =>
      rw [HostAction.perform, run_eq_steps]
      exact steps_invariant hstep ih budget
    | edit registration => exact hedit _ registration ih

theorem CheckEnd.settled {m' : Machine} (h : CheckEnd m m')
    (hend : m'.status ≠ .haltedViolation) :
    m'.recheck = m.recheck ∧ m'.verifier.enforce m'.registration = .ok () := by
  cases h with
  | rejected _ => exact absurd rfl hend
  | accepted _ henforce => exact ⟨rfl, henforce⟩

theorem CycleEnd.settled {m' : Machine} (h : CycleEnd m m') (hend : m'.status ≠ .haltedViolation) :
    m'.recheck = m.recheck ∧ m'.verifier.enforce m'.registration = .ok () := by
  cases h with
  | unfetched _ => exact absurd rfl hend
  | failed _ _ => exact absurd rfl hend
  | @retired fetched store flow _ _ =>
    obtain ⟨hrecheck, henforce⟩ := (check_ends (m.retired fetched store flow)).settled hend
    exact ⟨hrecheck.trans (recheck_proceed store fetched.after flow), henforce⟩

/-- A step that does not end in a violation leaves no edit to verify and a registration state that
the verifier accepts. -/
theorem step_settled (hrun : m.status = .running) (hstep : m.step.status ≠ .haltedViolation) :
    m.step.recheck = false ∧ m.step.verifier.enforce m.step.registration = .ok () := by
  cases hedit : m.editViolation? with
  | some violation =>
    rw [step_of_rejected hrun hedit] at hstep
    exact absurd rfl hstep
  | none =>
    rw [step_of_accepted hrun hedit] at hstep ⊢
    exact m.begun.cycle_ends.settled hstep

/-- What a running machine keeps between the actions of a host. -/
structure Settled (m : Machine) (pending stepped : Bool) : Prop where
  recheck : m.recheck = pending
  enforced : stepped = true → pending = false → m.verifier.enforce m.registration = .ok ()

theorem settled_initial (p : Program) (config : Config) :
    (initial p config).Settled false false :=
  ⟨rfl, fun h _ => absurd h Bool.false_ne_true⟩

theorem settled_steps (n : Nat) (h : (m.steps (n + 1)).status = .running) :
    (m.steps (n + 1)).Settled false true := by
  have hrun := running_of_step h
  have hstep := step_settled hrun (by rw [← steps, h]; decide)
  exact ⟨hstep.1, fun _ _ => hstep.2⟩

theorem Settled.perform {pending stepped : Bool} (hm : m.Settled pending stepped)
    (action : HostAction) (h : (action.perform m).status = .running) :
    (action.perform m).Settled (action.pendingAfter pending) (stepped || action.takesStep) := by
  cases action with
  | step =>
    have hstep : m.step.Settled false true := settled_steps 0 h
    simpa [HostAction.perform, HostAction.pendingAfter, HostAction.takesStep] using hstep
  | run budget =>
    rw [HostAction.perform, run_eq_steps] at h ⊢
    cases budget with
    | zero => simpa [HostAction.pendingAfter, HostAction.takesStep, steps] using hm
    | succ n => simpa [HostAction.pendingAfter, HostAction.takesStep] using settled_steps n h
  | edit registration => exact ⟨rfl, fun _ h => absurd h Bool.noConfusion⟩

theorem running_of_perform {action : HostAction} (h : (action.perform m).status = .running) :
    m.status = .running := by
  cases action with
  | step => exact running_of_step h
  | run budget =>
    by_contra hrun
    rw [HostAction.perform, run_eq_steps, steps_of_not_running hrun] at h
    exact hrun h
  | edit _ => exact h

theorem settled_session {m₀ : Machine} (h₀ : m₀.Settled false false) (actions : List HostAction)
    (h : (m₀.session actions).status = .running) :
    (m₀.session actions).Settled (HostAction.editPending actions)
      (actions.any HostAction.takesStep) := by
  induction actions using List.reverseRecOn with
  | nil => exact h₀
  | append_singleton actions action ih =>
    rw [session_concat] at h ⊢
    have hlast := (ih (running_of_perform h)).perform action h
    simpa [HostAction.editPending] using hlast

theorem effect_regCheck {i : Instruction} {after : Nat} (hop : i.opcode = .regCheck)
    (h : m.verifier.enforce m.registration = .ok ()) :
    m.effect (.instruction i after) = .ok (m.store, .next) := by
  have hcontext : (m.context after).enforced = .ok () := h
  rw [effect, execute_of_none hop rfl, perform, hop]
  dsimp only
  rw [hcontext]

/-- A step that finds a pending edit of which the verifier disapproves halts on its violation and
changes nothing else; a step that does not end in a violation leaves a registration state that the
verifier accepts; and a step that comes to its fetch, in a machine that was stepped or edited, has
such a registration state before it, so a check of the registration passes there. -/
theorem registration_safe_at_every_fetch {p : Program} {config : Config} {m₀ m : Machine}
    (h₀ : ofProgram p config = .ok m₀) {actions : List HostAction}
    (hm : m₀.session actions = m) (hrun : m.status = .running) :
    (∀ violation, HostAction.editPending actions →
      m.verifier.verify m.registration = .error violation →
      m.step = { m with
        recheck := false, status := .haltedViolation, violation := some violation }) ∧
    (m.step.status ≠ .haltedViolation →
      m.step.verifier.enforce m.step.registration = .ok ()) ∧
    (HostAction.editPending actions ∨ actions.any HostAction.takesStep → m.editViolation? = none →
      m.step = m.begun.cycle ∧
      m.begun.verifier.enforce m.begun.registration = .ok () ∧
      ∀ i after, i.opcode = .regCheck →
        m.begun.effect (.instruction i after) = .ok (m.store, .next)) := by
  obtain ⟨-, rfl⟩ := ofProgram_eq_ok h₀
  have hsettled : m.Settled (HostAction.editPending actions)
      (actions.any HostAction.takesStep) := by
    subst hm
    exact settled_session (settled_initial p config) actions hrun
  refine ⟨?_, fun hstep => (step_settled hrun hstep).2, ?_⟩
  · intro violation hpending hverify
    exact step_of_rejected hrun (editViolation?_of_error (hsettled.recheck.trans hpending) hverify)
  · intro hhistory haccepted
    have henforce : m.verifier.enforce m.registration = .ok () := by
      cases hpending : HostAction.editPending actions with
      | true => exact enforce_of_accepted (hsettled.recheck.trans hpending) haccepted
      | false =>
        rw [hpending] at hhistory
        exact hsettled.enforced (hhistory.resolve_left Bool.false_ne_true) hpending
    exact ⟨step_of_accepted hrun haccepted, henforce, fun _ _ hop =>
      effect_regCheck (m := m.begun) hop henforce⟩

private def twoChecks : Program :=
  ⟨#[.bare .regCheck, .bare .regCheck], .empty, ⟨0, false⟩, by decide, by decide, by decide⟩

/-- A host lets one check of the registration pass and raises the complexity before the next. -/
theorem registration_safe_at_every_fetch_of_raised :
    ∃ m₀ m, ofProgram twoChecks { Config.standard with memorySize := 16 } = .ok m₀ ∧
      m₀.session [.run 1, .edit (Registration.initial.withComplexity 60000)] = m ∧
      m.status = .running ∧ m.pc = 1 ∧
      m.step = { m with
        recheck := false
        status := .haltedViolation
        violation := some (.complexityBomb 60000 50000) } := by
  have h₀ := @ofProgram_of_le twoChecks { Config.standard with memorySize := 16 } (by decide)
  refine ⟨_, _, h₀, rfl, by decide +kernel, by decide +kernel, ?_⟩
  refine (registration_safe_at_every_fetch h₀ rfl (by decide +kernel)).1 _ ?_ ?_
  · decide
  · decide +kernel

end Machine

end InvariantMachine

import Mathlib
import InvariantMachine.Proofs.Bounds

/-!
# Machines under two policies of the verifier

The policy of a verifier is its ceiling and its severity. It decides whether a machine may go on and
which findings are counted, never what the machine computes: two machines of one program that differ
in it alone stay the same in everything else until one of them halts on a broken invariant.
-/

namespace InvariantMachine

theorem execute_of_ne_regCheck {ctx : Context} {s : Store} {i : Instruction}
    (h : i.opcode ≠ .regCheck) (verifier : Verifier) :
    execute { ctx with verifier } s i = execute ctx s i := by
  have hperform : perform { ctx with verifier } s i = perform ctx s i := by
    unfold perform
    cases hop : i.opcode <;> first | rfl | exact absurd hop h
  unfold execute
  rw [hperform]
  rfl

namespace Machine

variable {m : Machine} {ceiling : Binary64} {severity : Severity} {softFindings : Nat}

def withPolicy (m : Machine) (ceiling : Binary64) (severity : Severity) (softFindings : Nat) :
    Machine :=
  { m with config := { m.config with complexityCeiling := ceiling, severity }, softFindings }

/-- Two machines that differ in policy and findings alone, or one of which halted on a broken
invariant. -/
def AgreeOrHalted (ceiling : Binary64) (severity : Severity) (m m' : Machine) : Prop :=
  (∃ softFindings, m' = m.withPolicy ceiling severity softFindings) ∨
    m.HaltedOn (·.kind = .invariant) ∨ m'.HaltedOn (·.kind = .invariant)

theorem checked_withPolicy (m : Machine) :
    AgreeOrHalted ceiling severity m.checked
      (m.withPolicy ceiling severity softFindings).checked := by
  have hends := m.check_ends
  have hends' := (m.withPolicy ceiling severity softFindings).check_ends
  generalize m.checked = after at hends ⊢
  generalize (m.withPolicy ceiling severity softFindings).checked = after' at hends' ⊢
  cases hends with
  | rejected hverify =>
    exact .inr (.inl (haltedOn_fail (Verifier.verify_error_kind hverify)))
  | accepted _ _ =>
    cases hends' with
    | rejected hverify =>
      exact .inr (.inr (haltedOn_fail (Verifier.verify_error_kind hverify)))
    | accepted softFindings _ => exact .inl ⟨softFindings, rfl⟩

theorem retired_withPolicy (m : Machine) (fetched : Fetched) (store : Store) (flow : Flow) :
    (m.withPolicy ceiling severity softFindings).retired fetched store flow =
      (m.retired fetched store flow).withPolicy ceiling severity softFindings := by
  cases flow <;> rfl

theorem effect_of_regCheck {i : Instruction} (hop : i.opcode = .regCheck) (after : Nat) :
    m.effect (.instruction i after) =
      match m.verifier.enforce m.registration with
      | .error violation => Effect.fail (m.context after) m.store violation
      | .ok _ => .ok (m.store, .next) := by
  rw [effect, execute_of_none hop rfl, perform, hop]
  rfl

/-- What was fetched does the same under both policies, or fails under one of them on a broken
invariant. -/
theorem effect_withPolicy (m : Machine) (ceiling : Binary64) (severity : Severity)
    (softFindings : Nat) (fetched : Fetched) :
    (m.withPolicy ceiling severity softFindings).effect fetched = m.effect fetched ∨
    (∃ failure, m.effect fetched = .error failure ∧ failure.violation.kind = .invariant) ∨
    ∃ failure, (m.withPolicy ceiling severity softFindings).effect fetched = .error failure ∧
      failure.violation.kind = .invariant := by
  generalize hm' : m.withPolicy ceiling severity softFindings = m'
  cases fetched with
  | unknown after => exact .inl (by rw [← hm']; rfl)
  | instruction i after =>
    by_cases hop : i.opcode = .regCheck
    · have hstore : m'.store = m.store := by
        rw [← hm']
        rfl
      rw [effect_of_regCheck hop, effect_of_regCheck hop, hstore]
      cases h : m.verifier.enforce m.registration with
      | error violation =>
        have hkind : violation.kind = .invariant := Verifier.enforce_error_kind h
        exact .inr (.inl ⟨_, rfl, hkind⟩)
      | ok _ =>
        cases h' : m'.verifier.enforce m'.registration with
        | error violation =>
          have hkind : violation.kind = .invariant := Verifier.enforce_error_kind h'
          exact .inr (.inr ⟨_, rfl, hkind⟩)
        | ok _ => exact .inl rfl
    · rw [← hm']
      exact .inl (@execute_of_ne_regCheck (m.context after) m.store i hop _)

theorem cycle_withPolicy (m : Machine) (ceiling : Binary64) (severity : Severity)
    (softFindings : Nat) :
    AgreeOrHalted ceiling severity m.cycle
      (m.withPolicy ceiling severity softFindings).cycle := by
  have hsame : (m.withPolicy ceiling severity softFindings).store.memory.fetch
      (m.withPolicy ceiling severity softFindings).pc = m.store.memory.fetch m.pc := rfl
  cases hfetch : m.store.memory.fetch m.pc with
  | error violation =>
    rw [cycle_of_unfetched hfetch, cycle_of_unfetched (hsame.trans hfetch)]
    exact .inl ⟨softFindings, rfl⟩
  | ok fetched =>
    rcases m.effect_withPolicy ceiling severity softFindings fetched with
      heq | ⟨failure, he, hkind⟩ | ⟨failure, he, hkind⟩
    · cases he : m.effect fetched with
      | error failure =>
        rw [cycle_of_failed hfetch he, cycle_of_failed (hsame.trans hfetch) (heq.trans he)]
        exact .inl ⟨softFindings, rfl⟩
      | ok result =>
        obtain ⟨store, flow⟩ := result
        rw [cycle_of_retired hfetch he, cycle_of_retired (hsame.trans hfetch) (heq.trans he),
          retired_withPolicy]
        exact checked_withPolicy _
    · rw [cycle_of_failed hfetch he]
      exact .inr (.inl (haltedOn_fail hkind))
    · rw [cycle_of_failed (hsame.trans hfetch) he]
      exact .inr (.inr (haltedOn_fail hkind))

theorem step_withPolicy (m : Machine) (ceiling : Binary64) (severity : Severity)
    (softFindings : Nat) (hrecheck : m.recheck = false) :
    AgreeOrHalted ceiling severity m.step (m.withPolicy ceiling severity softFindings).step :=
  step_together rfl hrecheck hrecheck
    (fun _ => m.begun.cycle_withPolicy ceiling severity softFindings)
    fun _ => .inl ⟨softFindings, rfl⟩

theorem steps_withPolicy (m : Machine) (ceiling : Binary64) (severity : Severity)
    (softFindings : Nat) (hrecheck : m.recheck = false) (n : Nat) :
    AgreeOrHalted ceiling severity (m.steps n)
      ((m.withPolicy ceiling severity softFindings).steps n) := by
  have hrelated := steps_related
    (R := fun a b => a.recheck = false ∧
      ∃ softFindings, b = a.withPolicy ceiling severity softFindings)
    (S := fun a b => a.HaltedOn (·.kind = .invariant) ∨ b.HaltedOn (·.kind = .invariant)) ?_ ?_
    ⟨hrecheck, softFindings, rfl⟩ n
  · exact hrelated.imp_left And.right
  · rintro a _ ⟨ha, softFindings, rfl⟩
    exact (a.step_withPolicy ceiling severity softFindings ha).imp_left fun h =>
      ⟨recheck_step_eq_false ha, h⟩
  · exact fun a b h => h.imp HaltedOn.step HaltedOn.step

/-! ### Findings under the hard severity -/

theorem softFindings_checked_of_hard (h : m.config.severity = .hard) :
    m.checked.softFindings = m.softFindings := by
  have hhard : m.verifier.severity = .hard := h
  unfold checked
  split
  · rfl
  · rename_i hverify
    have hnone := Verifier.verify_of_hard hhard hverify
    contradiction
  · rfl

theorem softFindings_cycle_of_hard (h : m.config.severity = .hard) :
    m.cycle.softFindings = m.softFindings := by
  cases hfetch : m.store.memory.fetch m.pc with
  | error violation =>
    rw [cycle_of_unfetched hfetch]
    rfl
  | ok fetched =>
    cases he : m.effect fetched with
    | error failure =>
      rw [cycle_of_failed hfetch he]
      rfl
    | ok result =>
      obtain ⟨store, flow⟩ := result
      have hconfig : (m.retired fetched store flow).config = m.config :=
        config_proceed store fetched.after flow
      rw [cycle_of_retired hfetch he, softFindings_checked_of_hard (by rw [hconfig, h])]
      cases flow <;> rfl

theorem softFindings_step_of_hard (h : m.config.severity = .hard) :
    m.step.softFindings = m.softFindings := by
  by_cases hrun : m.status = .running
  · cases hedit : m.editViolation? with
    | some violation =>
      rw [step_of_rejected hrun hedit]
      rfl
    | none =>
      rw [step_of_accepted hrun hedit]
      exact softFindings_cycle_of_hard (m := m.begun) h
  · rw [step_of_not_running hrun]

theorem softFindings_session_of_hard (h : m.config.severity = .hard) (h₀ : m.softFindings = 0)
    (actions : List HostAction) : (m.session actions).softFindings = 0 := by
  have hsession : (m.session actions).config.severity = .hard ∧
      (m.session actions).softFindings = 0 := by
    apply session_invariant (P := fun m => m.config.severity = .hard ∧ m.softFindings = 0)
    · rintro m ⟨hhard, hzero⟩
      rw [(step_keeps m).1.config, softFindings_step_of_hard hhard]
      exact ⟨hhard, hzero⟩
    · exact fun _ _ hm => hm
    · exact ⟨h, h₀⟩
  exact hsession.2

/-- Two machines of one program whose configurations differ in the ceiling and the severity of the
verifier alone are the same after any number of steps, but for this policy and the findings that
they counted, unless one of them halted on a broken invariant. Under the hard severity no finding
is ever counted, whatever the host does. -/
theorem steps_agree_under_policies {p : Program} {config : Config} {m : Machine}
    (h₀ : ofProgram p config = .ok m) (ceiling : Binary64) (severity : Severity) :
    ∃ m', ofProgram p { config with complexityCeiling := ceiling, severity } = .ok m' ∧
      (∀ n, (m.steps n).HaltedOn (·.kind = .invariant) ∨
        (m'.steps n).HaltedOn (·.kind = .invariant) ∨
        m'.steps n = (m.steps n).withPolicy ceiling severity (m'.steps n).softFindings) ∧
      (config.severity = .hard → ∀ actions, (m.session actions).softFindings = 0) := by
  obtain ⟨hfit, rfl⟩ := ofProgram_eq_ok h₀
  refine ⟨(initial p config).withPolicy ceiling severity 0, ofProgram_of_le hfit, fun n => ?_,
    fun hhard => softFindings_session_of_hard hhard rfl⟩
  rcases (initial p config).steps_withPolicy ceiling severity 0 rfl n with
    ⟨softFindings, hsame⟩ | hhalted | hhalted
  · right
    right
    rw [hsame]
    rfl
  · exact .inl hhalted
  · exact .inr (.inl hhalted)

private def pushAndHalt : Program :=
  ⟨#[.withOperand .push (.int 1), .bare .halt], .empty, ⟨0, false⟩,
    by decide, by decide, by decide⟩

/-- Two soft machines halt alike with two findings each; a hard one is let pass by an edit and
counts none. -/
theorem steps_agree_under_policies_pushAndHalt :
    (∃ m m', ofProgram pushAndHalt { Config.standard with memorySize := 16 } = .ok m ∧
      ofProgram pushAndHalt
        { Config.standard with memorySize := 16, complexityCeiling := 1000 } = .ok m' ∧
      (m.steps 2).status = .haltedNominal ∧ (m.steps 2).softFindings = 2 ∧
      m'.steps 2 = (m.steps 2).withPolicy 1000 .soft (m'.steps 2).softFindings) ∧
    ∃ m, ofProgram pushAndHalt { Config.standard with memorySize := 16, severity := .hard } =
        .ok m ∧
      (m.session [.edit (Registration.initial.withComplexity 1000), .run 2]).status =
        .haltedNominal ∧
      (m.session [.edit (Registration.initial.withComplexity 1000), .run 2]).softFindings = 0 := by
  constructor
  · have h₀ := @ofProgram_of_le pushAndHalt { Config.standard with memorySize := 16 } (by decide)
    obtain ⟨m', hm', hagree, -⟩ := steps_agree_under_policies h₀ 1000 .soft
    obtain ⟨-, rfl⟩ := ofProgram_eq_ok hm'
    refine ⟨_, _, h₀, hm', by decide +kernel, by decide +kernel, ?_⟩
    rcases hagree 2 with hhalted | hhalted | hsame
    · exact absurd hhalted.1 (by decide +kernel)
    · exact absurd hhalted.1 (by decide +kernel)
    · exact hsame
  · have h₀ := @ofProgram_of_le pushAndHalt
      { Config.standard with memorySize := 16, severity := .hard } (by decide)
    obtain ⟨-, -, -, hhard⟩ := steps_agree_under_policies h₀ 1000 .soft
    exact ⟨_, h₀, by decide +kernel, hhard rfl _⟩

end Machine

end InvariantMachine

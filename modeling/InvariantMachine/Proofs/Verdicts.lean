import Mathlib
import InvariantMachine.Registration.Verifier

/-!
# Verdicts of the verifier

Three invariants are checked in a fixed order. One that is broken is fatal, but for the efficiency,
which is fatal under the hard severity alone, and the first fatal one is reported. A state can be
verified for all of them, or only have the fatal ones enforced: both sequences of checks come to the
same verdict. An invariant that depends on a NaN is broken.
-/

namespace InvariantMachine

/-! ### Arithmetic with a NaN -/

namespace Binary64

variable {x y : Binary64}

theorem isNaN_nan : nan.isNaN := by decide

private theorem isNaN_or_isNaN (h : x.isNaN ∨ y.isNaN) : (x.isNaN || y.isNaN) = true :=
  (Bool.or_eq_true _ _).mpr h

theorem add_eq_nan (h : x.isNaN ∨ y.isNaN) : x + y = nan := if_pos (isNaN_or_isNaN h)

theorem mul_eq_nan (h : x.isNaN ∨ y.isNaN) : x * y = nan := if_pos (isNaN_or_isNaN h)

theorem div_eq_nan (h : x.isNaN ∨ y.isNaN) : x / y = nan := if_pos (isNaN_or_isNaN h)

theorem not_le_of_isNaN (h : x.isNaN ∨ y.isNaN) : ¬x.le y := by
  rcases h with h | h <;> simp [le, h]

private theorem foldl_add_nan (xs : List Binary64) : xs.foldl (· + ·) nan = nan := by
  induction xs with
  | nil => rfl
  | cons x xs ih => rw [List.foldl_cons, add_eq_nan (.inl isNaN_nan), ih]

theorem sum_eq_nan {xs : List Binary64} (hx : x ∈ xs) (h : x.isNaN) : sum xs = nan := by
  obtain ⟨before, after, rfl⟩ := List.append_of_mem hx
  rw [sum, List.foldl_append, List.foldl_cons, add_eq_nan (.inr h), foldl_add_nan]

end Binary64

/-! ### The invariants -/

inductive Invariant where
  | simplex
  | efficiency
  | complexity
deriving DecidableEq

namespace Invariant

variable {v : Verifier} {r : Registration}

def inOrder : List Invariant := [simplex, efficiency, complexity]

/-- The answer of the comparison that states an invariant. -/
def holds (v : Verifier) (r : Registration) : Invariant → Bool
  | simplex => (r.basins.probabilitySum - 1).abs.le simplexTolerance
  | efficiency => r.eta.le (r.bound + efficiencySlack)
  | complexity => r.complexity.le v.ceiling

/-- What is reported of an invariant that is broken. -/
def violation (v : Verifier) (r : Registration) : Invariant → Violation
  | simplex => .simplexBroken r.basins.probabilitySum
  | efficiency => .efficiencyExceeded r.eta r.bound
  | complexity => .complexityBomb r.complexity v.ceiling

/-- Whether a broken invariant stops the machine under a severity. -/
def isFatal (severity : Severity) : Invariant → Bool
  | efficiency => decide (severity = .hard)
  | simplex | complexity => true

/-- The numbers that an invariant depends on. -/
def numbers (v : Verifier) (r : Registration) : Invariant → List Binary64
  | simplex => r.basins.toList.map (·.probability)
  | efficiency => [r.eta, r.complexity]
  | complexity => [r.complexity, v.ceiling]

theorem violation_kind (i : Invariant) (v : Verifier) (r : Registration) :
    (i.violation v r).kind = .invariant := by
  cases i <;> rfl

theorem not_holds_of_isNaN {i : Invariant} {x : Binary64} (hx : x ∈ i.numbers v r)
    (h : x.isNaN) : ¬i.holds v r := by
  cases i with
  | simplex =>
    have hsum : r.basins.probabilitySum = .nan := Binary64.sum_eq_nan hx h
    have hdistance : r.basins.probabilitySum - 1 = .nan :=
      Binary64.add_eq_nan (.inl (hsum ▸ Binary64.isNaN_nan))
    rw [holds, hdistance]
    exact Binary64.not_le_of_isNaN (.inl (by decide))
  | efficiency =>
    rcases List.mem_pair.mp hx with rfl | rfl
    · exact Binary64.not_le_of_isNaN (.inl h)
    · have hdoubled : 2 * r.complexity = .nan := Binary64.mul_eq_nan (.inr h)
      have hbound : r.bound = .nan :=
        Binary64.div_eq_nan (.inl (hdoubled ▸ Binary64.isNaN_nan))
      have hslack : r.bound + efficiencySlack = .nan :=
        Binary64.add_eq_nan (.inl (hbound ▸ Binary64.isNaN_nan))
      exact Binary64.not_le_of_isNaN (.inr (hslack ▸ Binary64.isNaN_nan))
  | complexity =>
    rcases List.mem_pair.mp hx with rfl | rfl
    · exact Binary64.not_le_of_isNaN (.inl h)
    · exact Binary64.not_le_of_isNaN (.inr h)

/-- The three comparisons may give any answers, under either severity. -/
theorem exists_answers (severity : Severity) (answers : Invariant → Bool) :
    ∃ (v : Verifier) (r : Registration), v.severity = severity ∧ ∀ i, i.holds v r = answers i := by
  let v : Verifier := ⟨if answers complexity then 0 else .nan, severity⟩
  let r : Registration := {
    eta := if answers efficiency then 0 else .nan
    complexity := 0
    properTime := 0
    basins := if answers simplex then .initial else .empty }
  refine ⟨v, r, rfl, fun i => ?_⟩
  cases i with
  | simplex =>
    simp only [holds, r]
    cases answers simplex <;> decide +kernel
  | efficiency =>
    simp only [holds, Registration.bound, r]
    cases answers efficiency <;> decide +kernel
  | complexity =>
    simp only [holds, v, r]
    cases answers complexity <;> decide +kernel

end Invariant

namespace Verifier

variable {v : Verifier} {r : Registration} {i : Invariant} {violation : Violation}

/-- Whether an invariant is broken that may not be. -/
def rejects (v : Verifier) (r : Registration) (i : Invariant) : Bool :=
  i.isFatal v.severity && !i.holds v r

def firstRejected? (v : Verifier) (r : Registration) : Option Invariant :=
  Invariant.inOrder.find? (v.rejects r)

theorem firstRejected?_eq_some_iff :
    v.firstRejected? r = some i ↔ v.rejects r i ∧
      ∃ before after, Invariant.inOrder = before ++ i :: after ∧ ∀ j ∈ before, ¬v.rejects r j := by
  simp [firstRejected?, List.find?_eq_some_iff_append]

theorem firstRejected?_eq_none_iff : v.firstRejected? r = none ↔ ∀ i, ¬v.rejects r i := by
  have hall (i : Invariant) : i ∈ Invariant.inOrder := by cases i <;> decide
  simp [firstRejected?, List.find?_eq_none, hall]

private theorem checkSimplex_eq (v : Verifier) (r : Registration) :
    v.checkSimplex r =
      if Invariant.simplex.holds v r then .ok () else .error (Invariant.simplex.violation v r) :=
  rfl

private theorem efficiencyFinding?_eq (v : Verifier) (r : Registration) :
    v.efficiencyFinding? r =
      if Invariant.efficiency.holds v r then none else some (Invariant.efficiency.violation v r) :=
  rfl

private theorem checkComplexity_eq (v : Verifier) (r : Registration) :
    v.checkComplexity r =
      if Invariant.complexity.holds v r then .ok ()
      else .error (Invariant.complexity.violation v r) :=
  rfl

theorem verify_eq (v : Verifier) (r : Registration) :
    v.verify r =
      match v.firstRejected? r with
      | some i => .error (i.violation v r)
      | none => .ok (v.efficiencyFinding? r) := by
  simp only [verify, checkSimplex_eq, efficiencyFinding?_eq, checkComplexity_eq, firstRejected?,
    Invariant.inOrder, List.find?, rejects, Invariant.isFatal]
  -- Nothing is left but the answers of the three comparisons and the severity.
  cases Invariant.simplex.holds v r <;> cases Invariant.efficiency.holds v r <;>
    cases Invariant.complexity.holds v r <;> cases v.severity <;> rfl

theorem enforce_eq (v : Verifier) (r : Registration) :
    v.enforce r =
      match v.firstRejected? r with
      | some i => .error (i.violation v r)
      | none => .ok () := by
  simp only [enforce, checkSimplex_eq, efficiencyFinding?_eq, checkComplexity_eq, firstRejected?,
    Invariant.inOrder, List.find?, rejects, Invariant.isFatal]
  cases Invariant.simplex.holds v r <;> cases Invariant.efficiency.holds v r <;>
    cases Invariant.complexity.holds v r <;> cases v.severity <;> rfl

theorem verify_eq_error_iff :
    v.verify r = .error violation ↔
      ∃ i, v.firstRejected? r = some i ∧ violation = i.violation v r := by
  rw [verify_eq]
  cases v.firstRejected? r <;> simp [eq_comm]

theorem verify_eq_ok_iff {finding : Option Violation} :
    v.verify r = .ok finding ↔ (∀ i, ¬v.rejects r i) ∧ finding = v.efficiencyFinding? r := by
  rw [verify_eq, ← firstRejected?_eq_none_iff]
  cases v.firstRejected? r <;> simp [eq_comm]

theorem enforce_eq_map_verify (v : Verifier) (r : Registration) :
    v.enforce r = (v.verify r).map fun _ => () := by
  rw [enforce_eq, verify_eq]
  cases v.firstRejected? r <;> rfl

theorem enforce_eq_error_iff : v.enforce r = .error violation ↔ v.verify r = .error violation := by
  rw [enforce_eq_map_verify]
  cases v.verify r <;> simp [Except.map]

theorem enforce_eq_ok_iff : v.enforce r = .ok () ↔ ∃ finding, v.verify r = .ok finding := by
  rw [enforce_eq_map_verify]
  cases v.verify r <;> simp [Except.map]

theorem verify_error_kind (h : v.verify r = .error violation) : violation.kind = .invariant := by
  obtain ⟨i, -, rfl⟩ := verify_eq_error_iff.mp h
  exact i.violation_kind v r

theorem enforce_error_kind (h : v.enforce r = .error violation) : violation.kind = .invariant :=
  verify_error_kind (enforce_eq_error_iff.mp h)

theorem verify_of_hard {finding : Option Violation} (hhard : v.severity = .hard)
    (h : v.verify r = .ok finding) : finding = none := by
  obtain ⟨hnone, rfl⟩ := verify_eq_ok_iff.mp h
  have hholds : Invariant.efficiency.holds v r := by
    simpa [rejects, Invariant.isFatal, hhard] using hnone .efficiency
  rw [efficiencyFinding?_eq, if_pos hholds]

theorem verify_eq_ok_some_iff :
    v.verify r = .ok (some violation) ↔
      v.severity = .soft ∧ v.efficiencyFinding? r = some violation ∧ ∀ i, ¬v.rejects r i := by
  constructor
  · intro h
    obtain ⟨hnone, hfinding⟩ := verify_eq_ok_iff.mp h
    refine ⟨?_, hfinding.symm, hnone⟩
    cases hseverity : v.severity with
    | soft => rfl
    | hard => exact absurd (verify_of_hard hseverity h) (Option.some_ne_none _)
  · rintro ⟨-, hfinding, hnone⟩
    exact verify_eq_ok_iff.mpr ⟨hnone, hfinding.symm⟩

/-- Enforcing the invariants of a state fails exactly on the violation that verifying it fails on,
and passes exactly if verifying does. The violation is that of the first invariant, in the order
simplex, efficiency, complexity, that is broken and fatal. Verifying passes with a finding exactly
under the soft severity, if the efficiency is broken and nothing fatal is; it is then the finding of
the efficiency check. A NaN among the numbers that an invariant depends on breaks it, and every
combination of broken invariants occurs under either severity. -/
theorem verify_and_enforce_agree :
    (∀ (v : Verifier) (r : Registration),
      (∀ violation, v.enforce r = .error violation ↔ v.verify r = .error violation) ∧
      (v.enforce r = .ok () ↔ ∃ finding, v.verify r = .ok finding) ∧
      (∀ violation, v.verify r = .error violation ↔
        ∃ before i after, Invariant.inOrder = before ++ i :: after ∧ v.rejects r i ∧
          (∀ j ∈ before, ¬v.rejects r j) ∧ violation = i.violation v r) ∧
      (∀ finding, v.verify r = .ok (some finding) ↔
        v.severity = .soft ∧ v.efficiencyFinding? r = some finding ∧ ∀ i, ¬v.rejects r i) ∧
      ∀ i : Invariant, ∀ x ∈ i.numbers v r, x.isNaN → ¬i.holds v r) ∧
    ∀ (severity : Severity) (answers : Invariant → Bool), ∃ (v : Verifier) (r : Registration),
      v.severity = severity ∧ ∀ i : Invariant, i.holds v r = answers i := by
  refine ⟨fun v r => ⟨fun _ => enforce_eq_error_iff, enforce_eq_ok_iff, fun violation => ?_,
    fun _ => verify_eq_ok_some_iff, fun _ _ => Invariant.not_holds_of_isNaN⟩,
    Invariant.exists_answers⟩
  rw [verify_eq_error_iff]
  constructor
  · rintro ⟨i, hfirst, rfl⟩
    obtain ⟨hrejects, before, after, horder, hbefore⟩ := firstRejected?_eq_some_iff.mp hfirst
    exact ⟨before, i, after, horder, hrejects, hbefore, rfl⟩
  · rintro ⟨before, i, after, horder, hrejects, hbefore, rfl⟩
    exact ⟨i, firstRejected?_eq_some_iff.mpr ⟨hrejects, before, after, horder, hbefore⟩, rfl⟩

/-- A complexity that is no number breaks two invariants: the hard severity reports the efficiency,
the soft one the complexity. -/
theorem verify_and_enforce_agree_unknownComplexity :
    let r := Registration.initial.withComplexity .nan
    ¬Invariant.efficiency.holds ⟨50000, .hard⟩ r ∧ ¬Invariant.complexity.holds ⟨50000, .soft⟩ r ∧
      enforce ⟨50000, .hard⟩ r = .error (.efficiencyExceeded 0 .nan) ∧
      enforce ⟨50000, .soft⟩ r = .error (.complexityBomb .nan 50000) := by
  intro r
  obtain ⟨hsame, -, hfirst, -, hnan⟩ := verify_and_enforce_agree.1 ⟨50000, .hard⟩ r
  obtain ⟨hsame', -, hfirst', -, hnan'⟩ := verify_and_enforce_agree.1 ⟨50000, .soft⟩ r
  refine ⟨hnan .efficiency .nan (List.mem_cons_of_mem _ List.mem_cons_self) Binary64.isNaN_nan,
    hnan' .complexity .nan List.mem_cons_self Binary64.isNaN_nan, (hsame _).mpr ?_,
    (hsame' _).mpr ?_⟩
  · exact (hfirst _).mpr
      ⟨[.simplex], .efficiency, [.complexity], rfl, by decide +kernel, by decide +kernel,
        by decide +kernel⟩
  · exact (hfirst' _).mpr
      ⟨[.simplex, .efficiency], .complexity, [], rfl, by decide +kernel, by decide +kernel,
        by decide +kernel⟩

end Verifier

end InvariantMachine

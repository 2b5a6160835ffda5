import Mathlib
import InvariantMachine.Proofs.Effects

/-!
# Integer arithmetic

The arithmetic instructions take the integer readings of the two top entries. Sums, differences and
products keep the word that the exact result is congruent to. Quotients are rounded towards zero and
remainders go with them; only one quotient is no word, that of the least word by minus one. A zero
on top is the only thing that such an instruction refuses.
-/

namespace InvariantMachine

/-- The word for an integer: the one in the range of words that is congruent to it. -/
structure IsWordFor (z x : Int) : Prop where
  least_le : -2 ^ 63 ≤ z
  lt_bound : z < 2 ^ 63
  congruent : z ≡ x [ZMOD 2 ^ 64]

/-- A quotient and a remainder of words. The least word has no quotient by minus one among the words
and gives itself; every other quotient is rounded towards zero. -/
structure IsDivision (x y q r : Int) : Prop where
  equation : q * y + r ≡ x [ZMOD 2 ^ 64]
  remainder_lt : |r| < |y|
  remainder_sign : r = 0 ∨ r.sign = x.sign
  truncated : ¬(x = -2 ^ 63 ∧ y = -1) → q = x.tdiv y
  overflowed : x = -2 ^ 63 ∧ y = -1 → q = -2 ^ 63 ∧ r = 0

/-! ### Words -/

theorem isWordFor_of_bmod {z : Int64} {x : Int} (h : z.toInt = x.bmod (2 ^ 64)) :
    IsWordFor z.toInt x := by
  constructor
  · exact z.le_toInt
  · exact z.toInt_lt
  · rw [h]
    exact Int.bmod_emod

theorem abs_tmod_lt {x y : Int} (hy : y ≠ 0) : |x.tmod y| < |y| := by
  rw [Int.abs_eq_natAbs, Int.abs_eq_natAbs, Int.natAbs_tmod]
  exact_mod_cast Nat.mod_lt _ (Int.natAbs_pos.mpr hy)

theorem tmod_eq_zero_or_sign (x y : Int) : x.tmod y = 0 ∨ (x.tmod y).sign = x.sign := by
  by_cases hdvd : y ∣ x
  · left
    exact Int.tmod_eq_zero_of_dvd hdvd
  · right
    rw [Int.sign_tmod, if_neg hdvd]

theorem isDivision_div_mod {v w : Int64} (hw : w.toInt ≠ 0) :
    IsDivision v.toInt w.toInt (v / w).toInt (v % w).toInt := by
  rw [Int64.toInt_mod]
  by_cases hoverflow : v.toInt = -2 ^ 63 ∧ w.toInt = -1
  · obtain ⟨hv, hw⟩ := hoverflow
    rw [Int64.toInt_div, hv, hw]
    exact ⟨by decide, by decide, by decide, fun h => absurd ⟨rfl, rfl⟩ h, fun _ => by decide⟩
  · have hquotient : (v / w).toInt = v.toInt.tdiv w.toInt := by
      by_cases hv : v = Int64.minValue
      · apply Int64.toInt_div_of_ne_right
        rintro rfl
        exact hoverflow ⟨by rw [hv]; rfl, rfl⟩
      · exact Int64.toInt_div_of_ne_left v w hv
    rw [hquotient]
    constructor
    · rw [Int.tdiv_mul_add_tmod]
    · exact abs_tmod_lt hw
    · exact tmod_eq_zero_or_sign _ _
    · exact fun _ => rfl
    · exact fun h => absurd h hoverflow

/-! ### What the instructions answer -/

namespace BoundedStack

variable {α : Type} {s : BoundedStack α} {a b : α} {below : List α}

theorem exists_pop? (h : s.items = a :: below) :
    ∃ t, s.pop? = some (a, t) ∧ t.items = below ∧ t.capacity = s.capacity := by
  cases hpop : s.pop? with
  | none =>
    have hnil := items_of_pop?_eq_none hpop
    rw [h] at hnil
    contradiction
  | some entry =>
    obtain ⟨hitems, hcapacity⟩ := pop?_eq_some hpop
    obtain ⟨rfl, rfl⟩ := List.cons.inj (h.symm.trans hitems)
    exact ⟨entry.2, rfl, rfl, hcapacity⟩

theorem exists_push (h : s.items.length < s.capacity) (a : α) :
    ∃ t, s.push a = .ok t ∧ t.items = a :: s.items ∧ t.capacity = s.capacity := by
  rw [push, dif_pos h]
  exact ⟨_, rfl, rfl, rfl⟩

end BoundedStack

namespace Effect

variable {ctx : Context} {s : Store} {a b : Value} {below : List Value}

/-- The effect goes on behind the instruction, with a value on top of what is left of the stack and
nothing else changed. -/
def Answers (s : Store) (below : List Value) (v : Value) (e : Effect) : Prop :=
  ∃ stack : BoundedStack Value, e = .ok ({ s with stack }, .next) ∧
    stack.items = v :: below ∧ stack.capacity = s.stack.capacity

/-- The effect is a violation, with only the entries that were taken gone from the stack. -/
def Refuses (ctx : Context) (s : Store) (below : List Value) (violation : Violation)
    (e : Effect) : Prop :=
  ∃ stack : BoundedStack Value, e = .error (ctx.failure { s with stack } violation) ∧
    stack.items = below ∧ stack.capacity = s.stack.capacity

theorem exists_withTwo (h : s.stack.items = b :: a :: below) :
    ∃ rest : BoundedStack Value, rest.items = below ∧ rest.capacity = s.stack.capacity ∧
      ∀ ctx next, withTwo ctx s next = next a b rest := by
  obtain ⟨t, hpop, hitems, hcapacity⟩ := BoundedStack.exists_pop? h
  obtain ⟨rest, hpop', hitems', hcapacity'⟩ := BoundedStack.exists_pop? hitems
  refine ⟨rest, hitems', hcapacity'.trans hcapacity, fun ctx next => ?_⟩
  rw [withTwo, hpop]
  dsimp only
  rw [hpop']

end Effect

open Effect

variable {ctx : Context} {s : Store} {i : Instruction} {a b : Value} {below : List Value}

theorem answers_of_binary {f : Value → Value → Except Violation Value} {v : Value}
    (hf : i.opcode.binary? = some f) (hitems : s.stack.items = b :: a :: below)
    (hv : f a b = .ok v) : (execute ctx s i).Answers s below v := by
  obtain ⟨rest, hrest, hcapacity, hnext⟩ := exists_withTwo hitems
  have hroom : rest.items.length < rest.capacity := by
    have hle := s.stack.length_le
    rw [hitems, List.length_cons, List.length_cons] at hle
    rw [hrest, hcapacity]
    omega
  obtain ⟨stack, hpush, hstack, hcapacity'⟩ := BoundedStack.exists_push hroom v
  refine ⟨stack, ?_, hstack.trans (congrArg _ hrest), hcapacity'.trans hcapacity⟩
  rw [execute_of_binary hf, hnext, hv, pushResult, push, Store.push, hpush]

theorem refuses_of_binary {f : Value → Value → Except Violation Value} {violation : Violation}
    (hf : i.opcode.binary? = some f) (hitems : s.stack.items = b :: a :: below)
    (hv : f a b = .error violation) : (execute ctx s i).Refuses ctx s below violation := by
  obtain ⟨rest, hrest, hcapacity, hnext⟩ := exists_withTwo hitems
  refine ⟨rest, ?_, hrest, hcapacity⟩
  rw [execute_of_binary hf, hnext, hv, pushResult, fail]

namespace Opcode

/-- The exact operation behind an opcode that keeps the word for its result. -/
def exactOperation? : Opcode → Option (Int → Int → Int)
  | add => some (· + ·)
  | sub => some (· - ·)
  | mul => some (· * ·)
  | _ => none

theorem exists_word_of_exact {op : Opcode} {f : Int → Int → Int} (h : op.exactOperation? = some f)
    (a b : Value) :
    ∃ z : Int64, IsWordFor z.toInt (f a.asInt.toInt b.asInt.toInt) ∧
      ∃ g, op.binary? = some g ∧ g a b = .ok (.int z) := by
  cases op <;> try contradiction
  all_goals obtain rfl := Option.some.inj h
  case add => exact ⟨_, isWordFor_of_bmod (Int64.toInt_add _ _), _, rfl, rfl⟩
  case sub => exact ⟨_, isWordFor_of_bmod (Int64.toInt_sub _ _), _, rfl, rfl⟩
  case mul => exact ⟨_, isWordFor_of_bmod (Int64.toInt_mul _ _), _, rfl, rfl⟩

end Opcode

/-- With two entries on the stack, a sum, a difference and a product leave the word for the exact
result in their place. A quotient and a remainder are refused if the top reads as zero, and
otherwise leave those of the two readings. Nothing else is ever refused. -/
theorem integer_arithmetic {x y : Int} (hitems : s.stack.items = b :: a :: below)
    (hx : a.asInt.toInt = x) (hy : b.asInt.toInt = y) :
    (∀ op f, Opcode.exactOperation? op = some f → ∃ z : Int64, IsWordFor z.toInt (f x y) ∧
      ∀ ctx i, i.opcode = op → (execute ctx s i).Answers s below (.int z)) ∧
    (y = 0 → ∀ ctx i, i.opcode = .div ∨ i.opcode = .mod →
      (execute ctx s i).Refuses ctx s below .divisionByZero) ∧
    (y ≠ 0 → ∃ q r : Int64, IsDivision x y q.toInt r.toInt ∧ ∀ ctx i,
      (i.opcode = .div → (execute ctx s i).Answers s below (.int q)) ∧
      (i.opcode = .mod → (execute ctx s i).Answers s below (.int r))) := by
  subst hx hy
  refine ⟨?_, ?_, ?_⟩
  · intro op f hf
    obtain ⟨z, hz, g, hg, hvalue⟩ := Opcode.exists_word_of_exact hf a b
    refine ⟨z, hz, ?_⟩
    rintro ctx i rfl
    exact answers_of_binary hg hitems hvalue
  · intro hy ctx i hop
    have hzero : b.asInt = 0 := Int64.toInt_inj.mp hy
    rcases hop with hop | hop
    · exact refuses_of_binary (congrArg Opcode.binary? hop) hitems (if_pos hzero)
    · exact refuses_of_binary (congrArg Opcode.binary? hop) hitems (if_pos hzero)
  · intro hy
    have hzero : b.asInt ≠ 0 := fun h => hy (congrArg Int64.toInt h)
    refine ⟨a.asInt / b.asInt, a.asInt % b.asInt, isDivision_div_mod hy, ?_⟩
    intro ctx i
    constructor
    · intro hop
      exact answers_of_binary (congrArg Opcode.binary? hop) hitems (if_neg hzero)
    · intro hop
      exact answers_of_binary (congrArg Opcode.binary? hop) hitems (if_neg hzero)

private def leastWordStore : Store where
  stack := ⟨[.int (-1), .int Int64.minValue, .char 'x'], 3, by decide⟩
  registers := Vector.replicate registerCount default
  memory := .ofSize 0
  output := ""

private def characterStore (index : UInt32) : Store :=
  { leastWordStore with stack := ⟨[.str index, .char 'A'], 2, le_rfl⟩ }

private def strictAtZero : Context := ⟨.strict, .empty, 0, 1, .ofConfig .standard, .initial⟩

/-- The quotient of the least word by minus one and their sum, and the remainders of a character by
the strings with the indices seven and zero. -/
theorem integer_arithmetic_leastByMinusOne :
    leastWordStore.stack.items = [.int (-1), .int Int64.minValue, .char 'x'] ∧
    (execute strictAtZero leastWordStore (.bare .div)).Answers leastWordStore [.char 'x']
      (.int Int64.minValue) ∧
    (execute strictAtZero leastWordStore (.bare .add)).Answers leastWordStore [.char 'x']
      (.int Int64.maxValue) ∧
    (execute strictAtZero (characterStore 7) (.bare .mod)).Answers (characterStore 7) []
      (.int 2) ∧
    (execute strictAtZero (characterStore 0) (.bare .mod)).Refuses strictAtZero (characterStore 0)
      [] .divisionByZero := by
  have hleast : leastWordStore.stack.items = [.int (-1), .int Int64.minValue, .char 'x'] := rfl
  obtain ⟨hexact, -, hdivision⟩ := integer_arithmetic hleast rfl rfl
  obtain ⟨q, r, hquotient, hdiv⟩ := hdivision (by decide)
  obtain ⟨z, hsum, hadd⟩ := hexact .add _ rfl
  obtain ⟨-, -, hremainders⟩ := integer_arithmetic (s := characterStore 7) rfl rfl rfl
  obtain ⟨q', r', hremainder, hmod⟩ := hremainders (by decide)
  have hq : q = Int64.minValue := Int64.toInt_inj.mp (hquotient.overflowed (by decide)).1
  have hz : z = Int64.maxValue := by
    have hle := hsum.least_le
    have hlt := hsum.lt_bound
    have hcongruent : z.toInt % 2 ^ 64 = (-2 ^ 63 + -1) % 2 ^ 64 := hsum.congruent
    apply Int64.toInt_inj.mp
    change z.toInt = 2 ^ 63 - 1
    omega
  have hr : r' = 2 := by
    have hq' : q'.toInt = 9 := hremainder.truncated (by decide)
    have hequation : (q'.toInt * 7 + r'.toInt) % 2 ^ 64 = 65 % 2 ^ 64 := hremainder.equation
    have hlt : |r'.toInt| < 7 := hremainder.remainder_lt
    apply Int64.toInt_inj.mp
    change r'.toInt = 2
    rw [hq'] at hequation
    rw [abs_lt] at hlt
    omega
  rw [hq] at hdiv
  rw [hz] at hadd
  rw [hr] at hmod
  refine ⟨hleast, (hdiv _ _).1 rfl, hadd _ _ rfl, (hmod _ _).2 rfl, ?_⟩
  exact (integer_arithmetic (s := characterStore 0) rfl rfl rfl).2.1 (by decide) _ _ (.inr rfl)

end InvariantMachine

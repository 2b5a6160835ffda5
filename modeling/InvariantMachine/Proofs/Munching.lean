import Mathlib
import InvariantMachine.Assembly.Lexeme

/-!
# Longest members

The length of the longest member of a language that a text begins with. There is one rule for each
way to put languages together, with the conditions under which a run is taken whole and one of two
languages counts.
-/

namespace InvariantMachine

open scoped Computability

namespace Lexeme

variable {p q : Char → Bool} {l m : Language Char} {c : Char} {cs x : List Char} {a b : Option Nat}

/-- The texts of one character of a kind. -/
def oneOf (p : Char → Bool) : Language Char := {x | ∃ c, p c ∧ x = [c]}

/-- The nonempty texts of characters of a kind. -/
def many (p : Char → Bool) : Language Char := oneOf p * (oneOf p)∗

/-- A member of a language, with or without a character of a kind before it. -/
def optionally (p : Char → Bool) (l : Language Char) : Language Char := (1 + oneOf p) * l

theorem mem_oneOf : x ∈ oneOf p ↔ ∃ c, p c ∧ x = [c] := Iff.rfl

theorem mem_oneOf_mul : x ∈ oneOf p * l ↔ ∃ c y, p c ∧ y ∈ l ∧ x = c :: y := by
  simp only [Language.mem_mul, mem_oneOf]
  constructor
  · rintro ⟨_, ⟨c, hc, rfl⟩, y, hy, rfl⟩
    exact ⟨c, y, hc, hy, rfl⟩
  · rintro ⟨c, y, hc, hy, rfl⟩
    exact ⟨[c], ⟨c, hc, rfl⟩, y, hy, rfl⟩

theorem mem_kstar_oneOf : x ∈ (oneOf p)∗ ↔ ∀ c ∈ x, p c := by
  constructor
  · rw [Language.mem_kstar]
    rintro ⟨parts, rfl, hparts⟩ c hc
    obtain ⟨part, hpart, hc⟩ := List.mem_flatten.mp hc
    obtain ⟨d, hd, rfl⟩ := hparts part hpart
    rwa [List.mem_singleton.mp hc]
  · intro h
    induction x with
    | nil => exact Language.nil_mem_kstar _
    | cons c x ih =>
      rw [← Language.one_add_self_mul_kstar_eq_kstar]
      exact .inr (mem_oneOf_mul.mpr
        ⟨c, x, h c List.mem_cons_self, ih fun d hd => h d (List.mem_cons_of_mem c hd), rfl⟩)

theorem mem_many : x ∈ many p ↔ x ≠ [] ∧ ∀ c ∈ x, p c := by
  simp only [many, mem_oneOf_mul, mem_kstar_oneOf]
  constructor
  · rintro ⟨c, y, hc, hy, rfl⟩
    exact ⟨List.cons_ne_nil c y, List.forall_mem_cons.mpr ⟨hc, hy⟩⟩
  · rintro ⟨hne, hx⟩
    obtain ⟨c, y, rfl⟩ := List.exists_cons_of_ne_nil hne
    exact ⟨c, y, hx c List.mem_cons_self, fun d hd => hx d (List.mem_cons_of_mem c hd), rfl⟩

theorem mem_optionally :
    x ∈ optionally p l ↔ x ∈ l ∨ ∃ c y, p c ∧ y ∈ l ∧ x = c :: y := by
  rw [optionally, add_mul, one_mul, Language.mem_add, mem_oneOf_mul]

/-! ## Runs of one kind of characters -/

@[simp] theorem run_nil : run p [] = 0 := rfl

theorem run_cons_of_pos (hc : p c) : run p (c :: cs) = 1 + run p cs := by
  simp [run, hc, Nat.add_comm]

theorem run_cons_of_neg (hc : p c = false) : run p (c :: cs) = 0 := by
  simp [run, hc]

theorem run_append_of_all (hx : ∀ c ∈ x, p c) (cs : List Char) :
    run p (x ++ cs) = x.length + run p cs := by
  simp only [run, List.takeWhile_append_of_pos hx, List.length_append]

theorem take_run (p : Char → Bool) (cs : List Char) : cs.take (run p cs) = cs.takeWhile p :=
  (List.prefix_iff_eq_take.mp (List.takeWhile_prefix p)).symm

/-! ## Longest members -/

/-- The answer is the length of the longest member of a language that a text begins with, if it
begins with any. -/
def Munches (l : Language Char) (cs : List Char) : Option Nat → Prop
  | some n => (∃ x ∈ l, x <+: cs ∧ x.length = n) ∧ ∀ x ∈ l, x <+: cs → x.length ≤ n
  | none => ∀ x ∈ l, ¬ x <+: cs

/-- No member of a language begins with a character of a kind. -/
def Shuns (l : Language Char) (p : Char → Bool) : Prop := ∀ c y, c :: y ∈ l → p c = false

namespace Munches

theorem of_eq (h : Munches l cs a) (hab : a = b) : Munches l cs b := hab ▸ h

theorem one : Munches 1 cs (some 0) := by
  refine ⟨⟨[], Language.nil_mem_one, List.nil_prefix, rfl⟩, fun x hx _ => ?_⟩
  rw [(Language.mem_one x).mp hx, List.length_nil]

theorem oneOf_mul_nil : Munches (oneOf p * l) [] none := by
  rintro x hx hbegin
  obtain ⟨c, y, _, _, rfl⟩ := mem_oneOf_mul.mp hx
  simp at hbegin

theorem oneOf_mul_of_neg (hc : p c = false) : Munches (oneOf p * l) (c :: cs) none := by
  rintro x hx hbegin
  obtain ⟨d, y, hd, _, rfl⟩ := mem_oneOf_mul.mp hx
  obtain ⟨rfl, _⟩ := List.cons_prefix_cons.mp hbegin
  simp [hc] at hd

theorem oneOf_mul_of_pos (hc : p c) (h : Munches l cs a) :
    Munches (oneOf p * l) (c :: cs) (a.map (1 + ·)) := by
  cases a with
  | none =>
    rintro x hx hbegin
    obtain ⟨d, y, _, hy, rfl⟩ := mem_oneOf_mul.mp hx
    exact h y hy (List.cons_prefix_cons.mp hbegin).2
  | some n =>
    obtain ⟨⟨x, hx, hbegin, rfl⟩, hlongest⟩ := h
    refine ⟨⟨c :: x, mem_oneOf_mul.mpr ⟨c, x, hc, hx, rfl⟩,
      List.cons_prefix_cons.mpr ⟨rfl, hbegin⟩, by simp [Nat.add_comm]⟩, fun y hy hybegin => ?_⟩
    obtain ⟨d, z, _, hz, rfl⟩ := mem_oneOf_mul.mp hy
    have := hlongest z hz (List.cons_prefix_cons.mp hybegin).2
    simp only [List.length_cons]
    omega

theorem kstar_oneOf : Munches (oneOf p)∗ cs (some (run p cs)) := by
  refine ⟨⟨cs.takeWhile p, mem_kstar_oneOf.mpr fun c hc => List.mem_takeWhile_imp hc,
    List.takeWhile_prefix p, rfl⟩, fun x hx hbegin => ?_⟩
  obtain ⟨rest, rfl⟩ := hbegin
  rw [run_append_of_all (mem_kstar_oneOf.mp hx)]
  exact Nat.le_add_right _ _

theorem many (p : Char → Bool) (cs : List Char) :
    Munches (many p) cs (if 0 < run p cs then some (run p cs) else none) := by
  cases cs with
  | nil => exact oneOf_mul_nil
  | cons c cs =>
    cases hc : p c with
    | true => simpa [Lexeme.many, run_cons_of_pos hc] using oneOf_mul_of_pos hc kstar_oneOf
    | false => simpa [Lexeme.many, run_cons_of_neg hc] using oneOf_mul_of_neg hc

/-- A run and what follows it: the run is taken whole, as nothing else may begin as it goes on. -/
theorem many_mul_of_pos (hl : Shuns l p) (hrun : 0 < run p cs)
    (h : Munches l (cs.drop (run p cs)) a) :
    Munches (Lexeme.many p * l) cs (a.map (run p cs + ·)) := by
  have hparts : ∀ x ∈ Lexeme.many p * l, x <+: cs →
      ∃ w, ∃ y ∈ l, x = w ++ y ∧ w.length ≤ run p cs ∧ y <+: cs.drop (run p cs) := by
    intro x hx hbegin
    obtain ⟨w, hw, y, hy, rfl⟩ := Language.mem_mul.mp hx
    obtain ⟨rest, rfl⟩ := hbegin
    have hwhole := run_append_of_all (mem_many.mp hw).2 (y ++ rest)
    rw [List.append_assoc, hwhole]
    refine ⟨w, y, hy, rfl, Nat.le_add_right _ _, ?_⟩
    cases y with
    | nil => exact List.nil_prefix
    | cons c y => simp [run_cons_of_neg (hl c y hy)]
  cases a with
  | none =>
    intro x hx hbegin
    obtain ⟨w, y, hy, _, _, hybegin⟩ := hparts x hx hbegin
    exact h y hy hybegin
  | some n =>
    obtain ⟨⟨y, hy, hbegin, rfl⟩, hlongest⟩ := h
    refine ⟨⟨cs.take (run p cs) ++ y, Language.append_mem_mul ?_ hy, ?_, ?_⟩,
      fun x hx hxbegin => ?_⟩
    · rw [take_run]
      exact mem_many.mpr
        ⟨List.length_pos_iff.mp hrun, fun c hc => List.mem_takeWhile_imp hc⟩
    · conv_rhs => rw [← List.take_append_drop (run p cs) cs]
      exact List.prefix_append_right_inj _ |>.mpr hbegin
    · rw [take_run, List.length_append]
      rfl
    · obtain ⟨w, y, hy, rfl, hw, hybegin⟩ := hparts x hx hxbegin
      have := hlongest y hy hybegin
      rw [List.length_append]
      exact Nat.add_le_add hw this

theorem many_mul_of_run_eq_zero (hrun : run p cs = 0) : Munches (Lexeme.many p * l) cs none := by
  cases cs with
  | nil => exact mul_assoc (oneOf p) _ l ▸ oneOf_mul_nil
  | cons c cs =>
    have hc : p c = false := by
      by_contra hc
      simp [run_cons_of_pos (Bool.of_not_eq_false hc)] at hrun
    exact mul_assoc (oneOf p) _ l ▸ oneOf_mul_of_neg hc

/-- Of two languages the one counts whose answer is not below that of the other. -/
theorem add (hl : Munches l cs a) (hm : Munches m cs b) (hle : ∀ k ∈ b, ∃ n ∈ a, k ≤ n) :
    Munches (l + m) cs a := by
  cases a with
  | none =>
    cases b with
    | none => exact fun x hx => hx.elim (hl x) (hm x)
    | some k => simpa using hle k rfl
  | some n =>
    obtain ⟨⟨x, hx, hbegin, rfl⟩, hlongest⟩ := hl
    refine ⟨⟨x, .inl hx, hbegin, rfl⟩, fun y hy hybegin => ?_⟩
    rcases hy with hy | hy
    · exact hlongest y hy hybegin
    · cases b with
      | none => exact absurd hybegin (hm y hy)
      | some k =>
        have hk : k ≤ x.length := by simpa using hle k rfl
        exact (hm.2 y hy hybegin).trans hk

theorem add_none (hl : Munches l cs a) (hm : Munches m cs none) : Munches (l + m) cs a :=
  add hl hm (by simp)

theorem none_add (hl : Munches l cs none) (hm : Munches m cs a) : Munches (l + m) cs a :=
  add_comm m l ▸ add_none hm hl

theorem oneOf_of_pos (hc : p c) : Munches (oneOf p) (c :: cs) (some 1) :=
  mul_one (oneOf p) ▸ oneOf_mul_of_pos hc one

theorem oneOf_nil : Munches (oneOf p) [] none :=
  mul_one (oneOf p) ▸ oneOf_mul_nil

theorem oneOf_of_neg (hc : p c = false) : Munches (oneOf p) (c :: cs) none :=
  mul_one (oneOf p) ▸ oneOf_mul_of_neg hc

theorem optionally_of_pos (hc : p c) (hnone : Munches l (c :: cs) none) (h : Munches l cs a) :
    Munches (optionally p l) (c :: cs) (a.map (1 + ·)) := by
  rw [optionally, add_mul, one_mul]
  exact none_add hnone (oneOf_mul_of_pos hc h)

theorem optionally_of_neg (hc : ∀ c ∈ cs.head?, p c = false) (h : Munches l cs a) :
    Munches (optionally p l) cs a := by
  rw [optionally, add_mul, one_mul]
  refine add_none h ?_
  cases cs with
  | nil => exact oneOf_mul_nil
  | cons c cs => exact oneOf_mul_of_neg (hc c rfl)

theorem one_add (h : Munches l cs a) : Munches (1 + l) cs (some (a.getD 0)) := by
  cases a with
  | none => exact add_none one h
  | some n =>
    rw [add_comm]
    exact add h one fun k hk => ⟨n, rfl, Option.some.inj hk ▸ Nat.zero_le n⟩

end Munches

/-! ## First characters -/

/-- The members of a language are not empty and begin with a character of a kind. -/
def Starts (l : Language Char) (p : Char → Bool) : Prop := ∀ x ∈ l, ∃ c y, x = c :: y ∧ p c

namespace Starts

theorem oneOf_mul : Starts (oneOf p * l) p := by
  intro x hx
  obtain ⟨c, y, hc, -, rfl⟩ := mem_oneOf_mul.mp hx
  exact ⟨c, y, rfl, hc⟩

theorem many_mul : Starts (many p * l) p := by
  rw [many, mul_assoc]
  exact oneOf_mul

theorem add (hl : Starts l p) (hm : Starts m p) : Starts (l + m) p := fun x hx =>
  hx.elim (hl x) (hm x)

theorem mono (h : Starts l p) (hpq : ∀ c, p c → q c) : Starts l q := by
  intro x hx
  obtain ⟨c, y, rfl, hc⟩ := h x hx
  exact ⟨c, y, rfl, hpq c hc⟩

theorem optionally (h : Starts l q) : Starts (optionally p l) fun c => p c || q c := by
  rw [Lexeme.optionally, add_mul, one_mul]
  exact add (h.mono (by simp +contextual)) (oneOf_mul.mono (by simp +contextual))

end Starts

end Lexeme

end InvariantMachine

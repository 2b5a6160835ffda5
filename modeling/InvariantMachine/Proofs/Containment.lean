import Mathlib
import InvariantMachine.Proofs.Bounds
import InvariantMachine.Proofs.CanonicalForm
import InvariantMachine.Proofs.PoolReferences
import InvariantMachine.Proofs.StackFaults

/-!
# Failing steps

A step that fails leaves little behind. What fails to be fetched changes nothing, and an instruction
that fails has moved the program counter behind itself and taken entries from the stack; where the
stack itself is at fault it has put them back. A stack overflows only when it was full, under an
instruction that adds an entry to all that it found.
-/

namespace InvariantMachine

/-! ### Where a fetched instruction ends -/

namespace Instruction

theorem consumes_decodeAfter (op : Opcode) :
    (decodeAfter op).Consumes fun i bs =>
      i.opcode = op ∧ i.imageBytesWith i.operand = op.byte :: bs := by
  unfold decodeAfter
  cases hshape : op.shape with
  | none => exact Decoding.consumes_pure ⟨rfl, by simp [imageBytesWith, bare, hshape]⟩
  | move =>
    refine Decoding.consumes_byte.bind ?_
    rintro r _ rfl
    refine Operand.consumes_decode.map ?_
    rintro o _ rfl
    exact ⟨rfl, by simp [imageBytesWith, hshape]⟩
  | literal | target | stringRef =>
    refine Operand.consumes_decode.map ?_
    rintro o _ rfl
    exact ⟨rfl, by simp [imageBytesWith, withOperand, hshape]⟩

end Instruction

namespace Memory

variable {memory : Memory} {a after : Nat}

theorem fetch_eq_instruction {i : Instruction}
    (h : memory.fetch a = .ok (.instruction i after)) :
    i.imageBytesWith i.operand <+: memory.bytes.toList.drop a ∧ after = a + i.imageSize := by
  unfold fetch at h
  split at h
  · cases h
  · rename_i b hb
    split at h
    · cases h
    · rename_i op hop
      split at h
      · rename_i j reader hrun
        obtain ⟨rfl, rfl⟩ : j = i ∧ reader.position = after := by simpa using h
        have hlt : a < memory.bytes.size := (Array.getElem?_eq_some_iff.mp hb).1
        obtain ⟨bs, ⟨hop', hbytes⟩, hfaces, rfl⟩ :=
          Instruction.consumes_decodeAfter op (memory.readerAt (a + 1)) _ hlt j hrun
        have hdrop : memory.bytes.toList.drop a = op.byte :: memory.bytes.toList.drop (a + 1) := by
          rw [List.drop_eq_getElem_cons (by simpa using hlt)]
          rw [Opcode.byte_eq_of_ofByte? hop]
          have hget := (Array.getElem?_eq_some_iff.mp hb).2
          simp [hget]
        constructor
        · rw [hbytes, hdrop]
          exact List.cons_prefix_cons.mpr ⟨rfl, hfaces.next⟩
        · rw [← j.imageBytesWith_length, hbytes]
          simp only [ByteReader.skip, readerAt, List.length_cons]
          omega
      · cases h

end Memory

/-! ### Instructions that fail -/

namespace Opcode

/-- Whether the operation adds an entry to all that it finds on the stack. -/
def addsEntry : Opcode → Bool
  | push | dup | indup | pushStr | getStr | call => true
  | _ => false

end Opcode

namespace Effect

variable {ctx : Context} {s : Store} {op : Opcode} {violation : Violation}
  {stack : BoundedStack Value}

/-- What a failure of an operation leaves of the stack: all but some entries that were taken from
it, and all of it where the stack is at fault. -/
structure Leaves (s : Store) (op : Opcode) (failure : Failure) : Prop where
  capacity_eq : failure.store.stack.capacity = s.stack.capacity
  taken : failure.store.stack.items <:+ s.stack.items
  restored : failure.violation.isStackFault → failure.store.stack = s.stack
  full : ∀ capacity, failure.violation = .stackOverflow capacity →
    capacity = s.stack.capacity ∧ s.stack.isFull ∧ op.addsEntry

/-- A failure of the effect leaves of the stack what it should. -/
def Contained (s : Store) (op : Opcode) (e : Effect) : Prop :=
  e.Meets (fun _ _ => True) (Leaves s op)

theorem contained_ok {s' : Store} {flow : Flow} : Contained s op (.ok (s', flow)) := trivial

theorem contained_fail_taken (hfault : violation.isStackFault = false)
    (hcap : stack.capacity = s.stack.capacity) (htaken : stack.items <:+ s.stack.items) :
    Contained s op (fail ctx { s with stack } violation) where
  capacity_eq := hcap
  taken := htaken
  restored h := by
    change violation.isStackFault at h
    rw [hfault] at h
    contradiction
  full capacity h := by
    change violation = _ at h
    rw [h] at hfault
    contradiction

theorem contained_fail (h : violation.isStackFault = false) :
    Contained s op (fail ctx s violation) :=
  contained_fail_taken h rfl (List.suffix_refl _)

theorem contained_underflow (required : Nat) : Contained s op (underflow ctx s required) := by
  apply meets_underflow
  · exact fun _ => trivial
  · intro _
    exact
      { capacity_eq := rfl
        taken := List.suffix_refl _
        restored := fun _ => rfl
        full := fun _ h => by contradiction }

theorem leaves_of_full (h : op.addsEntry) (hfull : s.stack.items.length = s.stack.capacity) :
    Leaves s op (ctx.failure s (.stackOverflow s.stack.capacity)) where
  capacity_eq := rfl
  taken := List.suffix_refl _
  restored _ := rfl
  full capacity hviolation := by
    obtain rfl := Violation.stackOverflow.inj hviolation
    exact ⟨rfl, decide_eq_true hfull.ge, h⟩

theorem contained_push (h : op.addsEntry) (v : Value) : Contained s op (push ctx s v) := by
  apply meets_push
  · exact fun _ _ _ => trivial
  · exact leaves_of_full h

theorem contained_pushResult {result : Except Violation Value}
    (hcap : stack.capacity = s.stack.capacity) (htaken : stack.items <:+ s.stack.items)
    (hroom : stack.items.length < s.stack.items.length)
    (h : ∀ violation, result = .error violation → violation.isStackFault = false) :
    Contained s op (pushResult ctx { s with stack } result) := by
  apply meets_pushResult
  · exact fun _ _ _ _ _ => trivial
  · intro hfull
    have hle := s.stack.length_le
    change stack.items.length = stack.capacity at hfull
    omega
  · intro violation hresult
    have hfailed : Contained s op (fail ctx { s with stack } violation) :=
      contained_fail_taken (h violation hresult) hcap htaken
    exact hfailed

theorem contained_withOne {next : Value → BoundedStack Value → Effect}
    (h : ∀ v rest, rest.capacity = s.stack.capacity → rest.items <:+ s.stack.items →
      rest.items.length < s.stack.items.length → Contained s op (next v rest)) :
    Contained s op (withOne ctx s next) := by
  apply meets_withOne
  · exact fun _ => contained_underflow 1
  · intro v rest hitems hcap
    apply h v rest hcap <;> rw [hitems]
    · exact List.suffix_cons v rest.items
    · exact Nat.lt_succ_self _

theorem contained_withTwo {next : Value → Value → BoundedStack Value → Effect}
    (h : ∀ a b rest, rest.capacity = s.stack.capacity → rest.items <:+ s.stack.items →
      rest.items.length < s.stack.items.length → Contained s op (next a b rest)) :
    Contained s op (withTwo ctx s next) := by
  apply meets_withTwo
  · exact fun _ => contained_underflow 2
  · intro a b rest hitems hcap
    apply h a b rest hcap <;> rw [hitems]
    · exact (List.suffix_cons a rest.items).trans (List.suffix_cons b _)
    · exact Nat.lt_succ_of_lt (Nat.lt_succ_self _)

theorem contained_atDepth {α : Type} {o : Operand} {find : Nat → Option α} {next : α → Effect}
    (h : ∀ a, Contained s op (next a)) :
    Contained s op (s.atDepth ctx o fun depth => (find depth).map next) := by
  apply meets_atDepth
  · intro violation hv
    have hfailed : Contained s op (fail ctx s violation) :=
      contained_fail (Store.isStackFault_of_operandValue hv)
    exact hfailed
  · intro v effect _ he
    obtain ⟨a, -, rfl⟩ := Option.map_eq_some_iff.mp he
    exact h a
  · exact fun _ _ _ => contained_underflow _

end Effect

open Effect

variable {ctx : Context} {s : Store} {i : Instruction}

theorem contained_move (index : UInt8) (o : Operand) :
    Contained s i.opcode (s.move ctx index o) := by
  unfold Store.move
  split
  · split
    · split
      · exact contained_ok
      · exact contained_underflow 1
    · split
      · rename_i violation h
        exact contained_fail (Store.isStackFault_of_operandValue h)
      · exact contained_ok
  · exact contained_fail rfl

theorem contained_pushStringOf (hadds : i.opcode.addsEntry) (o : Operand) :
    Contained s i.opcode (s.pushStringOf ctx o) := by
  unfold Store.pushStringOf
  split
  · rename_i violation h
    exact contained_fail (Store.isStackFault_of_stringIndexOf h)
  · split
    · exact contained_fail rfl
    · exact contained_push hadds _

theorem execute_contained
    (henforced : ∀ violation, ctx.enforced = .error violation →
      violation.isStackFault = false) :
    Contained s i.opcode (execute ctx s i) := by
  apply execute_elim (motive := Contained s i.opcode)
  case binary =>
    intro f hf
    apply contained_withTwo
    intro a b rest hcap htaken hroom
    apply contained_pushResult hcap htaken hroom
    intro violation h
    rw [Opcode.binary?_eq_error hf h]
    rfl
  case unary =>
    intro f hf
    apply contained_withOne
    intro v rest hcap htaken hroom
    apply contained_pushResult hcap htaken hroom
    intro violation h
    exact Opcode.isStackFault_of_unary hf h
  case halt | idle | jmp => exact fun _ => contained_ok
  case check =>
    intro _
    split
    · rename_i violation h
      exact contained_fail (henforced violation h)
    · exact contained_ok
  case push =>
    intro hop
    cases hv : s.operandValue ctx.here i.operand with
    | ok v => exact contained_push (by rw [hop]; rfl) v
    | error violation => exact contained_fail (Store.isStackFault_of_operandValue hv)
  case pop | ret =>
    intro _
    apply contained_withOne
    exact fun _ _ _ _ _ => contained_ok
  case branch =>
    intro _ _
    apply contained_withOne
    exact fun _ _ _ _ _ => contained_ok
  case dup =>
    intro hop
    apply contained_withOne
    intro v _ _ _ _
    exact contained_push (by rw [hop]; rfl) v
  case swap =>
    intro _
    split
    · exact contained_underflow 2
    · exact contained_ok
  case indup =>
    intro hop
    apply contained_atDepth
    intro v
    exact contained_push (by rw [hop]; rfl) v
  case inswap =>
    intro _
    apply contained_atDepth
    exact fun _ => contained_ok
  case mov => exact fun _ => contained_move _ _
  case string =>
    intro hop
    apply contained_pushStringOf
    rcases hop with hop | hop <;> rw [hop] <;> rfl
  case store =>
    intro _
    apply contained_withTwo
    intro v address rest hcap htaken _
    split
    · rename_i violation h
      exact contained_fail_taken (Memory.isStackFault_of_write h) hcap htaken
    · exact contained_ok
  case print =>
    intro _
    apply contained_withOne
    intro v rest hcap htaken _
    split
    · rename_i violation h
      exact contained_fail_taken (Context.isStackFault_of_printed h) hcap htaken
    · exact contained_ok
  case call =>
    intro hop
    apply meets_call
    · exact fun _ _ _ => trivial
    · exact leaves_of_full (by rw [hop]; rfl)
  case native => exact fun _ _ => contained_fail rfl

namespace Machine

variable {m : Machine} {violation : Violation}

theorem effect_contained {i : Instruction} (m : Machine) (after : Nat) :
    Contained m.store i.opcode (m.effect (.instruction i after)) := by
  apply execute_contained
  intro _ h
  exact Violation.isStackFault_of_kind (Verifier.enforce_error_kind h)

theorem exists_instruction_of_failed {fetched : Fetched} {failure : Failure}
    (hfetch : m.store.memory.fetch m.pc = .ok fetched)
    (heffect : m.effect fetched = .error failure) :
    ∃ i, fetched = .instruction i (m.pc + i.imageSize) ∧
      i.imageBytesWith i.operand <+: m.store.memory.bytes.toList.drop m.pc := by
  cases fetched with
  | unknown after => cases heffect
  | instruction i after =>
    obtain ⟨hbytes, rfl⟩ := Memory.fetch_eq_instruction hfetch
    exact ⟨i, rfl, hbytes⟩

/-- Where a step that halts on a violation took it from: the fetch, the instruction, or the
verification of what the instruction did. -/
theorem violation_step_cases (hrun : m.status = .running) (hedit : m.recheck = false)
    (hhalt : m.step.status = .haltedViolation) (hviolation : m.step.violation = some violation) :
    m.store.memory.fetch m.pc = .error violation ∨
    ∃ fetched, m.store.memory.fetch m.pc = .ok fetched ∧
      ((∃ failure, m.effect fetched = .error failure ∧ failure.violation = violation) ∨
        ∃ store flow, m.effect fetched = .ok (store, flow) ∧
          m.verifier.verify (m.registration.retire fetched.opcode?) = .error violation) := by
  rw [step_of_not_recheck hrun hedit] at hhalt hviolation
  have hends := m.begun.cycle_ends
  generalize m.begun.cycle = after at hends hhalt hviolation
  cases hends with
  | unfetched hfetch =>
    left
    rw [← Option.some.inj hviolation]
    exact hfetch
  | @failed fetched failure hfetch heffect =>
    exact .inr ⟨fetched, hfetch, .inl ⟨failure, heffect, Option.some.inj hviolation⟩⟩
  | @retired fetched store flow hfetch heffect =>
    refine .inr ⟨fetched, hfetch, .inr ⟨store, flow, heffect, ?_⟩⟩
    have hchecked := check_ends (m.begun.retired fetched store flow)
    generalize (m.begun.retired fetched store flow).checked = after at hchecked hhalt hviolation
    cases hchecked with
    | rejected hverify =>
      rw [← Option.some.inj hviolation, ← hverify]
      cases flow <;> rfl
    | accepted _ _ =>
      exact absurd hhalt (status_retired (m := m.begun) hrun fetched store flow)

/-- A running machine without an edit to verify whose fetch fails halts and counts the cycle; all
else stays as it was. If its instruction fails, the program counter is also behind the instruction,
and the stack has lost some entries from its top, but none where it is the stack that is at fault.
Every violation but those of the verification that ends a step is raised in these two ways, and
a stack overflows only if it was full, under an instruction that adds an entry to all of it. -/
theorem failing_step_contained (hrun : m.status = .running) (hedit : m.recheck = false) :
    (∀ violation, m.store.memory.fetch m.pc = .error violation →
      m.step = { m with
        cycles := m.cycles + 1
        status := .haltedViolation
        violation := some violation }) ∧
    (∀ fetched failure, m.store.memory.fetch m.pc = .ok fetched →
      m.effect fetched = .error failure →
      (∃ i, fetched = .instruction i (m.pc + i.imageSize) ∧
        i.imageBytesWith i.operand <+: m.store.memory.bytes.toList.drop m.pc ∧
        m.step = { m with
          cycles := m.cycles + 1
          pc := m.pc + i.imageSize
          store := { m.store with stack := failure.store.stack }
          status := .haltedViolation
          violation := some failure.violation }) ∧
      failure.store.stack.capacity = m.store.stack.capacity ∧
      failure.store.stack.toList <+: m.store.stack.toList ∧
      (failure.violation.isStackFault → failure.store.stack = m.store.stack)) ∧
    ∀ violation, m.step.status = .haltedViolation → m.step.violation = some violation →
      (m.store.memory.fetch m.pc = .error violation ∨
        ∃ fetched, m.store.memory.fetch m.pc = .ok fetched ∧
          ((∃ failure, m.effect fetched = .error failure ∧ failure.violation = violation) ∨
            ∃ store flow, m.effect fetched = .ok (store, flow) ∧
              m.verifier.verify (m.registration.retire fetched.opcode?) = .error violation)) ∧
      ∀ capacity, violation = .stackOverflow capacity →
        m.store.stack.isFull ∧ ∃ i after,
          m.store.memory.fetch m.pc = .ok (.instruction i after) ∧
            i.opcode ∈ [.push, .dup, .indup, .pushStr, .getStr, .call] := by
  have hstep := step_of_accepted hrun (editViolation?_of_not_recheck hedit)
  have hbegun : m.begun = { m with cycles := m.cycles + 1 } := by rw [begun, ← hedit]
  refine ⟨?_, ?_, ?_⟩
  · intro violation hfetch
    have hfetch' : m.begun.store.memory.fetch m.begun.pc = .error violation := hfetch
    rw [hstep, cycle_of_unfetched hfetch', hbegun]
    rfl
  · intro fetched failure hfetch heffect
    have hfetch' : m.begun.store.memory.fetch m.begun.pc = .ok fetched := hfetch
    have heffect' : m.begun.effect fetched = .error failure := heffect
    obtain ⟨i, rfl, hbytes⟩ := exists_instruction_of_failed hfetch heffect
    have hleaves := (m.effect_contained (m.pc + i.imageSize)).of_error heffect
    refine ⟨⟨i, rfl, hbytes, ?_⟩, hleaves.capacity_eq, ?_, hleaves.restored⟩
    · rw [hstep, cycle_of_failed hfetch' heffect', failedWith_eq heffect', hbegun]
      rfl
    · exact List.reverse_prefix.mpr hleaves.taken
  · intro violation hhalt hviolation
    have hcases := violation_step_cases hrun hedit hhalt hviolation
    refine ⟨hcases, ?_⟩
    rintro capacity rfl
    rcases hcases with hfetch | ⟨fetched, hfetch, ⟨failure, heffect, hfull⟩ | ⟨_, _, -, hverify⟩⟩
    · exact Bool.noConfusion (Memory.isStackFault_of_fetch hfetch)
    · obtain ⟨i, rfl, -⟩ := exists_instruction_of_failed hfetch heffect
      have hleaves := (m.effect_contained (m.pc + i.imageSize)).of_error heffect
      obtain ⟨-, hfull, hadds⟩ := hleaves.full capacity hfull
      refine ⟨hfull, i, _, hfetch, ?_⟩
      generalize i.opcode = op at hadds ⊢
      cases op <;> first | contradiction | decide
    · exact ViolationClass.noConfusion (Verifier.verify_error_kind hverify)

private def storeTooFar : Program :=
  ⟨#[.withOperand .push (.int 7), .withOperand .push (.int 99), .bare .store, .bare .halt], .empty,
    ⟨0, false⟩, by decide, by decide, by decide⟩

private def copyOnFullStack : Program :=
  ⟨#[.withOperand .push (.int 7), .bare .dup, .bare .halt], .empty, ⟨0, false⟩,
    by decide, by decide, by decide⟩

private def beforeStore : Machine :=
  (initial storeTooFar { Config.standard with memorySize := 24 }).steps 2

private def beforeCopy : Machine :=
  (initial copyOnFullStack { Config.standard with memorySize := 24, stackCapacity := 1 }).steps 1

/-- A store past the memory has taken its two entries; a copy on a full stack leaves the stack as it
was. -/
theorem failing_step_contained_storeTooFar :
    (∃ m, ofProgram storeTooFar { Config.standard with memorySize := 24 } = .ok m ∧
      (m.steps 2).store.stack.toList = [.int 7, .int 99] ∧
      (m.steps 3).violation = some (.memoryOutOfBounds 99) ∧ (m.steps 3).pc = 21 ∧
      (m.steps 3).store.stack.toList = [] ∧ (m.steps 3).registration = (m.steps 2).registration) ∧
    ∃ m, ofProgram copyOnFullStack
        { Config.standard with memorySize := 24, stackCapacity := 1 } = .ok m ∧
      (m.steps 2).violation = some (.stackOverflow 1) ∧ (m.steps 1).store.stack.isFull ∧
      (m.steps 2).store.stack = (m.steps 1).store.stack := by
  constructor
  · have h₀ := @ofProgram_of_le storeTooFar { Config.standard with memorySize := 24 } (by decide)
    obtain ⟨-, hfailed, -⟩ :=
      @failing_step_contained beforeStore (by decide +kernel) (by decide +kernel)
    obtain ⟨⟨i, hi, -, hstep⟩, -⟩ := hfailed (.instruction (.bare .store) 21)
      ((beforeStore.context 21).failure { beforeStore.store with stack := .ofCapacity 1024 }
        (.memoryOutOfBounds 99)) (by decide +kernel) (by decide +kernel)
    obtain ⟨rfl, hafter⟩ := Fetched.instruction.inj hi
    refine ⟨_, h₀, by decide +kernel, ?_, ?_, ?_, ?_⟩ <;> rw [steps, ← beforeStore, hstep]
    · rfl
    · exact hafter.symm
    · rfl
  · have h₀ := @ofProgram_of_le copyOnFullStack
      { Config.standard with memorySize := 24, stackCapacity := 1 } (by decide)
    obtain ⟨-, hfailed, hraised⟩ :=
      @failing_step_contained beforeCopy (by decide +kernel) (by decide +kernel)
    obtain ⟨⟨i, -, -, hstep⟩, -, -, hrestored⟩ := hfailed (.instruction (.bare .dup) 11)
      ((beforeCopy.context 11).failure beforeCopy.store (.stackOverflow 1)) (by decide +kernel)
      (by decide +kernel)
    have hviolation : beforeCopy.step.violation = some (.stackOverflow 1) := by
      rw [hstep]
      rfl
    obtain ⟨-, hfull⟩ := hraised _ (by rw [hstep]) hviolation
    refine ⟨_, h₀, ?_, ?_, ?_⟩
    · rw [steps, ← beforeCopy]
      exact hviolation
    · rw [← beforeCopy]
      exact (hfull 1 rfl).1
    · have hfault : (Violation.stackOverflow 1).isStackFault := rfl
      rw [steps, ← beforeCopy, hstep]
      dsimp only
      exact hrestored hfault

end Machine

end InvariantMachine

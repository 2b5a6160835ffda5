import Mathlib
import InvariantMachine.Proofs.Frame
import InvariantMachine.Proofs.Indexed
import InvariantMachine.Proofs.Steps

/-!
# The machine over bytes refines the machine over indices

A program that stores behind its code only, and returns only to addresses where an instruction or
the end of the code stands, runs over its image as it runs over its instructions. One step of the
two machines agrees while the code stands in memory unchanged and the position is one of the
program, and both hold after the step.
-/

namespace InvariantMachine

namespace Store

/-- What must hold when an instruction is carried out on a store so that the code stays as it is
and control stays on its instructions. -/
def Disciplined (p : Program) (s : Store) (i : Instruction) : Prop :=
  match i.opcode, s.stack.items with
  | .store, a :: _ :: _ => p.image.length < a.asAddress
  | .ret, v :: _ => ∃ j ≤ p.size, v.asInt.toInt = p.offset j
  | _, _ => True

instance (p : Program) (s : Store) (i : Instruction) : Decidable (s.Disciplined p i) := by
  unfold Disciplined
  split <;> infer_instance

variable {p : Program} {s : Store} {i : Instruction}

theorem Disciplined.store {a v : Value} {rest : List Value} (h : s.Disciplined p i)
    (hop : i.opcode = .store) (hitems : s.stack.items = a :: v :: rest) :
    p.image.length < a.asAddress := by
  rw [Disciplined, hop, hitems] at h
  exact h

theorem Disciplined.ret {v : Value} {rest : List Value} (h : s.Disciplined p i)
    (hop : i.opcode = .ret) (hitems : s.stack.items = v :: rest) :
    ∃ j ≤ p.size, v.asAddress = p.offset j := by
  rw [Disciplined, hop, hitems] at h
  obtain ⟨j, hj, hv⟩ := h
  refine ⟨j, hj, ?_⟩
  rw [Value.asAddress, hv, if_neg (by omega), Int.toNat_natCast]

end Store

/-! ### The effect of an instruction with its target made an offset -/

namespace Program

variable {p : Program} {ctx : Context} {s : Store} {i : Instruction}

/-- The flow of an instruction in the image, given that of the instruction in the program. -/
def placeFlow (p : Program) (i : Instruction) : Flow → Flow
  | .goto a => .goto (p.address (p.landing i a))
  | flow => flow

private theorem placeFlow_of_justified {flow : Flow} (hd : s.Disciplined p i)
    (hflow : flow.Justified s i) (htakes : i.opcode.takesAddress = false) :
    p.placeFlow i flow = flow := by
  cases flow with
  | next | halt => rfl
  | goto a =>
    rcases hflow with ⟨h, -⟩ | ⟨hop, v, rest, hitems, rfl⟩
    · rw [htakes] at h
      contradiction
    · obtain ⟨j, hj, hv⟩ := hd.ret hop hitems
      have hland : p.landing i v.asAddress = .index j := by
        rw [landing, hop, hv]
        exact positionOfOffset_offset hj
      rw [placeFlow, hland, address_index_of_le hj, hv]

private theorem target_placed_eq (p : Program) {op : Opcode} {t : Int64} (h : op.takesAddress)
    (a : Nat) :
    (p.placed (.withOperand op (.int t))).operand.target =
      p.address (p.landing (.withOperand op (.int t)) a) := by
  have hland : p.landing (.withOperand op (.int t)) a = p.positionOfTarget t.toInt := by
    cases op <;> first | rfl | contradiction
  rw [target_placed p h, hland, address_positionOfTarget]

private theorem branch_placed {i' : Instruction} (onZero : Bool)
    (hop : i.opcode = if onZero then .zjmp else .nzjmp)
    (hop' : i'.opcode = if onZero then .zjmp else .nzjmp)
    (h : .goto i'.operand.target = p.placeFlow i (.goto i.operand.target)) :
    execute ctx s i' =
      (execute ctx s i).map fun result => (result.1, p.placeFlow i result.2) := by
  rw [execute_branch onZero hop, execute_branch onZero hop']
  unfold Effect.withOne
  cases s.stack.pop? with
  | none =>
    unfold Effect.underflow
    cases ctx.mode <;> rfl
  | some entry =>
    change Except.ok (_, if _ then _ else _) = Except.ok (_, p.placeFlow i (if _ then _ else _))
    split
    · rw [h]
    · rfl

private theorem call_placed {i' : Instruction} (hop : i.opcode = .call) (hop' : i'.opcode = .call)
    (h : .goto i'.operand.target = p.placeFlow i (.goto i.operand.target)) :
    execute ctx s i' =
      (execute ctx s i).map fun result => (result.1, p.placeFlow i result.2) := by
  rw [execute_of_none hop rfl, execute_of_none hop' rfl, perform, perform, hop, hop']
  dsimp only
  unfold Store.call
  cases s.push ctx (.int (Int64.ofNat ctx.after)) with
  | error failure => rfl
  | ok s' =>
    change Except.ok (_, _) = Except.ok (_, p.placeFlow i _)
    rw [h]

/-- An instruction does in the image what it does in the program, and goes to the address of the
position where it goes in the program. -/
theorem execute_placed (hi : i.WellFormed) (hd : s.Disciplined p i) :
    execute ctx s (p.placed i) =
      (execute ctx s i).map fun result => (result.1, p.placeFlow i result.2) := by
  cases htakes : i.opcode.takesAddress with
  | false =>
    rw [placed_of_not_takesAddress htakes]
    have hframed := @execute_framed ctx s i
    cases he : execute ctx s i with
    | error failure => rfl
    | ok result =>
      obtain ⟨hflow, -⟩ := hframed.of_ok he
      rw [Except.map, placeFlow_of_justified hd hflow htakes]
  | true =>
    obtain ⟨op, t, rfl⟩ := hi.exists_target htakes
    have hgoto := congrArg Flow.goto (p.target_placed_eq (t := t) htakes 0)
    cases op <;> try contradiction
    case jmp =>
      rw [execute_of_none rfl rfl, execute_of_none rfl rfl]
      exact congrArg (fun flow => Except.ok (s, flow)) hgoto
    case zjmp => exact branch_placed true rfl rfl hgoto
    case nzjmp => exact branch_placed false rfl rfl hgoto
    case call => exact call_placed rfl rfl hgoto

end Program

/-! ### The code in memory -/

namespace Memory

variable {code : List UInt8} {memory memory' : Memory} {a : Nat} {b : UInt8}

theorem isPrefix_of_write (hcode : code <+: memory.bytes.toList) (ha : code.length ≤ a)
    (h : memory.write a b = .ok memory') : code <+: memory'.bytes.toList := by
  rw [List.prefix_iff_eq_take] at hcode ⊢
  rw [write_eq_ok h, List.take_set_of_le ha]
  exact hcode

end Memory

/-- The code of a program, with a zero behind it, stands in a memory whose addresses end before
that of an unresolved target. -/
structure Memory.Holds (memory : Memory) (p : Program) : Prop where
  code : p.image ++ [0] <+: memory.bytes.toList
  size_le : memory.size ≤ unresolvedTarget

theorem Memory.Holds.of_memoryKept {p : Program} {s s' : Store} {i : Instruction}
    (h : s.memory.Holds p) (hd : s.Disciplined p i) (hkept : s.MemoryKept i s') :
    s'.memory.Holds p := by
  rcases hkept with hsame | ⟨hop, a, v, rest, hitems, hwrite⟩
  · rw [hsame]
    exact h
  · refine ⟨Memory.isPrefix_of_write h.code ?_ hwrite, ?_⟩
    · have ha := hd.store hop hitems
      rw [List.length_append, List.length_singleton]
      omega
    · rw [Memory.size_of_write hwrite]
      exact h.size_le

/-! ### One step of the two machines -/

namespace Machine

/-- A step stores behind the code only and returns to an instruction or the end of the code. -/
def Disciplined (p : Program) (m : Machine) : Prop :=
  ∀ i ∈ m.current?, m.store.Disciplined p i

instance (p : Program) (m : Machine) : Decidable (m.Disciplined p) :=
  inferInstanceAs (Decidable (∀ i ∈ m.current?, m.store.Disciplined p i))

end Machine

namespace IndexedMachine

variable {p : Program} {r : IndexedMachine}

/-- The machine over bytes in the place of an indexed machine. -/
def toMachine (p : Program) (r : IndexedMachine) : Machine where
  config := r.config
  strings := p.strings
  store := r.store
  pc := p.address r.position
  status := r.status
  violation := r.violation
  registration := r.registration
  activity := r.activity
  cycles := r.cycles
  softFindings := r.softFindings
  recheck := false

/-- What a machine needs to go on over the code. -/
structure Ready (p : Program) (r : IndexedMachine) : Prop where
  memory : r.store.memory.Holds p
  position : r.status = .running → p.Reaches r.position

theorem toMachine_proceed (p : Program) (r : IndexedMachine) (j : Nat) (i : Instruction)
    (store : Store) (flow : Flow) :
    (r.proceed p j i store flow).toMachine p =
      (r.toMachine p).proceed store (p.address (.index (j + 1))) (p.placeFlow i flow) := by
  cases flow <;> rfl

theorem toMachine_account (p : Program) (r : IndexedMachine) (op : Opcode) :
    (r.account op).toMachine p = (r.toMachine p).account (some op) := rfl

theorem toMachine_checked (p : Program) (r : IndexedMachine) :
    r.checked.toMachine p = (r.toMachine p).checked := by
  have hverify : (r.toMachine p).verifier.verify (r.toMachine p).registration =
      r.verifier.verify r.registration := rfl
  unfold checked Machine.checked
  rw [hverify]
  cases r.verifier.verify r.registration with
  | error violation => rfl
  | ok finding => cases finding <;> rfl

theorem fetch_toMachine {j : Nat} (hpos : r.position = .index j) (hj : j ≤ p.size)
    (hmemory : r.store.memory.Holds p) :
    (r.toMachine p).store.memory.fetch (r.toMachine p).pc =
      .ok (.instruction (p.placed (p.instructionAt j)) (p.address (.index (j + 1)))) := by
  have hpc : (r.toMachine p).pc = p.address (.index j) := congrArg p.address hpos
  rw [hpc]
  exact Program.fetch_index hmemory.code hj

theorem toMachine_carryOut {j : Nat} (hpos : r.position = .index j) (hj : j ≤ p.size)
    (hmemory : r.store.memory.Holds p) (hd : r.store.Disciplined p (p.instructionAt j)) :
    (r.carryOut p j).toMachine p = (r.toMachine p).cycle := by
  have hcontext : (r.toMachine p).context (p.address (.index (j + 1))) = r.context p j := by
    have hpc : (r.toMachine p).pc = p.address (.index j) := congrArg p.address hpos
    rw [Machine.context, hpc]
    rfl
  have heffect : (r.toMachine p).effect (.instruction (p.placed (p.instructionAt j))
      (p.address (.index (j + 1)))) =
      (execute (r.context p j) r.store (p.instructionAt j)).map fun result =>
        (result.1, p.placeFlow (p.instructionAt j) result.2) := by
    rw [← Program.execute_placed (p.wellFormed_instructionAt j) hd, ← hcontext]
    rfl
  rw [Machine.cycle, fetch_toMachine hpos hj hmemory]
  dsimp only
  rw [heffect, carryOut]
  cases he : execute (r.context p j) r.store (p.instructionAt j) with
  | error failure =>
    have hpc : failure.pc = p.address (.index (j + 1)) := (execute_framed.of_error he).pc_eq
    dsimp only [Except.map]
    rw [hpc]
    rfl
  | ok result =>
    rw [toMachine_checked, toMachine_account, toMachine_proceed]
    rfl

theorem disciplined_at {j : Nat} (hrun : r.status = .running) (hpos : r.position = .index j)
    (hj : j ≤ p.size) (hmemory : r.store.memory.Holds p) (hd : (r.toMachine p).Disciplined p) :
    r.store.Disciplined p (p.instructionAt j) := by
  have hcurrent : (r.toMachine p).current? = some (p.placed (p.instructionAt j)) :=
    Machine.current?_eq_some hrun (fetch_toMachine hpos hj hmemory)
  -- The discipline of an instruction asks for its opcode alone, which the image keeps.
  have hplaced : r.store.Disciplined p (p.placed (p.instructionAt j)) := hd _ hcurrent
  exact hplaced

/-- One step of the indexed machine is one step of the machine over bytes. -/
theorem toMachine_step (hr : r.Ready p) (hd : (r.toMachine p).Disciplined p) :
    (r.step p).toMachine p = (r.toMachine p).step := by
  by_cases hrun : r.status = .running
  · rw [Machine.step_of_not_recheck hrun rfl, step, if_pos hrun]
    have hreach := hr.position hrun
    cases hpos : r.position with
    | index j =>
      rw [hpos] at hreach
      exact toMachine_carryOut (r := r.begun) hpos hreach hr.memory
        (disciplined_at hrun hpos hreach hr.memory hd)
    | trap =>
      have hpc : (r.toMachine p).begun.pc = unresolvedTarget := congrArg p.address hpos
      have hfetch : (r.toMachine p).begun.store.memory.fetch unresolvedTarget = _ :=
        Memory.fetch_of_size_le hr.memory.size_le
      rw [Machine.cycle, hpc, hfetch]
      rfl
  · rw [Machine.step_of_not_running hrun, step, if_neg hrun]

theorem store_checked (r : IndexedMachine) : r.checked.store = r.store := by
  unfold checked
  split <;> rfl

theorem position_checked (r : IndexedMachine) : r.checked.position = r.position := by
  unfold checked
  split <;> rfl

theorem running_of_checked (h : r.checked.status = .running) : r.status = .running := by
  unfold checked at h
  split at h
  · contradiction
  · exact h
  · exact h

theorem Ready.carryOut {j : Nat} (hr : r.store.memory.Holds p) (hj : j ≤ p.size)
    (hd : r.store.Disciplined p (p.instructionAt j)) : (r.carryOut p j).Ready p := by
  unfold IndexedMachine.carryOut
  cases he : execute (r.context p j) r.store (p.instructionAt j) with
  | error failure =>
    refine ⟨?_, fun h => by contradiction⟩
    have hmemory : failure.store.memory.Holds p := by
      rw [(execute_framed.of_error he).memory_eq]
      exact hr
    exact hmemory
  | ok result =>
    obtain ⟨store, flow⟩ := result
    obtain ⟨-, hkept⟩ := execute_framed.of_ok he
    have hmemory : store.memory.Holds p := hr.of_memoryKept hd hkept
    refine ⟨?_, ?_⟩
    · rw [store_checked]
      cases flow <;> exact hmemory
    · intro h
      have hrun := running_of_checked h
      rw [position_checked]
      cases flow with
      | halt => contradiction
      | goto a => exact p.reaches_landing (p.instructionAt j) a
      | next =>
        -- What stands behind the last instruction is a halt, and a halt never falls through.
        change j + 1 ≤ p.size
        rcases Nat.lt_or_eq_of_le hj with hlt | rfl
        · exact hlt
        · rw [Program.instructionAt_of_size_le le_rfl, execute_of_none rfl rfl] at he
          cases congrArg Prod.snd (Except.ok.inj he)

theorem Ready.step (hr : r.Ready p) (hd : (r.toMachine p).Disciplined p) : (r.step p).Ready p := by
  unfold IndexedMachine.step
  split
  · rename_i hrun
    have hreach := hr.position hrun
    cases hpos : r.position with
    | index j =>
      rw [hpos] at hreach
      exact Ready.carryOut (r := r.begun) hr.memory hreach
        (disciplined_at hrun hpos hreach hr.memory hd)
    | trap => exact ⟨hr.memory, fun h => by contradiction⟩
  · exact hr

theorem toMachine_start (p : Program) (config : Config) :
    (start p config).toMachine p = Machine.initial p config := by
  rw [toMachine, Machine.initial, ← p.address_entryPosition]
  rfl

theorem ready_start {config : Config} (hfit : p.image.length < config.memorySize)
    (hsize : config.memorySize ≤ unresolvedTarget) : (start p config).Ready p := by
  refine ⟨⟨Memory.image_halt_isPrefix_ofImage hfit, ?_⟩, fun _ => p.reaches_entryPosition⟩
  rw [start, Memory.size_ofImage hfit.le]
  exact hsize

theorem toMachine_steps (hr : r.Ready p) (n : Nat)
    (hd : ∀ k < n, ((r.toMachine p).steps k).Disciplined p) :
    (r.steps p n).Ready p ∧ (r.steps p n).toMachine p = (r.toMachine p).steps n := by
  induction n with
  | zero => exact ⟨hr, rfl⟩
  | succ n ih =>
    obtain ⟨hready, hagree⟩ := ih fun k hk => hd k (hk.trans (Nat.lt_succ_self n))
    have hlast : ((r.steps p n).toMachine p).Disciplined p := by
      rw [hagree]
      exact hd n (Nat.lt_succ_self n)
    refine ⟨hready.step hlast, ?_⟩
    rw [steps, toMachine_step hready hlast, hagree]
    rfl

end IndexedMachine

namespace Machine

/-- Where the image of a program and a zero behind it fit in a memory that ends before the address
of an unresolved target, the machine over bytes starts, and after any number of steps it is in
every part the one that stands for the machine over indices, provided that until then it stored
behind the code only and returned only to instructions or the end of the code. -/
theorem steps_eq_indexed_steps {p : Program} {config : Config}
    (hfit : p.image.length < config.memorySize) (hsize : config.memorySize ≤ 0xffffffff)
    (n : Nat) :
    ∃ m, ofProgram p config = .ok m ∧
      ((∀ k < n, (m.steps k).Disciplined p) →
        m.steps n = ((IndexedMachine.start p config).steps p n).toMachine p) := by
  refine ⟨initial p config, ofProgram_of_le hfit.le, fun hd => ?_⟩
  rw [← IndexedMachine.toMachine_start] at hd ⊢
  exact (IndexedMachine.toMachine_steps (IndexedMachine.ready_start hfit hsize) n hd).2.symm

private def storeAndCall : Program :=
  ⟨#[.withOperand .push (.int 9), .withOperand .push (.int 60), .bare .store,
    .withOperand .call (.int 5), .bare .halt, .bare .ret], .empty, ⟨0, false⟩,
    by decide, by decide, by decide⟩

theorem steps_eq_indexed_steps_storeAndCall :
    ∃ m, ofProgram storeAndCall { Config.standard with memorySize := 64 } = .ok m ∧
      m.steps 6 = ((IndexedMachine.start storeAndCall
        { Config.standard with memorySize := 64 }).steps storeAndCall 6).toMachine storeAndCall ∧
      (m.steps 6).status = .haltedNominal ∧ (m.steps 6).pc = 32 := by
  have hfit : storeAndCall.image.length < 64 := by decide
  obtain ⟨m, hm, hsteps⟩ := @steps_eq_indexed_steps storeAndCall
    { Config.standard with memorySize := 64 } hfit (by decide) 6
  obtain ⟨-, rfl⟩ := ofProgram_eq_ok hm
  exact ⟨_, hm, hsteps (by decide +kernel), by decide +kernel, by decide +kernel⟩

end Machine

end InvariantMachine

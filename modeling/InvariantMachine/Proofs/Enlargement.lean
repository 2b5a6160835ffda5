import Mathlib
import InvariantMachine.Proofs.Bounds

/-!
# Machines with more room

A machine with more room on its stack and in its memory goes through the states of a smaller one
until that one hits a limit. What a fetch or an instruction asks for is in both machines or beyond
the limits of the smaller one, and then that one halts before the two can differ.
-/

namespace InvariantMachine

/-- Whether a violation is that the stack or the memory is too small. -/
def Violation.isLimit : Violation → Bool
  | stackOverflow _ | pcOutOfBounds _ | memoryOutOfBounds _ => true
  | _ => false

/-! ### Decodings with more bytes behind -/

def ByteReader.extend (r : ByteReader) (more : Array UInt8) : ByteReader :=
  { r with bytes := r.bytes ++ more }

namespace Decoding

variable {α β : Type} {decoding first : Decoding α} {next : α → Decoding β}

/-- A decoding that more bytes behind do not change, unless it ran out of bytes. -/
def Stable (decoding : Decoding α) : Prop :=
  ∀ (r : ByteReader) (more : Array UInt8),
    (∃ position, (decoding.run r).1 = .error (.truncated position)) ∨
    decoding.run (r.extend more) = ((decoding.run r).1, (decoding.run r).2.extend more)

theorem stable_pure (a : α) : (pure a : Decoding α).Stable := fun _ _ => .inr rfl

theorem stable_fail (fault : DecodeFault) : (fail fault : Decoding α).Stable :=
  fun _ _ => .inr rfl

theorem Stable.bind (hfirst : first.Stable) (hnext : ∀ a, (next a).Stable) :
    (first >>= next).Stable := by
  intro r more
  rw [run_bind, run_bind]
  cases hrun : first.run r with
  | mk outcome r' =>
    have hstable := hfirst r more
    rw [hrun] at hstable
    rcases hstable with ⟨position, htruncated⟩ | hsame
    · obtain rfl : outcome = _ := htruncated
      exact .inl ⟨position, rfl⟩
    · rw [hsame]
      cases outcome with
      | error fault => exact .inr rfl
      | ok a => exact hnext a r' more

theorem Stable.map {f : α → β} (h : decoding.Stable) : (do return f (← decoding)).Stable :=
  h.bind fun a => stable_pure (f a)

theorem stable_position : position.Stable := fun _ _ => .inr rfl

theorem stable_bytes (count : Nat) : (bytes count).Stable := by
  intro r more
  rcases Nat.lt_or_ge r.bytes.size (r.position + count) with hlt | hle
  · rw [run_bytes_of_lt hlt]
    exact .inl ⟨r.position, rfl⟩
  · right
    have hle' : (r.extend more).position + count ≤ (r.extend more).bytes.size := by
      simp only [ByteReader.extend, Array.size_append]
      omega
    have htake : (r.extend more).rest.take count = r.rest.take count := by
      simp only [ByteReader.extend, ByteReader.rest, Array.toList_append]
      rw [List.drop_append_of_le_length (by rw [Array.length_toList]; omega),
        List.take_append_of_le_length (by rw [List.length_drop, Array.length_toList]; omega)]
    rw [run_bytes_of_le hle', run_bytes_of_le hle, htake]
    rfl

theorem stable_natural (width : Nat) : (natural width).Stable := (stable_bytes width).map

theorem stable_byte : byte.Stable := (stable_natural 1).map

theorem stable_word32 : word32.Stable := (stable_natural 4).map

theorem stable_word64 : word64.Stable := (stable_natural 8).map

end Decoding

theorem Operand.stable_decode : decode.Stable := by
  refine Decoding.stable_position.bind fun start => Decoding.stable_byte.bind fun tag => ?_
  split
  · exact Decoding.stable_pure _
  · exact Decoding.stable_word64.map
  · exact Decoding.stable_word64.map
  · refine Decoding.stable_word32.bind fun w => ?_
    split
    · exact Decoding.stable_pure _
    · exact Decoding.stable_fail _
  · exact Decoding.stable_byte.map
  · exact Decoding.stable_word32.map
  · exact Decoding.stable_pure _
  · exact Decoding.stable_fail _

theorem Instruction.stable_decodeAfter (op : Opcode) : (decodeAfter op).Stable := by
  unfold decodeAfter
  split
  · exact Decoding.stable_pure _
  · exact Decoding.stable_byte.bind fun register => Operand.stable_decode.map
  · exact Operand.stable_decode.map

/-! ### Stores with more room -/

/-- Entries and bytes that one machine has room for and another has not. -/
structure Room where
  stack : Nat
  memory : Nat

namespace BoundedStack

variable {α : Type} {s t : BoundedStack α} {a : α}

def enlarge (s : BoundedStack α) (n : Nat) : BoundedStack α :=
  ⟨s.items, s.capacity + n, s.length_le.trans (Nat.le_add_right _ _)⟩

theorem push_enlarge (n : Nat) (h : s.push a = .ok t) :
    (s.enlarge n).push a = .ok (t.enlarge n) := by
  unfold push at h
  split at h
  · rename_i hlt
    obtain rfl := Except.ok.inj h
    exact dif_pos (Nat.lt_add_right n hlt)
  · contradiction

theorem pop?_enlarge (s : BoundedStack α) (n : Nat) :
    (s.enlarge n).pop? = s.pop?.map fun entry => (entry.1, entry.2.enlarge n) := by
  obtain ⟨items, capacity, hle⟩ := s
  cases items <;> rfl

theorem swapWithTop?_enlarge (s : BoundedStack α) (n depth : Nat) :
    (s.enlarge n).swapWithTop? depth = (s.swapWithTop? depth).map (·.enlarge n) := by
  have hpeek : (s.enlarge n).peek? = s.peek? := rfl
  have hpeekAt : (s.enlarge n).peekAt? depth = s.peekAt? depth := rfl
  unfold swapWithTop?
  rw [hpeek, hpeekAt]
  cases s.peek? <;> cases s.peekAt? depth <;> rfl

end BoundedStack

namespace Memory

variable {memory memory' : Memory} {a : Nat} {b : UInt8}

def enlarge (memory : Memory) (n : Nat) : Memory := ⟨memory.bytes ++ Array.replicate n 0⟩

theorem getElem?_enlarge (n : Nat) (h : memory.bytes[a]? = some b) :
    (memory.enlarge n).bytes[a]? = some b := by
  have hlt := (Array.getElem?_eq_some_iff.mp h).1
  rw [← h]
  exact Array.getElem?_append_left hlt

theorem ofImage_enlarge {image : List UInt8} {size : Nat} (h : image.length ≤ size) (n : Nat) :
    (ofImage image size).enlarge n = ofImage image (size + n) := by
  have hzeros : size + n - image.length = size - image.length + n := by omega
  unfold ofImage enlarge
  congr 1
  apply Array.ext'
  rw [Array.toList_append, Array.toList_replicate, hzeros, List.replicate_add, List.append_assoc]

theorem fetch_enlarge (memory : Memory) (n a : Nat) :
    (∃ violation, memory.fetch a = .error violation ∧ violation.isLimit) ∨
      (memory.enlarge n).fetch a = memory.fetch a := by
  cases hbyte : memory.bytes[a]? with
  | none =>
    left
    refine ⟨.pcOutOfBounds a, ?_, rfl⟩
    rw [fetch, hbyte]
  | some byte =>
    rw [fetch, fetch, hbyte, getElem?_enlarge n hbyte]
    dsimp only
    cases Opcode.ofByte? byte with
    | none => exact .inr rfl
    | some op =>
      dsimp only
      have hextend : (memory.enlarge n).readerAt (a + 1) =
          (memory.readerAt (a + 1)).extend (Array.replicate n 0) := rfl
      rcases Instruction.stable_decodeAfter op (memory.readerAt (a + 1)) (Array.replicate n 0) with
        ⟨position, htruncated⟩ | hsame
      · left
        refine ⟨.pcOutOfBounds position, ?_, rfl⟩
        cases hrun : (Instruction.decodeAfter op).run (memory.readerAt (a + 1)) with
        | mk outcome r =>
          rw [hrun] at htruncated
          obtain rfl : outcome = _ := htruncated
          rfl
      · right
        rw [hextend, hsame]
        cases hrun : (Instruction.decodeAfter op).run (memory.readerAt (a + 1)) with
        | mk outcome r => cases outcome <;> rfl

theorem read_enlarge (memory : Memory) (n a : Nat) :
    (∃ violation, memory.read a = .error violation ∧ violation.isLimit) ∨
      (memory.enlarge n).read a = memory.read a := by
  cases hbyte : memory.bytes[a]? with
  | none =>
    left
    refine ⟨.memoryOutOfBounds a, ?_, rfl⟩
    rw [read, hbyte]
  | some byte =>
    right
    rw [read, read, hbyte, getElem?_enlarge n hbyte]

theorem isLimit_of_write {violation : Violation} (h : memory.write a b = .error violation) :
    violation.isLimit := by
  unfold write at h
  split at h
  · contradiction
  · rw [← Except.error.inj h]
    rfl

theorem write_enlarge (n : Nat) (h : memory.write a b = .ok memory') :
    (memory.enlarge n).write a b = .ok (memory'.enlarge n) := by
  unfold write at h
  split at h
  · rename_i hlt
    have hlt' : a < (memory.enlarge n).bytes.size := by
      simp only [enlarge, Array.size_append]
      omega
    obtain rfl := Except.ok.inj h
    rw [write, dif_pos hlt']
    congr 2
    exact Array.set_append_left hlt
  · contradiction

end Memory

def Store.enlarge (s : Store) (room : Room) : Store :=
  { s with stack := s.stack.enlarge room.stack, memory := s.memory.enlarge room.memory }

namespace Effect

variable {room : Room} {ctx : Context} {s : Store} {e e' : Effect}

def enlarge (e : Effect) (room : Room) : Effect :=
  match e with
  | .ok (s, flow) => .ok (s.enlarge room, flow)
  | .error failure => .error { failure with store := failure.store.enlarge room }

/-- The second effect is that of more room, unless the first one hits a limit. -/
def Scales (room : Room) (e e' : Effect) : Prop :=
  (∃ failure, e = .error failure ∧ failure.violation.isLimit) ∨ e' = e.enlarge room

theorem scales_push (v : Value) : Scales room (push ctx s v) (push ctx (s.enlarge room) v) := by
  unfold push Store.push
  cases hpush : s.stack.push v with
  | error e => exact .inl ⟨_, rfl, rfl⟩
  | ok t =>
    have hpush' : (s.enlarge room).stack.push v = _ := BoundedStack.push_enlarge room.stack hpush
    rw [hpush']
    exact .inr rfl

theorem scales_pushResult {result result' : Except Violation Value}
    (h : (∃ violation, result = .error violation ∧ violation.isLimit) ∨ result' = result) :
    Scales room (pushResult ctx s result) (pushResult ctx (s.enlarge room) result') := by
  rcases h with ⟨violation, rfl, hlimit⟩ | rfl
  · exact .inl ⟨_, rfl, hlimit⟩
  · cases result' with
    | ok v => exact scales_push v
    | error violation => exact .inr rfl

theorem scales_underflow (required : Nat) :
    Scales room (underflow ctx s required) (underflow ctx (s.enlarge room) required) := by
  unfold underflow
  cases ctx.mode <;> exact .inr rfl

theorem scales_withOne {next next' : Value → BoundedStack Value → Effect}
    (h : ∀ a rest, Scales room (next a rest) (next' a (rest.enlarge room.stack))) :
    Scales room (withOne ctx s next) (withOne ctx (s.enlarge room) next') := by
  have hpop : (s.enlarge room).stack.pop? = _ := s.stack.pop?_enlarge room.stack
  unfold withOne
  rw [hpop]
  cases s.stack.pop? with
  | none => exact scales_underflow 1
  | some entry => exact h entry.1 entry.2

theorem scales_withTwo {next next' : Value → Value → BoundedStack Value → Effect}
    (h : ∀ a b rest, Scales room (next a b rest) (next' a b (rest.enlarge room.stack))) :
    Scales room (withTwo ctx s next) (withTwo ctx (s.enlarge room) next') := by
  have hpop : (s.enlarge room).stack.pop? = _ := s.stack.pop?_enlarge room.stack
  unfold withTwo
  rw [hpop]
  cases s.stack.pop? with
  | none => exact scales_underflow 2
  | some entry =>
    dsimp only [Option.map_some]
    rw [BoundedStack.pop?_enlarge]
    cases entry.2.pop? with
    | none => exact scales_underflow 2
    | some entry' => exact h entry'.1 entry.1 entry'.2

theorem operandValue_enlarge (s : Store) (room : Room) (here : Nat) (o : Operand) :
    (s.enlarge room).operandValue here o = s.operandValue here o := by
  cases o <;> rfl

theorem scales_atDepth {α : Type} {o : Operand} {find find' : Nat → Option α}
    {next next' : α → Effect} {f : α → α} (hfind : ∀ depth, find' depth = (find depth).map f)
    (h : ∀ a, Scales room (next a) (next' (f a))) :
    Scales room (s.atDepth ctx o fun depth => (find depth).map next)
      ((s.enlarge room).atDepth ctx o fun depth => (find' depth).map next') := by
  unfold Store.atDepth
  rw [operandValue_enlarge]
  cases s.operandValue ctx.here o with
  | error violation => exact .inr rfl
  | ok v =>
    dsimp only
    rw [hfind]
    cases find v.asAddress with
    | none => exact scales_underflow _
    | some a => exact h a

end Effect

open Effect

variable {room : Room} {ctx : Context} {s : Store} {i : Instruction}

theorem scales_move (index : UInt8) (o : Operand) :
    Scales room (s.move ctx index o) ((s.enlarge room).move ctx index o) := by
  by_cases hindex : Instruction.isRegister index
  · by_cases htop : o = .top
    · rw [htop, Store.move_top hindex, Store.move_top hindex]
      apply scales_withOne
      exact fun _ _ => .inr rfl
    · rw [Store.move_of_ne_top hindex htop, Store.move_of_ne_top hindex htop, operandValue_enlarge]
      split <;> exact .inr rfl
  · rw [Store.move_of_not_isRegister hindex, Store.move_of_not_isRegister hindex]
    exact .inr rfl

theorem stringIndexOf_enlarge (s : Store) (room : Room) (here : Nat) (o : Operand) :
    (s.enlarge room).stringIndexOf here o = s.stringIndexOf here o := by
  cases o <;> rfl

theorem scales_pushStringOf (o : Operand) :
    Scales room (s.pushStringOf ctx o) ((s.enlarge room).pushStringOf ctx o) := by
  unfold Store.pushStringOf
  rw [stringIndexOf_enlarge]
  split
  · exact .inr rfl
  · split
    · exact .inr rfl
    · exact scales_push _

theorem scales_call (o : Operand) : Scales room (s.call ctx o) ((s.enlarge room).call ctx o) := by
  unfold Store.call Store.push
  cases hpush : s.stack.push (.int (Int64.ofNat ctx.after)) with
  | error e => exact .inl ⟨_, rfl, rfl⟩
  | ok stack =>
    have hpush' : (s.enlarge room).stack.push _ = _ := BoundedStack.push_enlarge room.stack hpush
    rw [hpush']
    exact .inr rfl

/-- What an entry is made into is the same with more room, unless a load goes past the memory. -/
theorem scales_unary {f : Context → Store → Value → Except Violation Value}
    (hf : ∀ ctx s, i.opcode.unary? ctx s = some (f ctx s)) (v : Value)
    (rest : BoundedStack Value) :
    Scales room (pushResult ctx { s with stack := rest } (f ctx s v))
      (pushResult ctx { s.enlarge room with stack := rest.enlarge room.stack }
        (f ctx (s.enlarge room) v)) := by
  apply scales_pushResult
  have hsmall := hf ctx s
  have hlarge := hf ctx (s.enlarge room)
  cases hop : i.opcode <;> rw [hop] at hsmall hlarge <;>
    simp only [Opcode.unary?, reduceCtorEq] at hsmall hlarge <;>
    rw [← Option.some.inj hsmall, ← Option.some.inj hlarge] <;> try exact .inr rfl
  case load =>
    rcases s.memory.read_enlarge room.memory v.asAddress with ⟨violation, hread, hlimit⟩ | hsame
    · left
      exact ⟨violation, congrArg (Except.map _) hread, hlimit⟩
    · exact .inr (congrArg (Except.map _) hsame)

/-- An instruction does with more room what it does with less, unless it hits a limit there. -/
theorem execute_scales : Scales room (execute ctx s i) (execute ctx (s.enlarge room) i) := by
  apply execute_elim_uniform (motive := fun e => Scales room (e ctx s) (e ctx (s.enlarge room)))
  case binary => exact fun f _ => scales_withTwo fun a b rest => scales_pushResult (.inr rfl)
  case unary => exact fun f hf => scales_withOne (scales_unary hf)
  case halt | idle | jmp => exact fun _ => .inr rfl
  case check =>
    intro _
    dsimp only
    split <;> exact .inr rfl
  case push =>
    intro _
    dsimp only
    rw [operandValue_enlarge]
    exact scales_pushResult (.inr rfl)
  case pop => exact fun _ => scales_withOne fun _ _ => .inr rfl
  case dup => exact fun _ => scales_withOne fun v _ => scales_push v
  case swap =>
    intro _
    dsimp only
    have hswap : (s.enlarge room).stack.swapWithTop? 1 = _ :=
      s.stack.swapWithTop?_enlarge room.stack 1
    rw [hswap]
    cases s.stack.swapWithTop? 1 with
    | none => exact scales_underflow 2
    | some stack => exact .inr rfl
  case indup =>
    exact fun _ => scales_atDepth (f := id) (fun _ => (Option.map_id_apply).symm) scales_push
  case inswap =>
    exact fun _ => scales_atDepth (s.stack.swapWithTop?_enlarge room.stack) fun _ => .inr rfl
  case mov => exact fun _ => scales_move _ _
  case string => exact fun _ => scales_pushStringOf _
  case store =>
    intro _
    apply scales_withTwo
    intro v address rest
    cases hwrite : s.memory.write address.asAddress (UInt8.ofNat v.asInt.toUInt64.toNat) with
    | error violation => exact .inl ⟨_, rfl, Memory.isLimit_of_write hwrite⟩
    | ok memory =>
      have hwrite' : (s.enlarge room).memory.write address.asAddress _ = _ :=
        Memory.write_enlarge room.memory hwrite
      rw [hwrite']
      exact .inr rfl
  case print =>
    intro _
    apply scales_withOne
    intro v rest
    split <;> exact .inr rfl
  case branch => exact fun _ _ => scales_withOne fun _ _ => .inr rfl
  case call => exact fun _ => scales_call _
  case ret => exact fun _ => scales_withOne fun _ _ => .inr rfl
  case native => exact fun _ _ => .inr rfl

/-! ### Runs with more room -/

namespace Machine

variable {m : Machine} {room : Room}

def enlarge (m : Machine) (room : Room) : Machine :=
  { m with
    config := { m.config with
      stackCapacity := m.config.stackCapacity + room.stack
      memorySize := m.config.memorySize + room.memory }
    store := m.store.enlarge room }

theorem checked_enlarge (m : Machine) (room : Room) :
    (m.enlarge room).checked = m.checked.enlarge room :=
  checked_comm (f := (enlarge · room)) rfl (fun _ => rfl) rfl

theorem retired_enlarge (m : Machine) (room : Room) (fetched : Fetched) (store : Store)
    (flow : Flow) :
    (m.enlarge room).retired fetched (store.enlarge room) flow =
      (m.retired fetched store flow).enlarge room := by
  cases flow <;> rfl

theorem effect_scales (m : Machine) (room : Room) (fetched : Fetched) :
    Effect.Scales room (m.effect fetched) ((m.enlarge room).effect fetched) := by
  cases fetched with
  | unknown after => exact .inr rfl
  | instruction i after => exact @execute_scales room (m.context after) m.store i

theorem cycle_enlarge (m : Machine) (room : Room) :
    m.cycle.HaltedOn (·.isLimit) ∨ (m.enlarge room).cycle = m.cycle.enlarge room := by
  rcases m.store.memory.fetch_enlarge room.memory m.pc with ⟨violation, hfetch, hlimit⟩ | hsame
  · left
    rw [cycle_of_unfetched hfetch]
    exact haltedOn_fail hlimit
  · have hsame' : (m.enlarge room).store.memory.fetch (m.enlarge room).pc =
        m.store.memory.fetch m.pc := hsame
    cases hfetch : m.store.memory.fetch m.pc with
    | error violation =>
      rw [cycle_of_unfetched hfetch, cycle_of_unfetched (hsame'.trans hfetch)]
      exact .inr rfl
    | ok fetched =>
      rcases m.effect_scales room fetched with ⟨failure, he, hlimit⟩ | he'
      · left
        rw [cycle_of_failed hfetch he]
        exact haltedOn_fail hlimit
      · right
        cases he : m.effect fetched with
        | error failure =>
          rw [he] at he'
          rw [cycle_of_failed hfetch he, cycle_of_failed (hsame'.trans hfetch) he']
          rfl
        | ok result =>
          obtain ⟨store, flow⟩ := result
          rw [he] at he'
          rw [cycle_of_retired hfetch he, cycle_of_retired (hsame'.trans hfetch) he',
            retired_enlarge, checked_enlarge]

theorem step_enlarge (m : Machine) (room : Room) (hrecheck : m.recheck = false) :
    m.step.HaltedOn (·.isLimit) ∨ (m.enlarge room).step = m.step.enlarge room :=
  step_together (R := fun a b => a.HaltedOn (·.isLimit) ∨ b = a.enlarge room) rfl hrecheck hrecheck
    (fun _ => m.begun.cycle_enlarge room) fun _ => .inr rfl

theorem steps_enlarge (m : Machine) (room : Room) (hrecheck : m.recheck = false) (n : Nat) :
    (m.steps n).HaltedOn (·.isLimit) ∨ (m.enlarge room).steps n = (m.steps n).enlarge room := by
  have hrelated := steps_related (R := fun a b => a.recheck = false ∧ b = a.enlarge room)
    (S := fun a _ => a.HaltedOn (·.isLimit)) ?_ (fun _ _ h => h.step) ⟨hrecheck, rfl⟩ n
  · exact hrelated.symm.imp_right And.right
  · rintro a _ ⟨ha, rfl⟩
    exact (a.step_enlarge room ha).symm.imp_left fun h => ⟨recheck_step_eq_false ha, h⟩

theorem initial_enlarge {p : Program} {config : Config} (h : p.image.length ≤ config.memorySize)
    (room : Room) :
    (initial p config).enlarge room = initial p { config with
      stackCapacity := config.stackCapacity + room.stack
      memorySize := config.memorySize + room.memory } := by
  have hmemory := Memory.ofImage_enlarge h room.memory
  unfold initial enlarge Store.enlarge
  rw [hmemory]
  rfl

/-- Two machines of one program, of which the second has a stack and a memory at least as large,
are the same after any number of steps but for this room, unless the first has halted because its
stack or its memory is too small: its memory holds the first bytes of the second one, and all the
others are zero. -/
theorem steps_agree_with_more_room {p : Program} {config : Config} {stackCapacity memorySize : Nat}
    (hstack : config.stackCapacity ≤ stackCapacity) (hmemory : config.memorySize ≤ memorySize)
    (hfit : p.image.length ≤ config.memorySize) :
    ∃ small large, ofProgram p config = .ok small ∧
      ofProgram p { config with stackCapacity, memorySize } = .ok large ∧
      ∀ n, (small.steps n).HaltedOn (·.isLimit) ∨
        (large.steps n = (small.steps n).enlarge
            ⟨stackCapacity - config.stackCapacity, memorySize - config.memorySize⟩ ∧
          (small.steps n).store.memory.size = config.memorySize ∧
          (large.steps n).store.memory.bytes.toList = (small.steps n).store.memory.bytes.toList ++
            List.replicate (memorySize - config.memorySize) 0) := by
  obtain ⟨moreStack, rfl⟩ := Nat.exists_eq_add_of_le hstack
  obtain ⟨moreMemory, rfl⟩ := Nat.exists_eq_add_of_le hmemory
  rw [Nat.add_sub_cancel_left, Nat.add_sub_cancel_left]
  refine ⟨initial p config, (initial p config).enlarge ⟨moreStack, moreMemory⟩,
    ofProgram_of_le hfit, ?_, fun n => ?_⟩
  · rw [initial_enlarge hfit]
    exact ofProgram_of_le (hfit.trans hmemory)
  · have hsteps := (initial p config).steps_enlarge ⟨moreStack, moreMemory⟩ rfl n
    refine hsteps.imp_right fun hsame => ⟨hsame, ?_, ?_⟩
    · rw [((initial p config).steps_keep n).memory_size]
      exact Memory.size_ofImage hfit
    · rw [hsame]
      exact Array.toList_append.trans (congrArg _ Array.toList_replicate)

private def pushTwice : Program :=
  ⟨#[.withOperand .push (.int 1), .withOperand .push (.int 2), .bare .halt], .empty, ⟨0, false⟩,
    by decide, by decide, by decide⟩

theorem steps_agree_with_more_room_pushTwice :
    ∃ small large,
      ofProgram pushTwice { Config.standard with stackCapacity := 1, memorySize := 21 } =
        .ok small ∧
      ofProgram pushTwice { Config.standard with stackCapacity := 4, memorySize := 24 } =
        .ok large ∧
      large.steps 1 = (small.steps 1).enlarge ⟨3, 3⟩ ∧
      (large.steps 1).store.memory.bytes.toList =
        (small.steps 1).store.memory.bytes.toList ++ [0, 0, 0] ∧
      (small.steps 2).HaltedOn (·.isLimit) ∧
      (large.steps 3).status = .haltedNominal ∧ (large.steps 3).store.stack.size = 2 := by
  obtain ⟨small, large, hsmall, hlarge, hagree⟩ :=
    @steps_agree_with_more_room pushTwice
      { Config.standard with stackCapacity := 1, memorySize := 21 } 4 24
      (by decide) (by decide) (by decide)
  obtain ⟨-, rfl⟩ := ofProgram_eq_ok hsmall
  obtain ⟨-, rfl⟩ := ofProgram_eq_ok hlarge
  obtain ⟨hsame, -, hbytes⟩ := (hagree 1).resolve_left fun h => absurd h.1 (by decide +kernel)
  exact ⟨_, _, hsmall, hlarge, hsame, hbytes,
    ⟨by decide +kernel, .stackOverflow 1, by decide +kernel, rfl⟩,
    by decide +kernel, by decide +kernel⟩

end Machine

end InvariantMachine

import Mathlib
import InvariantMachine.Code.Stored
import InvariantMachine.Proofs.Codec
import InvariantMachine.Proofs.Parts

/-!
# Reading stored programs back

The stored form of any parts, valid or not, is read as the program that the parts make, or refused
if they make none, whatever bytes follow it. The header, the instructions and the strings are
followed part by part. Only what no field of the format can hold stays out: too great a count or
length, and the register that stands for none.
-/

namespace InvariantMachine

namespace Loading

variable {α β : Type} {xs ys bs : List UInt8}

/-- Where the bytes stand next, the loading reads exactly them and returns what is asked for. -/
def Reads (loading : Loading α) (bs : List UInt8) (P : α → Prop) : Prop :=
  ∀ r : ByteReader, r.Faces bs → ∃ a, loading.run r = .ok (a, r.skip bs.length) ∧ P a

theorem reads_pure {a : α} {P : α → Prop} (h : P a) : Reads (pure a) [] P := by
  intro r _
  exact ⟨a, rfl, h⟩

theorem Reads.bind {first : Loading α} {next : α → Loading β} {P : α → Prop} {Q : β → Prop}
    (hfirst : Reads first xs P) (hnext : ∀ a, P a → Reads (next a) ys Q) :
    Reads (first >>= next) (xs ++ ys) Q := by
  intro r hr
  obtain ⟨a, hrun, ha⟩ := hfirst r hr.left
  obtain ⟨b, hrun', hb⟩ := hnext a ha _ hr.right
  refine ⟨b, ?_, hb⟩
  rw [StateT.run_bind, hrun, List.length_append, ← ByteReader.skip_skip]
  exact hrun'

theorem reads_decode {decoding : Decoding α} {P : α → Prop} (h : decoding.Reads bs P) :
    Reads (Stored.decode decoding) bs P := by
  intro r hr
  obtain ⟨a, hrun, ha⟩ := h r hr
  refine ⟨a, ?_, ha⟩
  change Stored.decode decoding r = _
  rw [Stored.decode, hrun]

/-- Where the bytes stand next, the loading comes to an outcome of those asked for. If this is a
value, exactly the bytes were read. -/
def Ends (loading : Loading α) (bs : List UInt8) (P : Except StoreError α → Prop) : Prop :=
  ∀ r : ByteReader, r.Faces bs →
    ∃ x, loading.run r = x.map (fun a => (a, r.skip bs.length)) ∧ P x

variable {first : Loading α} {next : α → Loading β} {P : Except StoreError α → Prop}
  {Q : Except StoreError β → Prop}

theorem ends_pure {a : α} (h : P (.ok a)) : Ends (pure a) [] P := by
  intro r _
  exact ⟨.ok a, rfl, h⟩

theorem ends_lift {x : Except StoreError α} (h : P x) : Ends (liftM x) [] P := by
  intro r _
  refine ⟨x, ?_, h⟩
  cases x <;> rfl

theorem Ends.bind (hfirst : Ends first xs P) (hok : ∀ a, P (.ok a) → Ends (next a) ys Q)
    (herror : ∀ e, P (.error e) → Q (.error e)) : Ends (first >>= next) (xs ++ ys) Q := by
  intro r hr
  obtain ⟨x, hrun, hx⟩ := hfirst r hr.left
  cases x with
  | error e =>
    refine ⟨.error e, ?_, herror e hx⟩
    rw [StateT.run_bind, hrun]
    rfl
  | ok a =>
    obtain ⟨y, hrun', hy⟩ := hok a hx _ hr.right
    refine ⟨y, ?_, hy⟩
    rw [StateT.run_bind, hrun, List.length_append, ← ByteReader.skip_skip]
    exact hrun'

theorem Reads.bind_ends {R : α → Prop} (hfirst : Reads first xs R)
    (hnext : ∀ a, R a → Ends (next a) ys Q) : Ends (first >>= next) (xs ++ ys) Q := by
  have hends : Ends first xs fun x => ∃ a, R a ∧ x = .ok a := by
    intro r hr
    obtain ⟨a, hrun, ha⟩ := hfirst r hr
    exact ⟨.ok a, hrun, a, ha, rfl⟩
  refine hends.bind ?_ ?_
  · rintro a ⟨_, ha, ⟨⟩⟩
    exact hnext a ha
  · rintro e ⟨_, -, ⟨⟩⟩

end Loading

/-! ### Instructions -/

namespace Instruction

theorem WellFormed.register_ne {i : Instruction} (hi : i.WellFormed) :
    i.register ≠ some noRegister := by
  cases hi with
  | @move r _ hr _ =>
    have hlt : r.toNat < registerCount := of_decide_eq_true hr
    rintro ⟨rfl⟩
    contradiction
  | bare _ | literal _ _ | target _ _ | stringRef _ _ => nofun

theorem register_stored {register : Option UInt8} (h : register ≠ some noRegister) :
    (if register.getD noRegister = noRegister then none else some (register.getD noRegister)) =
      register := by
  cases register with
  | none => rfl
  | some r =>
    have hne : r ≠ noRegister := fun hr => h (congrArg some hr)
    exact if_neg hne

end Instruction

namespace Stored

open Loading

theorem reads_loadInstruction {i : Instruction} (hi : i.register ≠ some noRegister) :
    Reads loadInstruction (instructionBytes i) (fun loaded => loaded.2 = i) := by
  rw [← List.nil_append (instructionBytes i)]
  apply (reads_decode Decoding.reads_position).bind
  intro offset _
  change Reads _ ([i.opcode.byte] ++ ([i.register.getD noRegister] ++ i.operand.toBytes)) _
  refine (reads_decode (Decoding.reads_byte _)).bind ?_
  rintro _ rfl
  rw [Opcode.ofByte?_byte]
  refine (reads_decode (Decoding.reads_byte _)).bind ?_
  rintro _ rfl
  rw [← List.append_nil i.operand.toBytes]
  refine (reads_decode i.operand.reads_decode).bind ?_
  rintro _ rfl
  refine reads_pure ?_
  rw [Instruction.register_stored hi]

theorem reads_loadInstructions {xs : List Instruction}
    (hxs : ∀ i ∈ xs, i.register ≠ some noRegister) :
    Reads (loadInstructions xs.length) (xs.flatMap instructionBytes)
      (fun loaded => loaded.map (·.2) = xs) := by
  induction xs with
  | nil => exact reads_pure rfl
  | cons i xs ih =>
    rw [List.forall_mem_cons] at hxs
    rw [List.flatMap_cons]
    apply (reads_loadInstruction hxs.1).bind
    intro first hfirst
    rw [← List.append_nil (xs.flatMap instructionBytes)]
    refine (ih hxs.2).bind fun rest hrest => reads_pure ?_
    rw [List.map_cons, hfirst, hrest]

/-! ### Strings -/

theorem utf8Text?_utf8Bytes (text : String) : utf8Text? (utf8Bytes text) = some text := by
  have hvalid : text.toUTF8.IsValidUTF8 := text.isValidUTF8
  exact dif_pos hvalid

theorem utf8Bytes_length (text : String) : (utf8Bytes text).length = text.utf8ByteSize := rfl

theorem ends_loadString {pool : StringPool} {text : String} (index : Nat)
    (hsize : text.utf8ByteSize < 256 ^ 4) :
    Ends (loadString index pool) (stringBytes text)
      (· = ((pool.intern text).map (·.2)).mapError .capacity) := by
  refine (reads_decode (Decoding.reads_natural hsize)).bind_ends ?_
  rintro _ rfl
  rw [← List.append_nil (utf8Bytes text), ← utf8Bytes_length]
  refine (reads_decode (Decoding.reads_bytes _)).bind_ends ?_
  rintro _ rfl
  simp only [utf8Text?_utf8Bytes]
  cases pool.intern text with
  | error cause => exact ends_lift rfl
  | ok r => exact ends_pure rfl

theorem ends_loadStrings {pool : StringPool} {texts : List String} (index : Nat)
    (hsizes : ∀ text ∈ texts, text.utf8ByteSize < 256 ^ 4) :
    Ends (loadStrings texts.length index pool) (texts.flatMap stringBytes)
      (· = (pool.internAll texts).mapError .capacity) := by
  induction texts generalizing pool index with
  | nil => exact ends_pure rfl
  | cons text texts ih =>
    rw [List.forall_mem_cons] at hsizes
    rw [List.flatMap_cons]
    refine (ends_loadString index hsizes.1).bind ?_ ?_
    · intro pool' h
      cases hintern : pool.intern text with
      | error cause =>
        rw [hintern] at h
        cases h
      | ok r =>
        rw [hintern] at h
        cases h
        rw [StringPool.internAll_of_ok hintern]
        exact ih (index + 1) hsizes.2
    · intro e h
      cases hintern : pool.intern text with
      | error cause =>
        rw [hintern] at h
        cases h
        rw [StringPool.internAll_of_error hintern]
        rfl
      | ok r =>
        rw [hintern] at h
        cases h

/-! ### The program -/

theorem pushLoaded_eq_ok_iff {p q : Program} {loaded : Nat × Instruction} :
    pushLoaded p loaded = .ok q ↔ p.push loaded.2 = .ok q := by
  unfold pushLoaded
  split
  · cases p.push loaded.2 <;> simp [Except.mapError]
  · rename_i hmalformed
    -- the shape was checked early for the sake of the error; pushing would refuse it as well
    constructor
    · intro h
      cases h
    · intro h
      have hvalid := (Program.push_eq_ok_iff.mp h).1
      exact absurd (p.parts_valid.withInstruction_iff.mp hvalid).2.1 hmalformed

theorem foldlM_pushLoaded_eq_ok_iff {p q : Program} {loaded : List (Nat × Instruction)} :
    loaded.foldlM pushLoaded p = .ok q ↔ (loaded.map (·.2)).foldlM Program.push p = .ok q := by
  induction loaded generalizing p with
  | nil =>
    constructor <;>
    · intro h
      cases h
      rfl
  | cons first loaded ih =>
    rw [List.foldlM_cons, List.map_cons, List.foldlM_cons]
    cases hpush : p.push first.2 with
    | error e =>
      have hnot : ∀ p', pushLoaded p first ≠ .ok p' := by
        intro p' h
        rw [pushLoaded_eq_ok_iff, hpush] at h
        cases h
      cases hloaded : pushLoaded p first with
      | error e' => simp [bind, Except.bind]
      | ok p' => exact absurd hloaded (hnot p')
    | ok p' =>
      rw [pushLoaded_eq_ok_iff.mpr hpush]
      exact ih

end Stored

namespace Parts

open Loading Stored

variable {parts : Parts} {p : Program}

/-- The parts, the flags and the offset of the entry point, field by field. -/
def bytesWith (parts : Parts) (flags : UInt8) (offset : UInt32) : List UInt8 :=
  magic ++ littleEndian 2 version ++ [flags] ++ littleEndian 4 offset.toNat ++
    littleEndian 4 parts.instructions.length ++ littleEndian 4 parts.strings.length ++
    parts.instructions.flatMap instructionBytes ++ parts.strings.flatMap stringBytes

def toBytes (parts : Parts) (entry : EntryPoint) : List UInt8 :=
  parts.bytesWith (if entry.declared then entryDeclaredFlag else 0) entry.offset

/-- Every field of the stored form holds what is written there. -/
structure Storable (parts : Parts) : Prop where
  register_ne : ∀ i ∈ parts.instructions, i.register ≠ some noRegister
  length_lt : parts.instructions.length < 2 ^ 32
  strings_lt : parts.strings.length < 2 ^ 32
  bytes_lt : ∀ text ∈ parts.strings, text.utf8ByteSize < 2 ^ 32

/-- The parts are made a program: first the pool, then the instructions over it. -/
def Makes (parts : Parts) (entry : EntryPoint) (p : Program) : Prop :=
  ∃ pool, StringPool.ofList parts.strings = .ok pool ∧
    Program.ofParts parts.instructions pool entry = .ok p

theorem makes_iff_valid {entry : EntryPoint} :
    parts.Makes entry p ↔ parts.Valid ∧ p.parts = parts ∧ p.entry = entry := by
  constructor
  · rintro ⟨pool, hpool, hp⟩
    obtain ⟨-, -, hlist⟩ := StringPool.internAll_eq_ok_iff.mp hpool
    have hparts : Parts.mk parts.instructions pool.toList = parts := congrArg _ hlist
    rw [Program.ofParts_eq_ok_iff, hparts] at hp
    exact hp
  · rintro ⟨hvalid, rfl, rfl⟩
    refine ⟨p.strings, StringPool.internAll_eq_ok_iff.mpr ⟨?_, ?_, rfl⟩, ?_⟩
    · exact (Nat.zero_add _).trans_le hvalid.strings_le
    · exact (Nat.zero_add _).trans_le hvalid.bytes_le
    · exact Program.ofParts_eq_ok_iff.mpr ⟨hvalid, rfl, rfl⟩

theorem makes_iff_of_loaded {pool : StringPool} {loaded : List (Nat × Instruction)}
    {entry : EntryPoint} (hpool : StringPool.ofList parts.strings = .ok pool)
    (hloaded : loaded.map (·.2) = parts.instructions) :
    parts.Makes entry p ↔
      ∃ q, loaded.foldlM pushLoaded (Program.withStrings pool) = .ok q ∧ q.setEntry entry = p := by
  have hparts : Program.ofParts parts.instructions pool entry = .ok p ↔
      ∃ q, loaded.foldlM pushLoaded (Program.withStrings pool) = .ok q ∧
        q.setEntry entry = p := by
    simp only [foldlM_pushLoaded_eq_ok_iff, hloaded, Program.ofParts, bind_eq_ok_iff]
    simp [pure, Except.pure]
  rw [← hparts]
  constructor
  · rintro ⟨pool', hpool', h⟩
    rw [hpool] at hpool'
    cases hpool'
    exact h
  · intro h
    exact ⟨pool, hpool, h⟩

theorem Storable.ends_load (h : parts.Storable) (flags : UInt8) (offset : UInt32) :
    Ends load (parts.bytesWith flags offset)
      (fun x => ∀ p, x = .ok p ↔ parts.Makes ⟨offset, flags &&& entryDeclaredFlag ≠ 0⟩ p) := by
  have hbytes : parts.bytesWith flags offset = magic ++ (littleEndian 2 version ++ ([flags] ++
      (littleEndian 4 offset.toNat ++ (littleEndian 4 parts.instructions.length ++
        (littleEndian 4 parts.strings.length ++ (parts.instructions.flatMap instructionBytes ++
          (parts.strings.flatMap stringBytes ++ ([] ++ [])))))))) := by
    simp only [bytesWith, List.append_assoc, List.append_nil]
  rw [hbytes]
  refine (reads_decode (Decoding.reads_bytes magic)).bind_ends ?_
  rintro _ rfl
  rw [if_neg (not_not.mpr rfl)]
  refine (reads_decode (Decoding.reads_natural (by decide))).bind_ends ?_
  rintro _ rfl
  rw [if_neg (not_not.mpr rfl)]
  refine (reads_decode (Decoding.reads_byte _)).bind_ends ?_
  rintro flags rfl
  refine (reads_decode (Decoding.reads_word32 _)).bind_ends ?_
  rintro offset rfl
  refine (reads_decode (Decoding.reads_natural h.length_lt)).bind_ends ?_
  rintro _ rfl
  refine (reads_decode (Decoding.reads_natural h.strings_lt)).bind_ends ?_
  rintro _ rfl
  refine (reads_loadInstructions h.register_ne).bind_ends ?_
  intro loaded hloaded
  refine (ends_loadStrings 0 h.bytes_lt).bind ?_ ?_
  · intro pool hpool
    have hmakes := fun p => @makes_iff_of_loaded parts p pool loaded
      ⟨offset, flags &&& entryDeclaredFlag ≠ 0⟩
      (mapError_eq_ok_iff.mp hpool.symm) hloaded
    refine (ends_lift (P := (· = loaded.foldlM pushLoaded (Program.withStrings pool))) rfl).bind
      ?_ ?_
    · intro q hq
      refine ends_pure fun p => ?_
      rw [hmakes, ← hq]
      simp
    · intro e he p
      rw [hmakes, ← he]
      simp
  · intro e hpool p
    have hmakes : ¬parts.Makes ⟨offset, flags &&& entryDeclaredFlag ≠ 0⟩ p := by
      rintro ⟨pool, hofList, -⟩
      have hall : StringPool.empty.internAll parts.strings = .ok pool := hofList
      rw [hall] at hpool
      cases hpool
    exact ⟨nofun, fun h => absurd h hmakes⟩

/-- The stored form of parts is read as the program that they make. -/
theorem Storable.ends_load_toBytes (h : parts.Storable) (entry : EntryPoint) :
    Ends load (parts.toBytes entry) (fun x => ∀ p, x = .ok p ↔ parts.Makes entry p) := by
  obtain ⟨offset, declared⟩ := entry
  have hdeclared : decide ((if declared then entryDeclaredFlag else 0) &&& entryDeclaredFlag ≠ 0) =
      declared := by
    cases declared <;> decide
  have hends := h.ends_load (if declared then entryDeclaredFlag else 0) offset
  rw [hdeclared] at hends
  exact hends

end Parts

namespace Program

theorem parts_makes (p : Program) : p.parts.Makes p.entry p :=
  Parts.makes_iff_valid.mpr ⟨p.parts_valid, rfl, rfl⟩

theorem parts_storable (p : Program) : p.parts.Storable where
  register_ne i hi :=
    ((Instruction.isWellFormed_iff i).mp (p.parts_valid.wellFormed i hi)).register_ne
  length_lt := p.parts_valid.length_le.trans_lt (by decide)
  strings_lt := p.parts_valid.strings_le.trans_lt (by decide)
  bytes_lt text htext := by
    have hle := utf8ByteSize_le_totalBytes htext
    have hbytes := p.parts_valid.bytes_le
    omega

theorem ofBytes_of_ends {bs : List UInt8} {P : Except StoreError Program → Prop}
    (h : Loading.Ends Stored.load bs P) (t : List UInt8) : P (ofBytes (bs ++ t)) := by
  obtain ⟨x, hrun, hx⟩ := h _ (ByteReader.faces_ofList bs t)
  have hload : ofBytes (bs ++ t) = x := by
    rw [ofBytes, hrun]
    cases x <;> rfl
  rw [hload]
  exact hx

end Program

theorem Stored.reads_load (p : Program) : Loading.Reads load p.toBytes (· = p) := by
  intro r hr
  obtain ⟨x, hrun, hx⟩ := p.parts_storable.ends_load_toBytes p.entry r hr
  obtain rfl := (hx p).mpr p.parts_makes
  exact ⟨p, hrun, rfl⟩

/-- The stored form of a program, whatever bytes follow it, reads back as the program: the same
instructions with the same words of floats, the same pool and the same entry point. -/
theorem Program.ofBytes_toBytes_append (p : Program) (t : List UInt8) :
    ofBytes (p.toBytes ++ t) = .ok p := by
  obtain ⟨q, hrun, rfl⟩ := Stored.reads_load p _ (ByteReader.faces_ofList p.toBytes t)
  rw [ofBytes, hrun]
  rfl

end InvariantMachine

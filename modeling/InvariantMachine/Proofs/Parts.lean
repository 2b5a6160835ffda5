import Mathlib
import InvariantMachine.Code.Program

/-!
# Parts of programs

A program is made of a list of instructions and a list of strings, and the two lists determine it
but for its entry point. Not all lists are fit to be parts. A step that builds a program is refused
exactly when the lists that it would lead to are unfit.
-/

namespace InvariantMachine

theorem bind_eq_ok_iff {ε α β : Type} {x : Except ε α} {f : α → Except ε β} {b : β} :
    (x >>= f) = .ok b ↔ ∃ a, x = .ok a ∧ f a = .ok b := by
  cases x <;> simp [bind, Except.bind]

theorem mapError_eq_ok_iff {ε ε' α : Type} {x : Except ε α} {f : ε → ε'} {a : α} :
    x.mapError f = .ok a ↔ x = .ok a := by
  cases x <;> simp [Except.mapError]

/-- The instruction refers to no string, or to one of the first `count`. -/
def Instruction.RefersBelow (i : Instruction) (count : Nat) : Prop :=
  ∀ k, i.operand = .stringIndex k → k.toNat < count

theorem Instruction.dangling?_eq_none_iff {i : Instruction} {pool : StringPool} :
    i.dangling? pool = none ↔ i.RefersBelow pool.size := by
  unfold dangling? RefersBelow
  split
  · rename_i k hk
    simp [hk]
  · rename_i hk
    simp only [true_iff]
    intro k h
    exact absurd h (hk k)

instance (i : Instruction) (count : Nat) : Decidable (i.RefersBelow count) :=
  match h : i.operand with
  | .stringIndex k => decidable_of_iff (k.toNat < count) (by simp [Instruction.RefersBelow, h])
  | .none | .int _ | .float _ | .char _ | .register _ | .top =>
    .isTrue (by simp [Instruction.RefersBelow, h])

theorem utf8ByteSize_le_totalBytes {text : String} {texts : List String} (h : text ∈ texts) :
    text.utf8ByteSize ≤ totalBytes texts := by
  induction h with
  | head rest => exact Nat.le_add_right _ _
  | tail first _ ih => exact ih.trans (Nat.le_add_left _ _)

structure Parts where
  instructions : List Instruction
  strings : List String
deriving DecidableEq

namespace Parts

/-- The lists are fit to be the parts of a program. -/
structure Valid (parts : Parts) : Prop where
  length_le : parts.instructions.length ≤ 1024
  wellFormed : ∀ i ∈ parts.instructions, i.isWellFormed
  resolved : ∀ i ∈ parts.instructions, i.RefersBelow parts.strings.length
  strings_le : parts.strings.length ≤ 4096
  bytes_le : totalBytes parts.strings ≤ 65536

instance (parts : Parts) : Decidable parts.Valid :=
  decidable_of_iff
    (parts.instructions.length ≤ 1024 ∧ (∀ i ∈ parts.instructions, i.isWellFormed) ∧
      (∀ i ∈ parts.instructions, i.RefersBelow parts.strings.length) ∧
      parts.strings.length ≤ 4096 ∧ totalBytes parts.strings ≤ 65536)
    ⟨fun ⟨h₁, h₂, h₃, h₄, h₅⟩ => ⟨h₁, h₂, h₃, h₄, h₅⟩,
      fun ⟨h₁, h₂, h₃, h₄, h₅⟩ => ⟨h₁, h₂, h₃, h₄, h₅⟩⟩

def withInstructions (parts : Parts) (xs : List Instruction) : Parts :=
  { parts with instructions := parts.instructions ++ xs }

def withString (parts : Parts) (text : String) : Parts :=
  { parts with strings := parts.strings ++ [text] }

variable {parts : Parts} {xs ys : List Instruction} {i : Instruction}

@[simp] theorem withInstructions_nil (parts : Parts) : parts.withInstructions [] = parts := by
  simp [withInstructions]

@[simp] theorem withInstructions_withInstructions (parts : Parts) (xs ys : List Instruction) :
    (parts.withInstructions xs).withInstructions ys = parts.withInstructions (xs ++ ys) := by
  simp [withInstructions]

theorem Valid.of_withInstructions (h : (parts.withInstructions (xs ++ ys)).Valid) :
    (parts.withInstructions xs).Valid := by
  have hlen := h.length_le
  have hsub : ∀ i ∈ parts.instructions ++ xs, i ∈ parts.instructions ++ (xs ++ ys) := by
    intro i hi
    rw [← List.append_assoc]
    exact List.mem_append_left ys hi
  simp only [withInstructions, List.length_append] at hlen
  refine ⟨?_, fun i hi => h.wellFormed i (hsub i hi), fun i hi => h.resolved i (hsub i hi),
    h.strings_le, h.bytes_le⟩
  simp only [withInstructions, List.length_append]
  omega

theorem Valid.withInstruction_iff (h : parts.Valid) :
    (parts.withInstructions [i]).Valid ↔
      parts.instructions.length < 1024 ∧ i.isWellFormed ∧ i.RefersBelow parts.strings.length := by
  constructor
  · intro hi
    have hlen := hi.length_le
    have hmem : i ∈ parts.instructions ++ [i] := by simp
    simp only [withInstructions, List.length_append, List.length_singleton] at hlen
    exact ⟨by omega, hi.wellFormed i hmem, hi.resolved i hmem⟩
  · rintro ⟨hlen, hwell, hresolved⟩
    have hall {P : Instruction → Prop} (hold : ∀ j ∈ parts.instructions, P j) (hnew : P i) :
        ∀ j ∈ parts.instructions ++ [i], P j := by
      intro j hj
      rcases List.mem_append.mp hj with hj | hj
      · exact hold j hj
      · rw [List.mem_singleton.mp hj]
        exact hnew
    refine ⟨?_, hall h.wellFormed hwell, hall h.resolved hresolved, h.strings_le, h.bytes_le⟩
    simp only [withInstructions, List.length_append, List.length_singleton]
    omega

theorem Valid.withString_iff {text : String} (h : parts.Valid) :
    (parts.withString text).Valid ↔
      parts.strings.length < 4096 ∧ totalBytes parts.strings + text.utf8ByteSize ≤ 65536 := by
  have hbytes : totalBytes (parts.strings ++ [text]) =
      totalBytes parts.strings + text.utf8ByteSize := by
    rw [totalBytes_append]
    rfl
  constructor
  · intro hi
    have hlen := hi.strings_le
    have hle := hi.bytes_le
    simp only [withString, List.length_append, List.length_singleton, hbytes] at hlen hle
    exact ⟨by omega, hle⟩
  · rintro ⟨hlen, hle⟩
    refine ⟨h.length_le, h.wellFormed, ?_, ?_, ?_⟩
    · intro i hi k hk
      have hold := h.resolved i hi k hk
      simp only [withString, List.length_append, List.length_singleton]
      omega
    · simp only [withString, List.length_append, List.length_singleton]
      omega
    · simp only [withString, hbytes]
      exact hle

end Parts

namespace StringPool

variable {pool pool' : StringPool} {text : String} {texts : List String} {k : UInt32}

theorem totalBytes_toList_le (pool : StringPool) : totalBytes pool.toList ≤ maxStringBytes :=
  pool.byteSize_eq ▸ pool.byteSize_le

theorem intern_eq_ok (h : pool.intern text = .ok (k, pool')) :
    pool.size < maxStrings ∧ totalBytes pool.toList + text.utf8ByteSize ≤ maxStringBytes ∧
      k = UInt32.ofNat pool.size ∧ pool'.toList = pool.toList ++ [text] := by
  unfold intern at h
  split at h
  · cases h
  · rename_i hcount
    split at h
    · cases h
    · rename_i hbytes
      cases h
      rw [toList, ← pool.byteSize_eq]
      exact ⟨Nat.not_le.mp hcount, Nat.not_lt.mp hbytes, rfl, Array.toList_push⟩

theorem exists_intern (hcount : pool.size < maxStrings)
    (hbytes : totalBytes pool.toList + text.utf8ByteSize ≤ maxStringBytes) :
    ∃ k pool', pool.intern text = .ok (k, pool') := by
  rw [toList, ← pool.byteSize_eq] at hbytes
  have hcount' : ¬maxStrings ≤ pool.strings.size := Nat.not_le.mpr hcount
  rw [intern, dif_neg hcount', dif_neg (Nat.not_lt.mpr hbytes)]
  exact ⟨_, _, rfl⟩

def internAll (pool : StringPool) (texts : List String) : Except CapacityExceeded StringPool :=
  texts.foldlM (fun pool text => do return (← pool.intern text).2) pool

theorem internAll_of_ok (h : pool.intern text = .ok (k, pool')) :
    pool.internAll (text :: texts) = pool'.internAll texts := by
  rw [internAll, List.foldlM_cons, h]
  rfl

theorem internAll_of_error {cause : CapacityExceeded} (h : pool.intern text = .error cause) :
    pool.internAll (text :: texts) = .error cause := by
  rw [internAll, List.foldlM_cons, h]
  rfl

theorem internAll_eq_ok_iff :
    pool.internAll texts = .ok pool' ↔
      pool.size + texts.length ≤ maxStrings ∧
        totalBytes pool.toList + totalBytes texts ≤ maxStringBytes ∧
        pool'.toList = pool.toList ++ texts := by
  induction texts generalizing pool with
  | nil =>
    have hsize := pool.size_le
    have hbytes := pool.totalBytes_toList_le
    have hnil : pool.internAll [] = .ok pool := rfl
    rw [hnil, List.append_nil]
    constructor
    · intro h
      cases h
      exact ⟨hsize, hbytes, rfl⟩
    · rintro ⟨-, -, h⟩
      rw [ext (Array.toList_inj.mp h)]
  | cons text texts ih =>
    rw [List.length_cons, totalBytes]
    cases h : pool.intern text with
    | error cause =>
      rw [internAll_of_error h]
      constructor
      · intro hok
        cases hok
      · rintro ⟨hsize, hbytes, -⟩
        obtain ⟨k, pool', hok⟩ := @exists_intern pool text (by omega) (by omega)
        rw [h] at hok
        cases hok
    | ok r =>
      obtain ⟨k, pool₁⟩ := r
      obtain ⟨-, -, -, hlist⟩ := intern_eq_ok h
      have hsize : pool₁.size = pool.size + 1 := by
        have hlen := congrArg List.length hlist
        simpa [size, toList] using hlen
      rw [internAll_of_ok h, ih, hlist, hsize, totalBytes_append, totalBytes, totalBytes]
      simp only [List.append_assoc, List.singleton_append]
      constructor <;> rintro ⟨h₁, h₂, h₃⟩ <;> exact ⟨by omega, by omega, h₃⟩

end StringPool

namespace Program

variable {p q : Program} {i : Instruction} {xs : List Instruction} {text : String} {k : UInt32}

def parts (p : Program) : Parts := ⟨p.instructions.toList, p.strings.toList⟩

theorem parts_valid (p : Program) : p.parts.Valid where
  length_le := p.size_le
  wellFormed i hi := p.wellFormed i (Array.mem_toList_iff.mp hi)
  resolved i hi :=
    Instruction.dangling?_eq_none_iff.mp (p.resolved i (Array.mem_toList_iff.mp hi))
  strings_le := p.strings.size_le
  bytes_le := p.strings.totalBytes_toList_le

theorem exists_parts {parts : Parts} (h : parts.Valid) (entry : EntryPoint) :
    ∃ p : Program, p.parts = parts ∧ p.entry = entry := by
  have hsize : parts.strings.toArray.size ≤ maxStrings := h.strings_le
  let pool : StringPool := ⟨parts.strings.toArray, totalBytes parts.strings, rfl, hsize, h.bytes_le⟩
  refine ⟨⟨parts.instructions.toArray, pool, entry, h.length_le, ?_, ?_⟩, rfl, rfl⟩
  · intro i hi
    exact h.wellFormed i (List.mem_toArray.mp hi)
  · intro i hi
    exact Instruction.dangling?_eq_none_iff.mpr (h.resolved i (List.mem_toArray.mp hi))

theorem ext_parts (hparts : p.parts = q.parts) (hentry : p.entry = q.entry) : p = q := by
  simp only [parts, Parts.mk.injEq] at hparts
  exact ext (Array.toList_inj.mp hparts.1)
    (StringPool.ext (Array.toList_inj.mp hparts.2)) hentry

theorem push_eq_ok (h : p.push i = .ok q) :
    q.parts = p.parts.withInstructions [i] ∧ q.strings = p.strings ∧ q.entry = p.entry := by
  unfold push at h
  split at h
  · cases h
  · split at h
    · split at h
      · cases h
      · cases h
        refine ⟨?_, rfl, rfl⟩
        simp [parts, Parts.withInstructions]
    · cases h

theorem exists_push (h : (p.parts.withInstructions [i]).Valid) : ∃ q, p.push i = .ok q := by
  obtain ⟨hlen, hwell, hresolved⟩ := p.parts_valid.withInstruction_iff.mp h
  have hsize : ¬maxProgramSize ≤ p.instructions.size := Nat.not_le.mpr hlen
  rw [push, dif_neg hsize, dif_pos hwell]
  split
  · rename_i k hk
    rw [Instruction.dangling?_eq_none_iff.mpr hresolved] at hk
    cases hk
  · exact ⟨_, rfl⟩

theorem push_eq_ok_iff :
    p.push i = .ok q ↔ (p.parts.withInstructions [i]).Valid ∧
      q.parts = p.parts.withInstructions [i] ∧ q.entry = p.entry := by
  constructor
  · intro h
    obtain ⟨hparts, -, hentry⟩ := push_eq_ok h
    exact ⟨hparts ▸ q.parts_valid, hparts, hentry⟩
  · rintro ⟨hvalid, hparts, hentry⟩
    obtain ⟨q', hq'⟩ := exists_push hvalid
    obtain ⟨hparts', -, hentry'⟩ := push_eq_ok hq'
    rw [hq', ext_parts (hparts'.trans hparts.symm) (hentry'.trans hentry.symm)]

theorem foldlM_push_eq_ok_iff :
    xs.foldlM push p = .ok q ↔ (p.parts.withInstructions xs).Valid ∧
      q.parts = p.parts.withInstructions xs ∧ q.entry = p.entry := by
  induction xs generalizing p with
  | nil =>
    rw [Parts.withInstructions_nil]
    constructor
    · intro h
      cases h
      exact ⟨q.parts_valid, rfl, rfl⟩
    · rintro ⟨-, hparts, hentry⟩
      rw [ext_parts hparts hentry]
      rfl
  | cons i xs ih =>
    have hcons : p.parts.withInstructions (i :: xs) =
        (p.parts.withInstructions [i]).withInstructions xs := by simp
    rw [List.foldlM_cons, hcons]
    cases h : p.push i with
    | error e =>
      constructor
      · intro hok
        cases hok
      · rintro ⟨hvalid, -, -⟩
        rw [Parts.withInstructions_withInstructions] at hvalid
        obtain ⟨q', hq'⟩ := exists_push hvalid.of_withInstructions
        rw [h] at hq'
        cases hq'
    | ok p' =>
      obtain ⟨hparts, -, hentry⟩ := push_eq_ok h
      rw [← hparts, ← hentry]
      exact ih

theorem intern_eq_ok (h : p.intern text = .ok (k, q)) :
    k = UInt32.ofNat p.strings.size ∧ q.parts = p.parts.withString text ∧
      q.entry = p.entry := by
  unfold intern at h
  split at h
  · cases h
  · rename_i hpool
    obtain ⟨-, -, hk, hlist⟩ := StringPool.intern_eq_ok hpool
    cases h
    refine ⟨hk, ?_, rfl⟩
    simp only [parts, hlist, Parts.withString]

theorem exists_intern (h : (p.parts.withString text).Valid) :
    ∃ k q, p.intern text = .ok (k, q) := by
  obtain ⟨hcount, hbytes⟩ := p.parts_valid.withString_iff.mp h
  obtain ⟨k, pool, hpool⟩ := @StringPool.exists_intern p.strings text hcount hbytes
  unfold intern
  split
  · rename_i hp
    rw [hpool] at hp
    cases hp
  · exact ⟨_, _, rfl⟩

theorem intern_eq_ok_iff :
    p.intern text = .ok (k, q) ↔ (p.parts.withString text).Valid ∧
      k = UInt32.ofNat p.strings.size ∧ q.parts = p.parts.withString text ∧
      q.entry = p.entry := by
  constructor
  · intro h
    obtain ⟨hk, hparts, hentry⟩ := intern_eq_ok h
    exact ⟨hparts ▸ q.parts_valid, hk, hparts, hentry⟩
  · rintro ⟨hvalid, hk, hparts, hentry⟩
    obtain ⟨k', q', hq'⟩ := exists_intern hvalid
    obtain ⟨hk', hparts', hentry'⟩ := intern_eq_ok hq'
    rw [hq', hk, hk', ext_parts (hparts'.trans hparts.symm) (hentry'.trans hentry.symm)]

/-- An instruction that fits its opcode and the pool is refused only by a full program. -/
theorem push_eq_error {cause : ProgramError} (hwell : i.isWellFormed)
    (hrefers : i.RefersBelow p.parts.strings.length) (h : p.push i = .error cause) :
    p.parts.instructions.length = 1024 ∧ cause = .capacity ⟨.program, 1024⟩ := by
  have hfull : ¬p.parts.instructions.length < 1024 := by
    intro hlength
    obtain ⟨q, hq⟩ := exists_push
      (p.parts_valid.withInstruction_iff.mpr ⟨hlength, hwell, hrefers⟩)
    rw [hq] at h
    cases h
  have hsize : p.parts.instructions.length = 1024 :=
    p.parts_valid.length_le.antisymm (Nat.not_lt.mp hfull)
  have hle : maxProgramSize ≤ p.instructions.size := hsize.ge
  rw [push, dif_pos hle] at h
  cases h
  exact ⟨hsize, rfl⟩

theorem refersBelow_of_intern (h : p.intern text = .ok (k, q)) (op : Opcode) :
    (Instruction.withOperand op (.stringIndex k)).RefersBelow q.parts.strings.length := by
  obtain ⟨hvalid, rfl, hparts, -⟩ := intern_eq_ok_iff.mp h
  intro k hk
  cases hk
  have hsize : p.parts.strings.length = p.strings.size := rfl
  have hcount := (p.parts_valid.withString_iff.mp hvalid).1
  rw [hparts, Parts.withString, List.length_append, List.length_singleton, hsize,
    UInt32.toNat_ofNat']
  omega

theorem declareEntry?_eq_some_iff {offset : UInt32} :
    p.declareEntry? offset = some q ↔
      p.entry.declared = false ∧ q = p.setEntry ⟨offset, true⟩ := by
  unfold declareEntry?
  split
  · rename_i hdeclared
    simp [hdeclared]
  · rename_i hundeclared
    simp [hundeclared, eq_comm]

theorem ofParts_eq_ok_iff {pool : StringPool} {entry : EntryPoint} :
    ofParts xs pool entry = .ok q ↔
      (Parts.mk xs pool.toList).Valid ∧ q.parts = ⟨xs, pool.toList⟩ ∧ q.entry = entry := by
  have hparts : (withStrings pool).parts.withInstructions xs = ⟨xs, pool.toList⟩ := rfl
  constructor
  · intro h
    unfold ofParts at h
    cases hfold : xs.foldlM push (withStrings pool) with
    | error e =>
      rw [hfold] at h
      cases h
    | ok q' =>
      rw [hfold] at h
      cases h
      obtain ⟨hvalid, hq', -⟩ := foldlM_push_eq_ok_iff.mp hfold
      rw [hparts] at hvalid hq'
      exact ⟨hvalid, hq', rfl⟩
  · rintro ⟨hvalid, hq, rfl⟩
    have hfold : xs.foldlM push (withStrings pool) = .ok (q.setEntry ⟨0, false⟩) :=
      foldlM_push_eq_ok_iff.mpr ⟨hparts ▸ hvalid, hparts ▸ hq, rfl⟩
    rw [ofParts, hfold]
    rfl

end Program

end InvariantMachine

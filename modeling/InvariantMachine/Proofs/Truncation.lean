import Mathlib
import InvariantMachine.Proofs.Enlargement
import InvariantMachine.Proofs.StoredPrograms

/-!
# Stored programs that are cut

A reading that does not run out of bytes comes to the same with more bytes behind. What is cut off
a stored program can therefore only be missed: over the bytes that are left, no check fails that
does not fail over all of them, and no program is complete before the last byte.
-/

namespace InvariantMachine

/-! ### Decodings inside their bytes -/

namespace Decoding

variable {α β : Type} {decoding first : Decoding α} {next : α → Decoding β}

/-- A decoding ended inside the bytes of the reader that it began with, and what it missed, if
anything, it missed there. -/
structure EndsInside (r : ByteReader) (result : Except DecodeFault α × ByteReader) : Prop where
  bytes_eq : result.2.bytes = r.bytes
  position_le : result.2.position ≤ r.bytes.size
  truncated_le : ∀ offset, result.1 = .error (.truncated offset) → offset ≤ r.bytes.size

/-- A decoding that begins inside its bytes ends inside them. -/
def StaysInside (decoding : Decoding α) : Prop :=
  ∀ r : ByteReader, r.position ≤ r.bytes.size → EndsInside r (decoding.run r)

theorem staysInside_pure (a : α) : (pure a : Decoding α).StaysInside :=
  fun _ hr => ⟨rfl, hr, nofun⟩

theorem staysInside_invalidTag (tag : UInt8) (start : Nat) :
    (fail (.invalidTag tag start) : Decoding α).StaysInside :=
  fun _ hr => ⟨rfl, hr, nofun⟩

theorem StaysInside.bind (hfirst : first.StaysInside) (hnext : ∀ a, (next a).StaysInside) :
    (first >>= next).StaysInside := by
  intro r hr
  have hends := hfirst r hr
  rw [run_bind]
  generalize first.run r = result at hends ⊢
  obtain ⟨outcome, r'⟩ := result
  cases outcome with
  | error fault =>
    constructor
    · exact hends.bytes_eq
    · exact hends.position_le
    · intro offset htruncated
      apply hends.truncated_le
      exact congrArg Except.error (Except.error.inj htruncated)
  | ok a =>
    have hbytes : r'.bytes = r.bytes := hends.bytes_eq
    have hends' : EndsInside r' ((next a).run r') := by
      apply hnext a
      rw [hbytes]
      exact hends.position_le
    constructor
    · exact hends'.bytes_eq.trans hbytes
    · rw [← hbytes]
      exact hends'.position_le
    · rw [← hbytes]
      exact hends'.truncated_le

theorem StaysInside.map {f : α → β} (h : decoding.StaysInside) :
    (do return f (← decoding)).StaysInside :=
  h.bind fun a => staysInside_pure (f a)

theorem staysInside_position : position.StaysInside := fun _ hr => ⟨rfl, hr, nofun⟩

theorem staysInside_bytes (count : Nat) : (bytes count).StaysInside := by
  intro r hr
  rcases Nat.lt_or_ge r.bytes.size (r.position + count) with hlt | hle
  · rw [run_bytes_of_lt hlt]
    constructor
    · rfl
    · exact hr
    · intro offset htruncated
      cases htruncated
      exact hr
  · rw [run_bytes_of_le hle]
    exact ⟨rfl, hle, nofun⟩

theorem staysInside_natural (width : Nat) : (natural width).StaysInside :=
  (staysInside_bytes width).map

theorem staysInside_byte : byte.StaysInside := (staysInside_natural 1).map

theorem staysInside_word32 : word32.StaysInside := (staysInside_natural 4).map

theorem staysInside_word64 : word64.StaysInside := (staysInside_natural 8).map

end Decoding

theorem Operand.staysInside_decode : decode.StaysInside := by
  apply Decoding.staysInside_position.bind
  intro start
  apply Decoding.staysInside_byte.bind
  intro tag
  split
  · exact Decoding.staysInside_pure _
  · exact Decoding.staysInside_word64.map
  · exact Decoding.staysInside_word64.map
  · apply Decoding.staysInside_word32.bind
    intro w
    split
    · exact Decoding.staysInside_pure _
    · exact Decoding.staysInside_invalidTag _ _
  · exact Decoding.staysInside_byte.map
  · exact Decoding.staysInside_word32.map
  · exact Decoding.staysInside_pure _
  · exact Decoding.staysInside_invalidTag _ _

/-! ### Loadings over cut bytes -/

namespace Loading

variable {α β : Type} {first : Loading α} {next : α → Loading β} {r r' : ByteReader}
  {more : Array UInt8}

/-- What a loading comes to over cut bytes, next to what it comes to with the rest behind them. It
runs out of bytes, or comes to the same. -/
inductive CutShort (r : ByteReader) (more : Array UInt8) :
    (cut whole : Except StoreError (α × ByteReader)) → Prop
  | truncated {offset : Nat} {whole : Except StoreError (α × ByteReader)}
      (offset_le : offset ≤ r.bytes.size) : CutShort r more (.error (.truncated offset)) whole
  | refused (e : StoreError) : CutShort r more (.error e) (.error e)
  | read {a : α} {r' : ByteReader} (bytes_eq : r'.bytes = r.bytes)
      (position_le : r'.position ≤ r.bytes.size) :
      CutShort r more (.ok (a, r')) (.ok (a, r'.extend more))

/-- Over cut bytes, the loading runs out of bytes or comes to what it comes to over all of them. -/
def Incremental (loading : Loading α) : Prop :=
  ∀ (r : ByteReader) (more : Array UInt8), r.position ≤ r.bytes.size →
    CutShort r more (loading.run r) (loading.run (r.extend more))

theorem CutShort.of_bytes_eq {cut whole : Except StoreError (α × ByteReader)}
    (h : CutShort r' more cut whole) (hbytes : r'.bytes = r.bytes) : CutShort r more cut whole := by
  cases h with
  | truncated hle =>
    rw [hbytes] at hle
    exact .truncated hle
  | refused e => exact .refused e
  | read hbytes' hle =>
    rw [hbytes] at hle
    exact .read (hbytes'.trans hbytes) hle

theorem incremental_pure (a : α) : Incremental (pure a) := fun _ _ hr => .read rfl hr

theorem incremental_throw (e : StoreError) : Incremental (throw e : Loading α) :=
  fun _ _ _ => .refused e

theorem incremental_lift (x : Except StoreError α) : Incremental (liftM x) := by
  cases x with
  | error e => exact fun _ _ _ => .refused e
  | ok a => exact incremental_pure a

theorem Incremental.bind (hfirst : Incremental first) (hnext : ∀ a, Incremental (next a)) :
    Incremental (first >>= next) := by
  intro r more hr
  have hcut := hfirst r more hr
  rw [StateT.run_bind, StateT.run_bind]
  generalize first.run r = cut at hcut ⊢
  generalize first.run (r.extend more) = whole at hcut ⊢
  cases hcut with
  | truncated hle => exact .truncated hle
  | refused e => exact .refused e
  | @read a r' hbytes hle =>
    have hcut' : CutShort r' more ((next a).run r') ((next a).run (r'.extend more)) := by
      apply hnext a
      rw [hbytes]
      exact hle
    exact hcut'.of_bytes_eq hbytes

theorem incremental_decode {decoding : Decoding α} (hstable : decoding.Stable)
    (hinside : decoding.StaysInside) : Incremental (Stored.decode decoding) := by
  intro r more hr
  have hends := hinside r hr
  have hmore := hstable r more
  change CutShort r more (Stored.decode decoding r) (Stored.decode decoding (r.extend more))
  unfold Stored.decode
  generalize decoding.run r = result at hends hmore ⊢
  obtain ⟨outcome, r'⟩ := result
  rcases hmore with ⟨offset, htruncated⟩ | hsame
  · obtain rfl : outcome = .error (.truncated offset) := htruncated
    exact .truncated (hends.truncated_le offset rfl)
  · rw [hsame]
    cases outcome with
    | error fault => exact .refused (.ofFault fault)
    | ok a => exact .read hends.bytes_eq hends.position_le

theorem incremental_natural (width : Nat) : Incremental (Stored.decode (.natural width)) :=
  incremental_decode (Decoding.stable_natural width) (Decoding.staysInside_natural width)

theorem incremental_bytes (count : Nat) : Incremental (Stored.decode (.bytes count)) :=
  incremental_decode (Decoding.stable_bytes count) (Decoding.staysInside_bytes count)

theorem incremental_byte : Incremental (Stored.decode .byte) :=
  incremental_decode Decoding.stable_byte Decoding.staysInside_byte

end Loading

namespace Stored

open Loading

theorem incremental_loadInstruction : Incremental loadInstruction := by
  apply (incremental_decode Decoding.stable_position Decoding.staysInside_position).bind
  intro offset
  apply incremental_byte.bind
  intro b
  split
  · exact incremental_throw _
  · apply incremental_byte.bind
    intro register
    apply (incremental_decode Operand.stable_decode Operand.staysInside_decode).bind
    intro operand
    exact incremental_pure _

theorem incremental_loadInstructions (count : Nat) : Incremental (loadInstructions count) := by
  induction count with
  | zero => exact incremental_pure []
  | succ count ih =>
    apply incremental_loadInstruction.bind
    intro first
    apply ih.bind
    intro rest
    exact incremental_pure (first :: rest)

theorem incremental_loadString (index : Nat) (pool : StringPool) :
    Incremental (loadString index pool) := by
  apply (incremental_natural 4).bind
  intro length
  apply (incremental_bytes length).bind
  intro bytes
  split
  · exact incremental_throw _
  · split
    · exact incremental_throw _
    · exact incremental_pure _

theorem incremental_loadStrings (count index : Nat) (pool : StringPool) :
    Incremental (loadStrings count index pool) := by
  induction count generalizing index pool with
  | zero => exact incremental_pure pool
  | succ count ih =>
    apply (incremental_loadString index pool).bind
    intro pool'
    exact ih (index + 1) pool'

theorem incremental_load : Incremental load := by
  apply (incremental_bytes 4).bind
  intro found
  split
  · exact incremental_throw _
  apply (incremental_natural 2).bind
  intro found
  split
  · exact incremental_throw _
  apply incremental_byte.bind
  intro flags
  apply (incremental_decode Decoding.stable_word32 Decoding.staysInside_word32).bind
  intro offset
  apply (incremental_natural 4).bind
  intro instructionCount
  apply (incremental_natural 4).bind
  intro stringCount
  apply (incremental_loadInstructions instructionCount).bind
  intro loaded
  apply (incremental_loadStrings stringCount 0 .empty).bind
  intro strings
  apply (incremental_lift _).bind
  intro program
  exact incremental_pure _

end Stored

namespace Program

theorem load_toBytes (p : Program) :
    Stored.load.run (.ofList p.toBytes) =
      .ok (p, (ByteReader.ofList p.toBytes).skip p.toBytes.length) := by
  have hfaces := ByteReader.faces_ofList p.toBytes []
  rw [List.append_nil] at hfaces
  obtain ⟨q, hload, rfl⟩ := Stored.reads_load p _ hfaces
  exact hload

theorem exists_truncated_of_lt (p : Program) {k : Nat} (h : k < p.toBytes.length) :
    ∃ offset ≤ k, ofBytes (p.toBytes.take k) = .error (.truncated offset) := by
  have hsize : (ByteReader.ofList (p.toBytes.take k)).bytes.size = k := by
    simp only [ByteReader.ofList, List.size_toArray, List.length_take]
    omega
  have hwhole : (ByteReader.ofList (p.toBytes.take k)).extend (p.toBytes.drop k).toArray =
      .ofList p.toBytes := by
    simp [ByteReader.extend, ByteReader.ofList]
  have hcut := Stored.incremental_load (.ofList (p.toBytes.take k)) (p.toBytes.drop k).toArray
    (Nat.zero_le _)
  have hload := p.load_toBytes
  rw [hwhole] at hcut
  unfold ofBytes
  generalize Stored.load.run (.ofList (p.toBytes.take k)) = cut at hcut ⊢
  generalize Stored.load.run (.ofList p.toBytes) = whole at hcut hload
  cases hcut with
  | @truncated offset _ hle =>
    rw [hsize] at hle
    exact ⟨offset, hle, rfl⟩
  | refused e => contradiction
  | @read a r' _ hle =>
    -- A program before the cut would end where the whole one does, which is behind the cut.
    have hend : r'.extend (p.toBytes.drop k).toArray =
        (ByteReader.ofList p.toBytes).skip p.toBytes.length :=
      (Prod.mk.inj (Except.ok.inj hload)).2
    have hposition : r'.position = 0 + p.toBytes.length := congrArg ByteReader.position hend
    omega

/-- The first bytes of a stored program run out, at an offset among them, exactly when they are not
all of its bytes. So every cut is found, and found as a cut. -/
theorem ofBytes_take_truncated_iff (p : Program) (k : Nat) :
    (∃ offset ≤ k, ofBytes (p.toBytes.take k) = .error (.truncated offset)) ↔
      k < p.toBytes.length := by
  constructor
  · rintro ⟨offset, -, htruncated⟩
    by_contra hle
    rw [List.take_of_length_le (Nat.le_of_not_lt hle), ofBytes, p.load_toBytes] at htruncated
    contradiction
  · exact p.exists_truncated_of_lt

private def printText : Program :=
  ⟨#[.withOperand .pushStr (.stringIndex 0), .bare .print, .bare .halt],
    ⟨#["né"], 3, by decide, by decide, by decide⟩, ⟨0, true⟩, by decide, by decide, by decide⟩

/-- A cut inside that character is reported where the text begins, as bytes that are missing and not
as bytes that are no text. -/
example : ofBytes (printText.toBytes.take 38) = .error (.truncated 36) := by decide +kernel

end Program

end InvariantMachine

import Mathlib
import InvariantMachine.Bytes.LittleEndianRange
import InvariantMachine.Bytes.Reader

/-!
# What decodings read

A decoding reads given bytes when, wherever these stand next, it succeeds, ends right behind them
and returns what a condition asks for. Decodings in sequence read bytes end to end, so the reader
of a whole format is followed part by part, like the writer.
-/

namespace InvariantMachine

namespace ByteReader

variable {r : ByteReader} {xs ys bs : List UInt8}

/-- The given bytes stand next in the reader. -/
structure Faces (r : ByteReader) (bs : List UInt8) : Prop where
  position_le : r.position ≤ r.bytes.size
  next : bs <+: r.rest

@[simp] theorem skip_skip (r : ByteReader) (m n : Nat) :
    (r.skip m).skip n = r.skip (m + n) := by
  simp [skip, Nat.add_assoc]

theorem rest_skip (r : ByteReader) (n : Nat) : (r.skip n).rest = r.rest.drop n := by
  simp [rest, skip]

theorem Faces.length_le (h : r.Faces bs) : r.position + bs.length ≤ r.bytes.size := by
  have hlen := h.next.length_le
  have hpos := h.position_le
  simp only [rest, List.length_drop, Array.length_toList] at hlen
  omega

theorem Faces.take_rest (h : r.Faces bs) : r.rest.take bs.length = bs :=
  (List.prefix_iff_eq_take.mp h.next).symm

theorem Faces.left (h : r.Faces (xs ++ ys)) : r.Faces xs :=
  ⟨h.position_le, (List.prefix_append xs ys).trans h.next⟩

theorem Faces.right (h : r.Faces (xs ++ ys)) : (r.skip xs.length).Faces ys := by
  have hlen := h.length_le
  rw [List.length_append] at hlen
  refine ⟨?_, ?_⟩
  · change r.position + xs.length ≤ r.bytes.size
    omega
  · obtain ⟨t, ht⟩ := h.next
    rw [rest_skip, ← ht, List.append_assoc, List.drop_left]
    exact List.prefix_append ys t

theorem faces_ofList (bs t : List UInt8) : (ofList (bs ++ t)).Faces bs :=
  ⟨Nat.zero_le _, by simp [rest, ofList]⟩

end ByteReader

namespace Decoding

variable {α β : Type} {xs ys bs : List UInt8}

/-- Where the bytes stand next, the decoding reads exactly them and returns what is asked for. -/
def Reads (decoding : Decoding α) (bs : List UInt8) (P : α → Prop) : Prop :=
  ∀ r : ByteReader, r.Faces bs → ∃ a, decoding.run r = (.ok a, r.skip bs.length) ∧ P a

theorem Reads.run_eq {decoding : Decoding α} {a : α} (h : decoding.Reads bs (· = a))
    {r : ByteReader} (hr : r.Faces bs) : decoding.run r = (.ok a, r.skip bs.length) := by
  obtain ⟨b, hrun, rfl⟩ := h r hr
  exact hrun

theorem reads_pure {a : α} {P : α → Prop} (h : P a) : (pure a : Decoding α).Reads [] P := by
  intro r _
  exact ⟨a, run_pure a r, h⟩

theorem Reads.bind {first : Decoding α} {next : α → Decoding β} {P : α → Prop} {Q : β → Prop}
    (hfirst : first.Reads xs P) (hnext : ∀ a, P a → (next a).Reads ys Q) :
    (first >>= next).Reads (xs ++ ys) Q := by
  intro r hr
  obtain ⟨a, hrun, ha⟩ := hfirst r hr.left
  obtain ⟨b, hrun', hb⟩ := hnext a ha _ hr.right
  refine ⟨b, ?_, hb⟩
  rw [run_bind, hrun, List.length_append, ← ByteReader.skip_skip]
  exact hrun'

theorem Reads.map {decoding : Decoding α} {f : α → β} {P : α → Prop} {Q : β → Prop}
    (h : decoding.Reads bs P) (hf : ∀ a, P a → Q (f a)) :
    (do return f (← decoding)).Reads bs Q := by
  rw [← List.append_nil bs]
  exact h.bind fun a ha => reads_pure (hf a ha)

theorem reads_position : position.Reads [] fun _ => True := by
  intro r _
  exact ⟨r.position, run_position r, trivial⟩

theorem reads_bytes (bs : List UInt8) : (bytes bs.length).Reads bs (· = bs) := by
  intro r hr
  refine ⟨bs, ?_, rfl⟩
  rw [run_bytes_of_le hr.length_le, hr.take_rest]

theorem reads_natural {width n : Nat} (h : n < 256 ^ width) :
    (natural width).Reads (littleEndian width n) (· = n) := by
  have hb := reads_bytes (littleEndian width n)
  rw [littleEndian_length] at hb
  apply hb.map
  intro bs hbs
  rw [hbs, ofLittleEndian_of_lt h]

theorem reads_byte (b : UInt8) : byte.Reads [b] (· = b) := by
  have hn : (natural 1).Reads [b] (· = b.toNat) := by
    have h : (natural 1).Reads (littleEndian 1 b.toNat) (· = b.toNat) :=
      reads_natural b.toNat_lt
    simpa [littleEndian] using h
  apply hn.map
  intro n h
  rw [h, UInt8.ofNat_toNat]

theorem reads_word32 (w : UInt32) : word32.Reads (littleEndian 4 w.toNat) (· = w) := by
  apply (reads_natural w.toNat_lt).map
  intro n h
  rw [h, UInt32.ofNat_toNat]

theorem reads_word64 (w : UInt64) : word64.Reads (littleEndian 8 w.toNat) (· = w) := by
  apply (reads_natural w.toNat_lt).map
  intro n h
  rw [h, UInt64.ofNat_toNat]

end Decoding

end InvariantMachine

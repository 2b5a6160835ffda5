import Mathlib
import InvariantMachine.Machine.Config
import InvariantMachine.Proofs.CanonicalForm

/-!
# The tagged form of operands

Operands and their tagged forms correspond one to one. A form reads back as its operand wherever it
stands, and whatever is read as an operand is the form of it. Where no form stands, the first thing
that is missing or wrong is reported: the tag, the end of the payload, or a character that is none.
-/

namespace InvariantMachine

namespace Decoding

variable {α β : Type} {first : Decoding α} {next : α → Decoding β} {r r' : ByteReader}

theorem run_bind_of_ok {a : α} (h : first.run r = (.ok a, r')) :
    (first >>= next).run r = (next a).run r' := by
  rw [run_bind, h]

theorem run_bind_of_error {fault : DecodeFault} (h : first.run r = (.error fault, r')) :
    (first >>= next).run r = (.error fault, r') := by
  rw [run_bind, h]

/-- The bytes of a read whose end is computed first, where the machine has a word for it. -/
def checkedBytes (count : Nat) : Decoding (List UInt8) := fun r =>
  let stop? := if r.position + count ≤ greatestSize then some (r.position + count) else none
  match stop? with
  | none => (.error (.truncated r.position), r)
  | some stop =>
    if stop ≤ r.bytes.size then
      (.ok (r.bytes.extract r.position stop).toList, { r with position := stop })
    else (.error (.truncated r.position), r)

/-- No read overflows: where its end is no word, it does not fit the bytes either. -/
theorem checkedBytes_run (h : r.bytes.size ≤ greatestSize) (count : Nat) :
    (checkedBytes count).run r = (bytes count).run r := by
  unfold run checkedBytes bytes
  by_cases hstop : r.position + count ≤ greatestSize
  · rw [if_pos hstop]
    rfl
  · have hlt : ¬r.position + count ≤ r.bytes.size := fun hle => hstop (hle.trans h)
    rw [if_neg hstop, if_neg hlt]

theorem run_byte_of_getElem? {tag : UInt8} (h : r.bytes[r.position]? = some tag) :
    byte.run r = (.ok tag, r.skip 1) := by
  obtain ⟨hlt, htag⟩ := Array.getElem?_eq_some_iff.mp h
  have hnext : r.Faces [tag] := by
    refine ⟨hlt.le, ?_⟩
    rw [ByteReader.rest, List.drop_eq_getElem_cons (by simpa using hlt), Array.getElem_toList, htag]
    exact ⟨_, rfl⟩
  exact (reads_byte tag).run_eq hnext

theorem run_byte_of_size_le (h : r.bytes.size ≤ r.position) :
    byte.run r = (.error (.truncated r.position), r) := by
  have hlt : r.bytes.size < r.position + 1 := Nat.lt_succ_of_le h
  exact run_bind_of_error (run_bind_of_error (run_bytes_of_lt hlt))

end Decoding

namespace Operand

open Decoding

/-- The number of bytes that a tag calls for. -/
def payloadSize? : UInt8 → Option Nat
  | 0 | 6 => some 0
  | 1 | 2 => some 8
  | 3 | 5 => some 4
  | 4 => some 1
  | _ => Option.none

/-- The operand of a tag and the bytes that it calls for. -/
def ofPayload? (tag : UInt8) (payload : List UInt8) : Option Operand :=
  match tag with
  | 0 => some none
  | 1 => some (int (UInt64.ofNat (ofLittleEndian payload)).toInt64)
  | 2 => some (float ⟨UInt64.ofNat (ofLittleEndian payload)⟩)
  | 3 => (charOfCodePoint? (UInt32.ofNat (ofLittleEndian payload)).toNat).map char
  | 4 => some (register (UInt8.ofNat (ofLittleEndian payload)))
  | 5 => some (stringIndex (UInt32.ofNat (ofLittleEndian payload)))
  | 6 => some top
  | _ => Option.none

variable {r r' : ByteReader} {tag : UInt8} {o : Operand} {width : Nat}

/-- The operand of a payload, or the refusal of a tag at a position. -/
def ofPayload (tag : UInt8) (start : Nat) (payload : List UInt8) : Decoding Operand :=
  match ofPayload? tag payload with
  | some o => pure o
  | Option.none => fail (.invalidTag tag start)

theorem decode_run_of_payloadSize? (h : r.bytes[r.position]? = some tag)
    (hsize : payloadSize? tag = some width) :
    decode.run r = (bytes width >>= ofPayload tag r.position).run (r.skip 1) := by
  have hempty : (bytes 0).run (r.skip 1) = (.ok [], r.skip 1) :=
    run_bytes_of_le (Array.getElem?_eq_some_iff.mp h).1
  unfold decode
  rw [run_bind_of_ok (run_position r), run_bind_of_ok (run_byte_of_getElem? h)]
  unfold payloadSize? at hsize
  split at hsize <;> cases hsize
  · rw [run_bind_of_ok hempty]
    rfl
  · rw [run_bind_of_ok hempty]
    rfl
  · simp only [run_bind, word64, natural]
    rcases (bytes 8).run (r.skip 1) with ⟨_ | _, _⟩ <;> rfl
  · simp only [run_bind, word64, natural]
    rcases (bytes 8).run (r.skip 1) with ⟨_ | _, _⟩ <;> rfl
  · simp only [run_bind, word32, natural]
    rcases (bytes 4).run (r.skip 1) with ⟨_ | payload, _⟩
    · rfl
    · simp only [ofPayload, ofPayload?, run_pure]
      cases charOfCodePoint? (UInt32.ofNat (ofLittleEndian payload)).toNat <;> rfl
  · simp only [run_bind, word32, natural]
    rcases (bytes 4).run (r.skip 1) with ⟨_ | _, _⟩ <;> rfl
  · simp only [run_bind, byte, natural]
    rcases (bytes 1).run (r.skip 1) with ⟨_ | _, _⟩ <;> rfl

theorem decode_run_of_unknown (h : r.bytes[r.position]? = some tag)
    (hsize : payloadSize? tag = Option.none) :
    decode.run r = (.error (.invalidTag tag r.position), r.skip 1) := by
  unfold decode
  rw [run_bind_of_ok (run_position r), run_bind_of_ok (run_byte_of_getElem? h)]
  split <;> first | contradiction | rfl

theorem decode_run_of_size_le (h : r.bytes.size ≤ r.position) :
    decode.run r = (.error (.truncated r.position), r) := by
  unfold decode
  rw [run_bind_of_ok (run_position r)]
  exact run_bind_of_error (run_byte_of_size_le h)

theorem charOfCodePoint?_eq_none_iff {n : Nat} :
    charOfCodePoint? n = Option.none ↔ ¬n.isValidChar := by
  unfold charOfCodePoint?
  split
  · rename_i h
    exact ⟨nofun, fun hn => absurd h hn⟩
  · rename_i h
    exact ⟨fun _ => h, fun _ => rfl⟩

theorem ofPayload?_eq_none_iff (hsize : payloadSize? tag = some width) {payload : List UInt8}
    (hlength : payload.length = width) :
    ofPayload? tag payload = Option.none ↔
      tag = 3 ∧ ¬(ofLittleEndian payload).isValidChar := by
  unfold payloadSize? at hsize
  split at hsize <;> cases hsize
  case h_5 =>
    have hlt : ofLittleEndian payload < 256 ^ 4 := hlength ▸ ofLittleEndian_lt payload
    simp only [ofPayload?, Option.map_eq_none_iff, charOfCodePoint?_eq_none_iff, true_and]
    rw [UInt32.toNat_ofNat_of_lt' hlt]
  all_goals simp [ofPayload?]

/-- Why no operand stands at a position. -/
inductive Undecodable (bytes : Array UInt8) (start : Nat) : DecodeFault → Prop
  | tagMissing (behind : bytes.size ≤ start) : Undecodable bytes start (.truncated start)
  | tagUnknown {tag : UInt8} (stands : bytes[start]? = some tag)
      (unknown : payloadSize? tag = Option.none) : Undecodable bytes start (.invalidTag tag start)
  | payloadMissing {tag : UInt8} {width : Nat} (stands : bytes[start]? = some tag)
      (known : payloadSize? tag = some width) (short : bytes.size < start + 1 + width) :
      Undecodable bytes start (.truncated (start + 1))
  | noCharacter (stands : bytes[start]? = some 3) (fits : start + 1 + 4 ≤ bytes.size)
      (invalid : ¬(ofLittleEndian (bytes.extract (start + 1) (start + 1 + 4)).toList).isValidChar) :
      Undecodable bytes start (.invalidTag 3 start)

theorem decode_run_of_short (h : r.bytes[r.position]? = some tag)
    (hsize : payloadSize? tag = some width) (hshort : r.bytes.size < r.position + 1 + width) :
    decode.run r = (.error (.truncated (r.position + 1)), r.skip 1) := by
  rw [decode_run_of_payloadSize? h hsize]
  exact run_bind_of_error (run_bytes_of_lt hshort)

theorem decode_run_of_fits (h : r.bytes[r.position]? = some tag)
    (hsize : payloadSize? tag = some width) (hfits : r.position + 1 + width ≤ r.bytes.size) :
    decode.run r = (ofPayload tag r.position
      (r.bytes.extract (r.position + 1) (r.position + 1 + width)).toList).run
        (r.skip (1 + width)) := by
  have hbytes : (bytes width).run (r.skip 1) =
      (.ok (r.bytes.extract (r.position + 1) (r.position + 1 + width)).toList,
        (r.skip 1).skip width) := if_pos hfits
  rw [decode_run_of_payloadSize? h hsize, run_bind_of_ok hbytes, ByteReader.skip_skip]

theorem length_extract_of_le {bytes : Array UInt8} {start : Nat}
    (h : start + width ≤ bytes.size) :
    (bytes.extract start (start + width)).toList.length = width := by
  rw [Array.length_toList, Array.size_extract]
  omega

/-- Nothing is read as an operand exactly where no operand stands, for the reason that is given. -/
theorem decode_error_iff {fault : DecodeFault} :
    (decode.run r).1 = .error fault ↔ Undecodable r.bytes r.position fault := by
  constructor
  · intro h
    cases hstands : r.bytes[r.position]? with
    | none =>
      have hbehind : r.bytes.size ≤ r.position := Array.getElem?_eq_none_iff.mp hstands
      rw [decode_run_of_size_le hbehind] at h
      cases h
      exact .tagMissing hbehind
    | some tag =>
      cases hsize : payloadSize? tag with
      | none =>
        rw [decode_run_of_unknown hstands hsize] at h
        cases h
        exact .tagUnknown hstands hsize
      | some width =>
        rcases Nat.lt_or_ge r.bytes.size (r.position + 1 + width) with hshort | hfits
        · rw [decode_run_of_short hstands hsize hshort] at h
          cases h
          exact .payloadMissing hstands hsize hshort
        · rw [decode_run_of_fits hstands hsize hfits, ofPayload] at h
          split at h
          · cases h
          · rename_i hnone
            cases h
            have hlength := length_extract_of_le hfits
            obtain ⟨rfl, hinvalid⟩ := (ofPayload?_eq_none_iff hsize hlength).mp hnone
            cases hsize
            exact .noCharacter hstands hfits hinvalid
  · intro h
    cases h with
    | tagMissing behind => rw [decode_run_of_size_le behind]
    | tagUnknown stands unknown => rw [decode_run_of_unknown stands unknown]
    | payloadMissing stands known short => rw [decode_run_of_short stands known short]
    | noCharacter stands fits invalid =>
      have hlength := length_extract_of_le fits
      have hnone := (ofPayload?_eq_none_iff rfl hlength).mpr ⟨rfl, invalid⟩
      rw [decode_run_of_fits stands rfl fits, ofPayload, hnone]
      rfl

theorem toBytes_of_decode (h : decode.run r = (.ok o, r')) :
    r'.bytes = r.bytes ∧ r.position ≤ r'.position ∧ r'.position ≤ r.bytes.size ∧
      o.toBytes = (r.bytes.extract r.position r'.position).toList := by
  have hle : r.position ≤ r.bytes.size := by
    by_contra hgt
    rw [decode_run_of_size_le (Nat.le_of_not_le hgt)] at h
    cases h
  obtain ⟨_, rfl, hfaces, rfl⟩ := consumes_decode r r' hle o h
  refine ⟨rfl, Nat.le_add_right _ _, hfaces.length_le, ?_⟩
  calc o.toBytes
    _ = r.rest.take o.toBytes.length := hfaces.take_rest.symm
    _ = (r.bytes.extract r.position (r.position + o.toBytes.length)).toList := by
      simp [ByteReader.rest, List.extract_eq_take_drop]

theorem decode_toBytes (o : Operand) (before after : List UInt8) :
    let r : ByteReader := ⟨(before ++ o.toBytes ++ after).toArray, before.length⟩
    decode.run r = (.ok o, r.skip o.size) := by
  intro r
  have hfaces : r.Faces o.toBytes := by
    constructor
    · simp [r]
    · simp [r, ByteReader.rest]
  rw [← toBytes_length]
  exact o.reads_decode.run_eq hfaces

end Operand

open Operand in
/-- The tagged form of an operand reads back wherever it stands. What is read as an operand, from
any position, is the tagged form that stands between there and the end of the reading; and nothing
is read as one exactly where no operand stands, for the reason that is given. Reads whose ends are
computed in words of the machine come to the same, so no position is too great for them. -/
theorem operand_codec :
    (∀ (o : Operand) (before after : List UInt8),
      let r : ByteReader := ⟨(before ++ o.toBytes ++ after).toArray, before.length⟩
      decode.run r = (.ok o, r.skip o.size)) ∧
    (∀ r o r', decode.run r = (.ok o, r') →
      r'.bytes = r.bytes ∧ r.position ≤ r'.position ∧ r'.position ≤ r.bytes.size ∧
        o.toBytes = (r.bytes.extract r.position r'.position).toList) ∧
    (∀ r fault, (decode.run r).1 = .error fault ↔ Undecodable r.bytes r.position fault) ∧
    ∀ r : ByteReader, r.bytes.size ≤ greatestSize →
      ∀ count, (Decoding.checkedBytes count).run r = (Decoding.bytes count).run r := by
  refine ⟨decode_toBytes, ?_, ?_, ?_⟩
  · exact fun r o r' h => toBytes_of_decode h
  · exact fun r fault => decode_error_iff
  · exact fun r h count => Decoding.checkedBytes_run h count

end InvariantMachine

import Mathlib
import InvariantMachine.Proofs.StoredPrograms

/-!
# What bytes are read as a program

Reading a stored program consumes the bytes that writing it gives, part by part: no opcode, number,
character or text has a second form. Only the reserved flags and what follows the last string are
free. So bytes are read as a program exactly when they begin with its stored form once the reserved
flags are cleared.
-/

namespace InvariantMachine

theorem ByteReader.Faces.append {r : ByteReader} {xs ys : List UInt8} (h : r.Faces xs)
    (h' : (r.skip xs.length).Faces ys) : r.Faces (xs ++ ys) := by
  refine ⟨h.position_le, ?_⟩
  have hnext := h'.next
  rw [rest_skip] at hnext
  rw [← List.take_append_drop xs.length r.rest, h.take_rest]
  exact (List.prefix_append_right_inj xs).mpr hnext

namespace Decoding

variable {α β : Type} {decoding first : Decoding α} {next : α → Decoding β}
  {V : α → List UInt8 → Prop} {W : β → List UInt8 → Prop}

/-- If the decoding succeeds, it consumed bytes that are related to what it returns. -/
def Consumes (decoding : Decoding α) (V : α → List UInt8 → Prop) : Prop :=
  ∀ r r' : ByteReader, r.position ≤ r.bytes.size → ∀ a, decoding.run r = (.ok a, r') →
    ∃ bs, V a bs ∧ r.Faces bs ∧ r' = r.skip bs.length

theorem consumes_pure {a : α} (h : V a []) : (pure a : Decoding α).Consumes V := by
  rintro r _ hr _ ⟨⟩
  exact ⟨[], h, ⟨hr, List.nil_prefix⟩, rfl⟩

theorem consumes_fail (fault : DecodeFault) : (fail fault : Decoding α).Consumes V := by
  rintro r _ _ _ ⟨⟩

theorem Consumes.bind (hfirst : first.Consumes V)
    (hnext : ∀ a xs, V a xs → (next a).Consumes fun b ys => W b (xs ++ ys)) :
    (first >>= next).Consumes W := by
  intro r r' hr b hrun
  rw [run_bind] at hrun
  split at hrun
  · rename_i a r₁ hrun₁
    obtain ⟨xs, hxs, hfaces, rfl⟩ := hfirst r r₁ hr a hrun₁
    obtain ⟨ys, hys, hfaces', rfl⟩ := hnext a xs hxs _ r' hfaces.length_le b hrun
    refine ⟨xs ++ ys, hys, hfaces.append hfaces', ?_⟩
    rw [ByteReader.skip_skip, List.length_append]
  · cases hrun

theorem Consumes.map {f : α → β} (h : decoding.Consumes V) (hf : ∀ a bs, V a bs → W (f a) bs) :
    (do return f (← decoding)).Consumes W := by
  refine h.bind fun a bs ha => consumes_pure ?_
  rw [List.append_nil]
  exact hf a bs ha

theorem consumes_position : position.Consumes fun _ bs => bs = [] := by
  rintro r _ hr _ ⟨⟩
  exact ⟨[], rfl, ⟨hr, List.nil_prefix⟩, rfl⟩

theorem consumes_bytes (count : Nat) :
    (bytes count).Consumes fun a bs => a = bs ∧ bs.length = count := by
  intro r r' hr a hrun
  by_cases hle : r.position + count ≤ r.bytes.size
  · rw [run_bytes_of_le hle] at hrun
    cases hrun
    have hlen : (r.rest.take count).length = count := by
      simp only [ByteReader.rest, List.length_take, List.length_drop, Array.length_toList]
      omega
    refine ⟨r.rest.take count, ⟨rfl, hlen⟩, ⟨hr, List.take_prefix _ _⟩, ?_⟩
    rw [hlen]
  · rw [run_bytes_of_lt (Nat.not_le.mp hle)] at hrun
    cases hrun

theorem consumes_natural (width : Nat) :
    (natural width).Consumes fun n bs => n < 256 ^ width ∧ bs = littleEndian width n := by
  refine (consumes_bytes width).map ?_
  rintro bs _ ⟨rfl, rfl⟩
  exact ⟨ofLittleEndian_lt bs, (littleEndian_ofLittleEndian bs).symm⟩

theorem consumes_byte : byte.Consumes fun b bs => bs = [b] := by
  refine (consumes_natural 1).map ?_
  rintro n _ ⟨-, rfl⟩
  rfl

theorem consumes_word32 : word32.Consumes fun w bs => bs = littleEndian 4 w.toNat := by
  refine (consumes_natural 4).map ?_
  rintro n _ ⟨hn, rfl⟩
  rw [UInt32.toNat_ofNat_of_lt' hn]

theorem consumes_word64 : word64.Consumes fun w bs => bs = littleEndian 8 w.toNat := by
  refine (consumes_natural 8).map ?_
  rintro n _ ⟨hn, rfl⟩
  rw [UInt64.toNat_ofNat_of_lt' hn]

end Decoding

namespace Operand

theorem toNat_of_charOfCodePoint? {n : Nat} {c : Char} (h : charOfCodePoint? n = some c) :
    c.toNat = n := by
  unfold charOfCodePoint? at h
  split at h
  · cases h
    rfl
  · cases h

theorem consumes_decode : decode.Consumes fun o bs => bs = o.toBytes := by
  refine Decoding.consumes_position.bind ?_
  rintro start _ rfl
  refine Decoding.consumes_byte.bind ?_
  rintro tag _ rfl
  split
  · exact Decoding.consumes_pure rfl
  · refine Decoding.consumes_word64.map ?_
    rintro w _ rfl
    rfl
  · refine Decoding.consumes_word64.map ?_
    rintro w _ rfl
    rfl
  · refine Decoding.consumes_word32.bind ?_
    rintro w _ rfl
    split
    · rename_i c hc
      refine Decoding.consumes_pure ?_
      rw [← toNat_of_charOfCodePoint? hc]
      rfl
    · exact Decoding.consumes_fail _
  · refine Decoding.consumes_byte.map ?_
    rintro r _ rfl
    rfl
  · refine Decoding.consumes_word32.map ?_
    rintro k _ rfl
    rfl
  · exact Decoding.consumes_pure rfl
  · exact Decoding.consumes_fail _

end Operand

namespace Loading

variable {α β : Type} {first : Loading α} {next : α → Loading β}
  {V : α → List UInt8 → Prop} {W : β → List UInt8 → Prop}

/-- If the loading succeeds, it consumed bytes that are related to what it returns. -/
def Consumes (loading : Loading α) (V : α → List UInt8 → Prop) : Prop :=
  ∀ r r' : ByteReader, r.position ≤ r.bytes.size → ∀ a, loading.run r = .ok (a, r') →
    ∃ bs, V a bs ∧ r.Faces bs ∧ r' = r.skip bs.length

theorem consumes_pure {a : α} (h : V a []) : Consumes (pure a) V := by
  rintro r _ hr _ ⟨⟩
  exact ⟨[], h, ⟨hr, List.nil_prefix⟩, rfl⟩

theorem consumes_throw (e : StoreError) : Consumes (throw e : Loading α) V := by
  rintro r _ _ _ ⟨⟩

theorem consumes_lift {x : Except StoreError α} (h : ∀ a, x = .ok a → V a []) :
    Consumes (liftM x) V := by
  cases x with
  | error e => rintro r _ _ _ ⟨⟩
  | ok a => exact consumes_pure (h a rfl)

theorem Consumes.bind (hfirst : Consumes first V)
    (hnext : ∀ a xs, V a xs → Consumes (next a) fun b ys => W b (xs ++ ys)) :
    Consumes (first >>= next) W := by
  intro r r' hr b hrun
  rw [StateT.run_bind] at hrun
  obtain ⟨⟨a, r₁⟩, hrun₁, hrun₂⟩ := bind_eq_ok_iff.mp hrun
  obtain ⟨xs, hxs, hfaces, rfl⟩ := hfirst r r₁ hr a hrun₁
  obtain ⟨ys, hys, hfaces', rfl⟩ := hnext a xs hxs _ r' hfaces.length_le b hrun₂
  refine ⟨xs ++ ys, hys, hfaces.append hfaces', ?_⟩
  rw [ByteReader.skip_skip, List.length_append]

theorem Consumes.imp {loading : Loading α} {V' : α → List UInt8 → Prop} (h : Consumes loading V)
    (hV : ∀ a bs, V a bs → V' a bs) : Consumes loading V' := by
  intro r r' hr a hrun
  obtain ⟨bs, ha, hfaces⟩ := h r r' hr a hrun
  exact ⟨bs, hV a bs ha, hfaces⟩

theorem consumes_decode {decoding : Decoding α} (h : decoding.Consumes V) :
    Consumes (Stored.decode decoding) V := by
  intro r r' hr a hrun
  change Stored.decode decoding r = _ at hrun
  unfold Stored.decode at hrun
  split at hrun
  · rename_i hdecode
    cases hrun
    exact h r r' hr a hdecode
  · cases hrun

end Loading

namespace Stored

open Loading

theorem consumes_loadInstruction :
    Consumes loadInstruction fun loaded bs => bs = instructionBytes loaded.2 := by
  refine (consumes_decode Decoding.consumes_position).bind ?_
  rintro offset _ rfl
  refine (consumes_decode Decoding.consumes_byte).bind ?_
  rintro b _ rfl
  split
  · exact consumes_throw _
  · rename_i op hop
    obtain rfl := Opcode.byte_eq_of_ofByte? hop
    refine (consumes_decode Decoding.consumes_byte).bind ?_
    rintro register _ rfl
    refine (consumes_decode Operand.consumes_decode).bind ?_
    rintro o _ rfl
    refine consumes_pure ?_
    -- the one byte that is read as no register is the one that is written for none
    split
    · rename_i hregister
      rw [hregister]
      simp [instructionBytes]
    · simp [instructionBytes]

theorem consumes_loadInstructions (count : Nat) :
    Consumes (loadInstructions count) fun loaded bs =>
      loaded.length = count ∧ bs = (loaded.map (·.2)).flatMap instructionBytes := by
  induction count with
  | zero => exact consumes_pure ⟨rfl, rfl⟩
  | succ count ih =>
    refine consumes_loadInstruction.bind ?_
    rintro first _ rfl
    refine ih.bind ?_
    rintro rest _ ⟨rfl, rfl⟩
    refine consumes_pure ⟨rfl, ?_⟩
    simp

theorem utf8Bytes_of_utf8Text? {bs : List UInt8} {text : String} (h : utf8Text? bs = some text) :
    utf8Bytes text = bs := by
  unfold utf8Text? String.fromUTF8? at h
  split at h
  · cases h
    rfl
  · cases h

theorem consumes_loadString (index : Nat) (pool : StringPool) :
    Consumes (loadString index pool) fun pool' bs =>
      ∃ text, pool'.toList = pool.toList ++ [text] ∧ bs = stringBytes text := by
  refine (consumes_decode (Decoding.consumes_natural 4)).bind ?_
  rintro length _ ⟨-, rfl⟩
  refine (consumes_decode (Decoding.consumes_bytes length)).bind ?_
  rintro _ bs ⟨rfl, rfl⟩
  split
  · exact consumes_throw _
  · rename_i text htext
    obtain rfl := utf8Bytes_of_utf8Text? htext
    split
    · exact consumes_throw _
    · rename_i k pool' hintern
      obtain ⟨-, -, -, hlist⟩ := StringPool.intern_eq_ok hintern
      refine consumes_pure ⟨text, hlist, ?_⟩
      simp [stringBytes, utf8Bytes_length]

theorem consumes_loadStrings (count index : Nat) (pool : StringPool) :
    Consumes (loadStrings count index pool) fun pool' bs =>
      ∃ texts, texts.length = count ∧ pool'.toList = pool.toList ++ texts ∧
        bs = texts.flatMap stringBytes := by
  induction count generalizing index pool with
  | zero => exact consumes_pure ⟨[], rfl, by simp, rfl⟩
  | succ count ih =>
    refine (consumes_loadString index pool).bind ?_
    rintro pool₁ _ ⟨text, hlist, rfl⟩
    refine (ih (index + 1) pool₁).imp ?_
    rintro pool' _ ⟨texts, rfl, hlist', rfl⟩
    refine ⟨text :: texts, rfl, ?_, rfl⟩
    rw [hlist', hlist, List.append_assoc]
    rfl

theorem consumes_load :
    Consumes load fun p bs => ∃ flags, p.entry.declared = decide (flags &&& entryDeclaredFlag ≠ 0) ∧
      bs = p.parts.bytesWith flags p.entry.offset := by
  refine (consumes_decode (Decoding.consumes_bytes 4)).bind ?_
  rintro found _ ⟨rfl, -⟩
  split
  · exact consumes_throw _
  rename_i hmagic
  obtain rfl := not_not.mp hmagic
  refine (consumes_decode (Decoding.consumes_natural 2)).bind ?_
  rintro found _ ⟨-, rfl⟩
  split
  · exact consumes_throw _
  rename_i hversion
  obtain rfl := not_not.mp hversion
  refine (consumes_decode Decoding.consumes_byte).bind ?_
  rintro flags _ rfl
  refine (consumes_decode Decoding.consumes_word32).bind ?_
  rintro offset _ rfl
  refine (consumes_decode (Decoding.consumes_natural 4)).bind ?_
  rintro instructionCount _ ⟨-, rfl⟩
  refine (consumes_decode (Decoding.consumes_natural 4)).bind ?_
  rintro stringCount _ ⟨-, rfl⟩
  refine (consumes_loadInstructions instructionCount).bind ?_
  rintro loaded _ ⟨rfl, rfl⟩
  refine (consumes_loadStrings stringCount 0 .empty).bind ?_
  rintro pool _ ⟨texts, rfl, hlist, rfl⟩
  -- nothing is read any more, and pushing keeps the instructions as they were read
  refine (consumes_lift (V := fun q bs => bs = [] ∧ q.parts = ⟨loaded.map (·.2), texts⟩) ?_).bind ?_
  · intro q hq
    obtain ⟨-, hparts, -⟩ :=
      Program.foldlM_push_eq_ok_iff.mp (foldlM_pushLoaded_eq_ok_iff.mp hq)
    exact ⟨rfl, hparts.trans (congrArg (Parts.mk _) hlist)⟩
  · rintro q _ ⟨rfl, hparts⟩
    refine consumes_pure ⟨flags, rfl, ?_⟩
    have hparts' : (q.setEntry ⟨offset, flags &&& entryDeclaredFlag ≠ 0⟩).parts =
      ⟨loaded.map (·.2), texts⟩ := hparts
    rw [hparts']
    simp only [Parts.bytesWith, Program.setEntry, List.append_assoc, List.append_nil,
      List.length_map]

/-- The bytes with the flags cleared that no program has. -/
def clearReserved (bytes : List UInt8) : List UInt8 := bytes.modify 6 (· &&& entryDeclaredFlag)

theorem modify_eq_append_cons_iff {α : Type} {f : α → α} {l xs ys : List α} {a : α} :
    l.modify xs.length f = xs ++ a :: ys ↔ ∃ b, f b = a ∧ l = xs ++ b :: ys := by
  induction xs generalizing l with
  | nil => cases l <;> simp
  | cons x xs ih =>
    cases l with
    | nil => simp
    | cons y l =>
      simp only [List.length_cons, List.modify_succ_cons, List.cons_append, List.cons.injEq, ih]
      constructor
      · rintro ⟨rfl, b, hb, rfl⟩
        exact ⟨b, hb, rfl, rfl⟩
      · rintro ⟨b, hb, rfl, rfl⟩
        exact ⟨rfl, b, hb, rfl⟩

theorem clearReserved_eq_iff {bytes t : List UInt8} {parts : Parts} {flags : UInt8}
    {offset : UInt32} :
    clearReserved bytes = parts.bytesWith flags offset ++ t ↔
      ∃ raw, raw &&& entryDeclaredFlag = flags ∧ bytes = parts.bytesWith raw offset ++ t := by
  have hsplit (raw : UInt8) : parts.bytesWith raw offset ++ t =
      (magic ++ littleEndian 2 version) ++ raw :: (littleEndian 4 offset.toNat ++
        (littleEndian 4 parts.instructions.length ++ (littleEndian 4 parts.strings.length ++
          (parts.instructions.flatMap instructionBytes ++
            (parts.strings.flatMap stringBytes ++ t))))) := by
    simp [Parts.bytesWith]
  simp only [hsplit]
  exact @modify_eq_append_cons_iff UInt8 (· &&& entryDeclaredFlag) bytes
    (magic ++ littleEndian 2 version) _ flags

theorem and_entryDeclaredFlag (flags : UInt8) :
    flags &&& entryDeclaredFlag =
      if decide (flags &&& entryDeclaredFlag ≠ 0) then entryDeclaredFlag else 0 := by
  have hmod : (flags &&& entryDeclaredFlag).toNat = flags.toNat % 2 := by
    rw [UInt8.toNat_and]
    exact Nat.and_one_is_mod _
  by_cases hzero : flags &&& entryDeclaredFlag = 0
  · simp [hzero]
  · have hone : flags &&& entryDeclaredFlag = entryDeclaredFlag := by
      apply UInt8.toNat_inj.mp
      rw [← UInt8.toNat_inj] at hzero
      have hone : entryDeclaredFlag.toNat = 1 := rfl
      have h0 : (0 : UInt8).toNat = 0 := rfl
      omega
    simp [hone]

end Stored

open Stored

namespace Program

variable {bytes : List UInt8} {p : Program}

theorem toBytes_eq_bytesWith (p : Program) : p.toBytes =
    p.parts.bytesWith (if p.entry.declared then entryDeclaredFlag else 0) p.entry.offset := rfl

theorem exists_of_ofBytes_eq_ok (h : ofBytes bytes = .ok p) :
    ∃ flags t, p.entry.declared = decide (flags &&& entryDeclaredFlag ≠ 0) ∧
      bytes = p.parts.bytesWith flags p.entry.offset ++ t := by
  unfold ofBytes at h
  cases hrun : load.run (.ofList bytes) with
  | error e =>
    rw [hrun] at h
    cases h
  | ok r =>
    obtain ⟨q, r'⟩ := r
    rw [hrun] at h
    cases h
    obtain ⟨_, ⟨flags, hdeclared, rfl⟩, hfaces, -⟩ :=
      consumes_load (.ofList bytes) r' (Nat.zero_le _) q hrun
    obtain ⟨t, ht⟩ := hfaces.next
    exact ⟨flags, t, hdeclared, ht.symm⟩

theorem ofBytes_bytesWith_append {flags : UInt8}
    (h : p.entry.declared = decide (flags &&& entryDeclaredFlag ≠ 0)) (t : List UInt8) :
    ofBytes (p.parts.bytesWith flags p.entry.offset ++ t) = .ok p := by
  refine (ofBytes_of_ends (p.parts_storable.ends_load flags p.entry.offset) t p).mpr ?_
  rw [← h]
  exact p.parts_makes

theorem ofBytes_eq_ok_iff :
    ofBytes bytes = .ok p ↔ p.toBytes <+: clearReserved bytes := by
  rw [toBytes_eq_bytesWith]
  constructor
  · intro h
    obtain ⟨flags, t, hdeclared, hbytes⟩ := exists_of_ofBytes_eq_ok h
    refine ⟨t, (clearReserved_eq_iff.mpr ⟨flags, ?_, hbytes⟩).symm⟩
    rw [and_entryDeclaredFlag, hdeclared]
  · rintro ⟨t, ht⟩
    obtain ⟨flags, hflags, rfl⟩ := clearReserved_eq_iff.mp ht.symm
    refine ofBytes_bytesWith_append ?_ t
    rw [hflags]
    cases p.entry.declared <;> decide

/-- Bytes are read as a program exactly when they begin with its stored form once the reserved
flags are cleared. So two inputs are read as the same program exactly when they agree there. -/
theorem ofBytes_reads_canonical :
    (∀ bytes p, ofBytes bytes = .ok p ↔ p.toBytes <+: clearReserved bytes) ∧
    ∀ bytes bytes' p q, ofBytes bytes = .ok p → ofBytes bytes' = .ok q →
      (p = q ↔ (clearReserved bytes).take p.toBytes.length =
        (clearReserved bytes').take p.toBytes.length) := by
  refine ⟨fun bytes p => ofBytes_eq_ok_iff, ?_⟩
  intro bytes bytes' p q hp hq
  have htake := List.prefix_iff_eq_take.mp (ofBytes_eq_ok_iff.mp hp)
  rw [← htake, ← List.prefix_iff_eq_take, ← ofBytes_eq_ok_iff, hq]
  constructor
  · rintro rfl
    rfl
  · rintro ⟨⟩
    rfl

/-- Reserved flags and bytes behind the strings do not change what is read. -/
theorem ofBytes_reads_canonical_reservedFlags :
    let header : List UInt8 := [0x54, 0x49, 0x4d, 0x42, 0x00, 0x01]
    let body : List UInt8 :=
      [0, 0, 0, 0, 1, 0, 0, 0, 1, 0, 0, 0, 0x00, 0xff, 0, 2, 0, 0, 0, 104, 105]
    let bytes := header ++ [0xf1] ++ body ++ [7, 7, 7]
    let bytes' := header ++ [0x03] ++ body
    ∃ p, ofBytes bytes = .ok p ∧ ofBytes bytes' = .ok p ∧
      (clearReserved bytes).take p.toBytes.length =
        (clearReserved bytes').take p.toBytes.length := by
  intro header body bytes bytes'
  let pool : StringPool := ⟨#["hi"], 2, rfl, by decide, by decide⟩
  let p : Program := ⟨#[.bare .halt], pool, ⟨0, true⟩, by decide, by decide, by decide⟩
  obtain ⟨hreads, hsame⟩ := ofBytes_reads_canonical
  have hp : ofBytes bytes = .ok p := (hreads _ _).mpr ⟨[7, 7, 7], by decide⟩
  have hp' : ofBytes bytes' = .ok p := (hreads _ _).mpr ⟨[], by decide⟩
  exact ⟨p, hp, hp', (hsame bytes bytes' p p hp hp').mp rfl⟩

end Program

end InvariantMachine

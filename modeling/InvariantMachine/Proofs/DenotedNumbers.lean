import Mathlib
import InvariantMachine.Proofs.EncodingErrors
import InvariantMachine.Proofs.Reassembly

/-!
# The numbers that literals write

What an integer or a register means is said without reading it: digits write a number by their
places, a sign is taken once, and a text has one meaning. Reading gives this number exactly where
its type holds it, for any count of digits and of zeros in front. The offset of an entry point is
held to its own range besides.
-/

namespace InvariantMachine

open Lexeme (isDigit isHexDigit isHexDigit_iff many mem_many mem_oneOf_mul mem_optionally oneOf)

variable {base d n m : Nat} {c : Char} {ds text : List Char} {i j : Int}

/-! ## Digits -/

/-- The place of a character in the row of the digits, in either letter case. -/
def digitOf (c : Char) : Nat := "0123456789abcdef".toList.idxOf c.toLower

/-- The character is a digit of a base of at most sixteen. -/
def IsDigit (base : Nat) (c : Char) : Prop := isHexDigit c ∧ digitOf c < base

/-- The number that digits write in a base, the last of them in the place of the ones. -/
def positional (base : Nat) (ds : List Char) : Nat := Nat.ofDigits base (ds.map digitOf).reverse

theorem positional_cons (base : Nat) (c : Char) (ds : List Char) :
    positional base (c :: ds) = digitOf c * base ^ ds.length + positional base ds := by
  simp [positional, Nat.ofDigits_append, Nat.mul_comm, Nat.add_comm]

theorem forall_hexDigit {P : Char → Prop}
    (h : ∀ code < 103, isHexDigit (Char.ofNat code) → P (Char.ofNat code)) (hc : isHexDigit c) :
    P c := by
  have hcode : c.toNat < 103 := by
    rw [isHexDigit_iff] at hc
    omega
  have hrow := h c.toNat hcode
  rw [Char.ofNat_toNat] at hrow
  exact hrow hc

theorem isDigit_sixteen_iff : IsDigit 16 c ↔ isHexDigit c :=
  ⟨And.left, fun hc => ⟨hc, forall_hexDigit (P := (digitOf · < 16)) (by decide) hc⟩⟩

theorem isDigit_ten_iff : IsDigit 10 c ↔ isDigit c := by
  constructor
  · rintro ⟨hc, hlt⟩
    exact forall_hexDigit (P := fun c => digitOf c < 10 → isDigit c) (by decide) hc hlt
  · intro hc
    have hhex : isHexDigit c := by simp [isHexDigit, hc]
    exact ⟨hhex, forall_hexDigit (P := fun c => isDigit c → digitOf c < 10) (by decide) hhex hc⟩

theorem digitValue?_eq (base : Nat) (c : Char) : digitValue? base c =
    if isHexDigit c ∧ digitOf c < base then some (digitOf c) else none := by
  have hvalue : (if '0' ≤ c ∧ c ≤ '9' then some (c.toNat - '0'.toNat)
      else if 'a' ≤ c ∧ c ≤ 'f' then some (c.toNat - 'a'.toNat + 10)
      else if 'A' ≤ c ∧ c ≤ 'F' then some (c.toNat - 'A'.toNat + 10)
      else none) = if isHexDigit c then some (digitOf c) else none := by
    cases hc : isHexDigit c with
    | true =>
      exact forall_hexDigit (P := fun c => (if '0' ≤ c ∧ c ≤ '9' then some (c.toNat - '0'.toNat)
        else if 'a' ≤ c ∧ c ≤ 'f' then some (c.toNat - 'a'.toNat + 10)
        else if 'A' ≤ c ∧ c ≤ 'F' then some (c.toNat - 'A'.toNat + 10)
        else none) = some (digitOf c)) (by decide) hc
    | false =>
      simp only [isHexDigit, isDigit, Bool.or_eq_false_iff, Bool.and_eq_false_iff,
        decide_eq_false_iff_not, ← not_and_or] at hc
      obtain ⟨⟨hdigit, hsmall⟩, hcapital⟩ := hc
      rw [if_neg hdigit, if_neg hsmall, if_neg hcapital]
      rfl
  simp only [digitValue?, hvalue]
  by_cases hc : isHexDigit c <;> by_cases hlt : digitOf c < base <;> simp [hc, hlt, Option.filter]

theorem digitValue?_eq_some_iff : digitValue? base c = some d ↔ IsDigit base c ∧ digitOf c = d := by
  rw [digitValue?_eq, Option.ite_none_right_eq_some, Option.some_inj]
  rfl

/-- Digits behind a number that was read so far are read, and nothing else is. -/
theorem foldlM_digits_eq_some_iff (before : Nat) :
    ds.foldlM (fun n c => (digitValue? base c).map (base * n + ·)) before = some n ↔
      (∀ c ∈ ds, IsDigit base c) ∧ before * base ^ ds.length + positional base ds = n := by
  induction ds generalizing before with
  | nil => simp [positional]
  | cons c ds ih =>
    rw [List.foldlM_cons, Option.bind_eq_bind, Option.bind_eq_some_iff, List.forall_mem_cons]
    have hplaces : (base * before + digitOf c) * base ^ ds.length + positional base ds =
        before * base ^ (ds.length + 1) + positional base (c :: ds) := by
      rw [positional_cons]
      ring
    constructor
    · rintro ⟨next, hnext, hrest⟩
      obtain ⟨d, hd, rfl⟩ := Option.map_eq_some_iff.mp hnext
      obtain ⟨hc, rfl⟩ := digitValue?_eq_some_iff.mp hd
      obtain ⟨hds, hn⟩ := (ih _).mp hrest
      exact ⟨⟨hc, hds⟩, hplaces.symm.trans hn⟩
    · rintro ⟨⟨hc, hds⟩, hn⟩
      have hdigit : (digitValue? base c).map (base * before + ·) =
          some (base * before + digitOf c) := by
        rw [digitValue?_eq_some_iff.mpr ⟨hc, rfl⟩, Option.map_some]
      exact ⟨_, hdigit, (ih _).mpr ⟨hds, hplaces.trans hn⟩⟩

theorem readDigits?_eq_some_iff : readDigits? base ds = some n ↔
    ds ≠ [] ∧ (∀ c ∈ ds, IsDigit base c) ∧ positional base ds = n := by
  cases ds with
  | nil => simp [readDigits?]
  | cons c ds =>
    rw [readDigits?, foldlM_digits_eq_some_iff, Nat.zero_mul, Nat.zero_add]
    simp

theorem readDigits?_ten_iff :
    readDigits? 10 ds = some n ↔ ds ∈ many isDigit ∧ positional 10 ds = n := by
  rw [readDigits?_eq_some_iff, mem_many, and_assoc]
  simp only [isDigit_ten_iff]

theorem readDigits?_sixteen_iff :
    readDigits? 16 ds = some n ↔ ds ∈ many isHexDigit ∧ positional 16 ds = n := by
  rw [readDigits?_eq_some_iff, mem_many, and_assoc]
  simp only [isDigit_sixteen_iff]

theorem ne_cons_of_mem_many {p : Char → Bool} (h : ds ∈ many p) (hc : p c = false)
    (rest : List Char) : ds ≠ c :: rest := by
  rintro rfl
  have hdigit := (mem_many.mp h).2 c List.mem_cons_self
  rw [hc] at hdigit
  cases hdigit

/-! ## Integers -/

namespace Literal

/-- An unsigned integer and the number it writes. -/
inductive Magnitude : List Char → Nat → Prop
  | decimal {ds : List Char} (digits : ds ∈ many isDigit) : Magnitude ds (positional 10 ds)
  | hexadecimal {x : Char} {ds : List Char} (mark : x = 'x' ∨ x = 'X')
      (digits : ds ∈ many isHexDigit) : Magnitude ('0' :: x :: ds) (positional 16 ds)

/-- An integer and the number it writes. -/
inductive Writes : List Char → Int → Prop
  | plain {text : List Char} {n : Nat} (magnitude : Magnitude text n) : Writes text n
  | negative {text : List Char} {n : Nat} (magnitude : Magnitude text n) :
      Writes ('-' :: text) (-n)

theorem Magnitude.ne_minus (h : Magnitude text n) (rest : List Char) : text ≠ '-' :: rest := by
  cases h with
  | decimal digits => exact ne_cons_of_mem_many digits rfl rest
  | hexadecimal _ _ => nofun

theorem Magnitude.unique (h : Magnitude text n) (h' : Magnitude text m) : n = m := by
  have hmark {x : Char} {ds : List Char} (mark : x = 'x' ∨ x = 'X')
      (digits : '0' :: x :: ds ∈ many isDigit) : False := by
    have hdigit := (mem_many.mp digits).2 x (by simp)
    rcases mark with rfl | rfl <;> cases hdigit
  cases h with
  | decimal digits =>
    cases h' with
    | decimal _ => rfl
    | hexadecimal mark _ => exact (hmark mark digits).elim
  | hexadecimal mark _ =>
    cases h' with
    | decimal digits => exact (hmark mark digits).elim
    | hexadecimal _ _ => rfl

theorem Writes.unique (h : Writes text i) (h' : Writes text j) : i = j := by
  cases h with
  | plain hm =>
    cases h' with
    | plain hm' => rw [hm.unique hm']
    | negative _ => exact absurd rfl (hm.ne_minus _)
  | negative hm =>
    cases h' with
    | plain hm' => exact absurd rfl (hm'.ne_minus _)
    | negative hm' => rw [hm.unique hm']

theorem exists_magnitude_iff : (∃ n, Magnitude text n) ↔ text ∈ many isDigit +
    oneOf (· == '0') * (oneOf (fun c => c == 'x' || c == 'X') * many isHexDigit) := by
  constructor
  · rintro ⟨_, digits | ⟨mark, digits⟩⟩
    · exact .inl digits
    · exact .inr (mem_oneOf_mul.mpr ⟨'0', _, rfl,
        mem_oneOf_mul.mpr ⟨_, _, by simpa using mark, digits, rfl⟩, rfl⟩)
  · rintro (digits | hhex)
    · exact ⟨_, .decimal digits⟩
    · obtain ⟨z, y, hz, hy, rfl⟩ := mem_oneOf_mul.mp hhex
      obtain ⟨x, ds, mark, digits, rfl⟩ := mem_oneOf_mul.mp hy
      rw [eq_of_beq hz]
      exact ⟨_, .hexadecimal (by simpa using mark) digits⟩

theorem exists_writes_iff : (∃ i, Writes text i) ↔ text ∈ LexemeClass.int.language := by
  rw [LexemeClass.language, mem_optionally]
  constructor
  · rintro ⟨_, hm | hm⟩
    · exact .inl (exists_magnitude_iff.mp ⟨_, hm⟩)
    · exact .inr ⟨'-', _, rfl, exists_magnitude_iff.mp ⟨_, hm⟩, rfl⟩
  · rintro (h | ⟨c, y, hc, h, rfl⟩)
    · obtain ⟨n, hm⟩ := exists_magnitude_iff.mpr h
      exact ⟨n, .plain hm⟩
    · obtain ⟨n, hm⟩ := exists_magnitude_iff.mpr h
      rw [eq_of_beq hc]
      exact ⟨-n, .negative hm⟩

theorem readInt?_of_digits {least : Int} (most : Int) (hread : readDigits? base ds = some n)
    (hplus : ∀ rest, ds ≠ '+' :: rest) (hminus : ∀ rest, ds ≠ '-' :: rest) (hleast : least ≤ 0) :
    readInt? base least most ds = if (n : Int) ≤ most then some (n : Int) else none := by
  have hle : least ≤ n := hleast.trans (Int.natCast_nonneg n)
  by_cases hmost : (n : Int) ≤ most <;> simp [readInt?, hread, hle, hmost, Option.filter]

theorem Magnitude.signedMagnitude?_eq (h : Magnitude text n) :
    signedMagnitude? text =
        (if (n : Int) ≤ greatestMagnitude then some (false, (n : Int)) else none) ∧
      signedMagnitude? ('-' :: text) =
        (if (n : Int) ≤ greatestMagnitude then some (true, (n : Int)) else none) := by
  have hleast : leastMagnitude ≤ 0 := by decide
  have hminus := h.ne_minus
  cases h with
  | decimal digits =>
    have hsmall (rest : List Char) : text ≠ '0' :: 'x' :: rest := by
      rintro rfl
      exact absurd ((mem_many.mp digits).2 'x' (by simp)) (by decide)
    have hcapital (rest : List Char) : text ≠ '0' :: 'X' :: rest := by
      rintro rfl
      exact absurd ((mem_many.mp digits).2 'X' (by simp)) (by decide)
    have hread := readInt?_of_digits greatestMagnitude (readDigits?_ten_iff.mpr ⟨digits, rfl⟩)
      (ne_cons_of_mem_many digits rfl) hminus hleast
    constructor <;> simp only [signedMagnitude?, hread] <;> split_ifs <;> rfl
  | @hexadecimal x ds mark digits =>
    have hread := readInt?_of_digits greatestMagnitude (readDigits?_sixteen_iff.mpr ⟨digits, rfl⟩)
      (ne_cons_of_mem_many digits rfl) (ne_cons_of_mem_many digits rfl) hleast
    rcases mark with rfl | rfl <;> constructor <;> simp only [signedMagnitude?, hread] <;>
      split_ifs <;> rfl

/-- An integer is read as the number it writes, if 64 bits hold this. -/
theorem Writes.int_eq (h : Writes text i) :
    int text =
      if leastInt ≤ i ∧ i ≤ greatestInt then .ok (Int64.ofInt i) else .error .invalid := by
  have hgreatest : greatestInt ≤ greatestMagnitude := by decide
  have hleast : -greatestMagnitude ≤ leastInt := by decide
  cases h with
  | @plain _ n hm =>
    rw [int, hm.signedMagnitude?_eq.1]
    by_cases hn : (n : Int) ≤ greatestMagnitude
    · simp [hn]
    · rw [if_neg hn, if_neg (by omega)]
  | @negative _ n hm =>
    rw [int, hm.signedMagnitude?_eq.2]
    by_cases hn : (n : Int) ≤ greatestMagnitude
    · simp [hn, opposite?_natCast hn]
    · rw [if_neg hn, if_neg (by omega)]

end Literal

namespace Token

open Literal (Writes)

variable {token : Token} {v : Int64} {r : Char} {k : UInt8}

theorem readInt_eq_ok_iff_of_writes (h : Writes token.text.toList i) :
    token.readInt = .ok v ↔ (leastInt ≤ i ∧ i ≤ greatestInt) ∧ v.toInt = i := by
  rw [readInt_eq_ok_iff, h.int_eq]
  constructor
  · intro hv
    split_ifs at hv with hrange
    cases hv
    exact ⟨hrange, Int64.toInt_ofInt_of_le hrange.1 (Int.lt_add_one_of_le hrange.2)⟩
  · rintro ⟨hrange, rfl⟩
    rw [if_pos hrange, Int64.ofInt_toInt]

theorem exists_readInt_iff_of_writes (h : Writes token.text.toList i) :
    (∃ v, token.readInt = .ok v) ↔ leastInt ≤ i ∧ i ≤ greatestInt := by
  constructor
  · rintro ⟨v, hv⟩
    exact ((readInt_eq_ok_iff_of_writes h).mp hv).1
  · intro hrange
    have hvalue : (Int64.ofInt i).toInt = i :=
      Int64.toInt_ofInt_of_le hrange.1 (Int.lt_add_one_of_le hrange.2)
    exact ⟨Int64.ofInt i, (readInt_eq_ok_iff_of_writes h).mpr ⟨hrange, hvalue⟩⟩

theorem readRegister_eq_ok_iff_of_digits (htext : token.text.toList = r :: ds)
    (hr : r = 'r' ∨ r = 'R') (hds : ds ∈ many isDigit) :
    token.readRegister = .ok k ↔ positional 10 ds < 8 ∧ k.toNat = positional 10 ds := by
  have hsize : r.utf8Size = 1 := by rcases hr with rfl | rfl <;> rfl
  have hindex : Literal.registerIndex? token.text.toList =
      if positional 10 ds ≤ Literal.greatestRegisterIndex then some (positional 10 ds)
      else none := by
    have hplus := ne_cons_of_mem_many (c := '+') hds rfl
    rw [htext, Literal.registerIndex?, if_pos hsize]
    split_ifs with hle <;> simp [readNat?, readDigits?_ten_iff.mpr ⟨hds, rfl⟩, Option.filter, hle]
  have hbound : positional 10 ds < 8 → positional 10 ds ≤ Literal.greatestRegisterIndex :=
    fun hlt => hlt.le.trans (by decide)
  rw [readRegister_eq_ok_iff, hindex]
  constructor
  · rintro ⟨index, hsome, hlt, rfl⟩
    obtain ⟨-, heq⟩ := Option.ite_none_right_eq_some.mp hsome
    obtain rfl := Option.some.inj heq
    refine ⟨hlt, ?_⟩
    rw [UInt8.toNat_ofNat']
    exact Nat.mod_eq_of_lt (hlt.trans (by decide))
  · rintro ⟨hlt, hk⟩
    refine ⟨_, if_pos (hbound hlt), hlt, ?_⟩
    rw [← hk, UInt8.ofNat_toNat]

end Token

/-! ## Offsets of entry points -/

/-- The second program is the first with an entry point at an offset and an instruction in its
place that does nothing. -/
structure Program.WithEntry (p : Program) (offset : Int) (q : Program) : Prop where
  declared : q.entry.declared
  offset_eq : (q.entry.offset.toNat : Int) = offset
  instructions_eq : q.instructions.toList = p.instructions.toList ++ [.bare .nop]
  strings_eq : q.strings.toList = p.strings.toList

namespace Phrase

open Literal (Writes)

variable {token directive : Token} {p q p' : Program} {rest : List Token}

def isOffset (i : Int) : Prop := 0 ≤ i ∧ i ≤ 0xffffffff

theorem room_entryPoint (hundeclared : p.entry.declared = false)
    (hsize : p.instructions.size < maxProgramSize) (offset : UInt32) (line : Nat) :
    Room p [.entryPoint offset line] where
  length_le := hsize
  strings_le := p.parts_valid.strings_le
  bytes_le := p.parts_valid.bytes_le
  offsets_le := by
    rw [hundeclared]
    rfl

/-- A directive with an offset declares the entry point of a program that has none. -/
theorem encodeOnto_directive (hdirective : directive.kind = .entryPoint) (hkind : token.kind = .int)
    (h : Writes token.text.toList i) (hoffset : isOffset i) (hundeclared : p.entry.declared = false)
    (hsize : p.instructions.size < maxProgramSize) :
    ∃ q, p.WithEntry i q ∧
      ∀ rest, encodeOnto p 0 (directive :: token :: rest) = encodeOnto q 0 rest := by
  have hrange : leastInt ≤ i ∧ i ≤ greatestInt := by
    obtain ⟨hleast, hmost⟩ := hoffset
    simp only [leastInt, greatestInt]
    omega
  obtain ⟨v, hv⟩ := (Token.exists_readInt_iff_of_writes h).mpr hrange
  obtain ⟨-, rfl⟩ := (Token.readInt_eq_ok_iff_of_writes h).mp hv
  have hspelled : Spelled [directive, token] _ :=
    .entryPoint hdirective hkind (Token.readInt_eq_ok_iff.mp hv) hoffset
  obtain ⟨q, hq⟩ := hspelled.exists_addTo (room_entryPoint hundeclared hsize _ _)
  obtain ⟨hinstructions, hstrings, hentry, -⟩ := addTo_eq_ok hq
  refine ⟨q, ⟨?_, ?_, hinstructions, ?_⟩, fun rest => ?_⟩
  · rw [hentry]
    rfl
  · have hsmall : v.toInt.toNat < 2 ^ 32 := by
      obtain ⟨hleast, hmost⟩ := hoffset
      omega
    rw [hentry]
    simp only [offset?, Option.elim_some, UInt32.toNat_ofNat', Nat.mod_eq_of_lt hsmall]
    exact Int.toNat_of_nonneg hoffset.1
  · exact hstrings.trans (List.append_nil _)
  · have happend := hspelled.encodeOnto_append p rest
    rw [hq] at happend
    exact happend

theorem encodeOnto_directive_of_not_offset (hdirective : directive.kind = .entryPoint)
    (hkind : token.kind = .int) (h : Writes token.text.toList i) (hoffset : ¬ isOffset i)
    (p : Program) (rest : List Token) :
    ∃ kind, encodeOnto p 0 (directive :: token :: rest) = .error (token.invalid kind) := by
  have hread : ∃ kind, read directive (token :: rest) = .error (token.invalid kind) := by
    simp only [read, hdirective, ofDirective, hkind]
    cases hv : token.readInt with
    | error e =>
      rw [Token.readInt, h.int_eq] at hv
      split_ifs at hv
      cases hv
      exact ⟨.integer, rfl⟩
    | ok v =>
      obtain ⟨-, rfl⟩ := (Token.readInt_eq_ok_iff_of_writes h).mp hv
      exact ⟨.entryPoint, if_neg hoffset⟩
  obtain ⟨kind, hkind⟩ := hread
  exact ⟨kind, by simp only [encodeOnto, hkind]⟩

theorem entry_of_encodeOnto (hdeclared : p.entry.declared) (h : encodeOnto p 0 rest = .ok q) :
    q.entry = p.entry := by
  obtain ⟨φs, hsource⟩ := exists_source h
  rw [hsource.encodeOnto_eq] at h
  obtain ⟨-, -, hentry, hoffsets⟩ := foldlM_eq_ok h
  rw [hdeclared, Bool.toNat_true] at hoffsets
  have hnil : offsets φs = [] := List.length_eq_zero_iff.mp (by omega)
  rw [hentry, hnil]
  rfl

end Phrase

open Literal (Writes) in
/-- An integer of a source writes one number. It is read exactly if 64 bits hold this number, and
then as the number. Behind the directive of the entry point it is accepted exactly if it is an
offset of 32 bits, which stays the entry point of the program. A register is read exactly if its
digits write a number below eight, and then as the number. -/
theorem literals_read_as_written (token : Token) :
    (token.text.toList ∈ LexemeClass.int.language → ∃ i, (∀ j, Writes token.text.toList j ↔ j = i) ∧
      ((∃ v, token.readInt = .ok v) ↔ -2 ^ 63 ≤ i ∧ i ≤ 2 ^ 63 - 1) ∧
      (∀ v, token.readInt = .ok v → v.toInt = i) ∧
      ∀ (directive : Token) (p : Program), directive.kind = .entryPoint → token.kind = .int →
        p.entry.declared = false → p.instructions.size < maxProgramSize →
        (0 ≤ i ∧ i ≤ 2 ^ 32 - 1 → ∃ q, p.WithEntry i q ∧ ∀ rest,
          encodeOnto p 0 (directive :: token :: rest) = encodeOnto q 0 rest ∧
          ∀ p', encodeOnto q 0 rest = .ok p' → p'.entry = q.entry) ∧
        (¬(0 ≤ i ∧ i ≤ 2 ^ 32 - 1) → ∀ rest, ∃ kind,
          encodeOnto p 0 (directive :: token :: rest) = .error (token.invalid kind))) ∧
    ∀ r digits, token.text.toList = r :: digits → (r = 'r' ∨ r = 'R') → digits ∈ many isDigit →
      ∀ k, token.readRegister = .ok k ↔
        positional 10 digits < 8 ∧ k.toNat = positional 10 digits := by
  constructor
  · intro hint
    obtain ⟨i, hi⟩ := Literal.exists_writes_iff.mpr hint
    refine ⟨i, ?_, Token.exists_readInt_iff_of_writes hi, ?_, ?_⟩
    · exact fun j => ⟨fun hj => hj.unique hi, fun hj => hj ▸ hi⟩
    · exact fun v hv => ((Token.readInt_eq_ok_iff_of_writes hi).mp hv).2
    · intro directive p hdirective hkind hundeclared hsize
      constructor
      · intro hoffset
        obtain ⟨q, hq, hencode⟩ :=
          Phrase.encodeOnto_directive hdirective hkind hi hoffset hundeclared hsize
        exact ⟨q, hq, fun rest => ⟨hencode rest, fun p' => Phrase.entry_of_encodeOnto hq.declared⟩⟩
      · intro hoffset
        exact Phrase.encodeOnto_directive_of_not_offset hdirective hkind hi hoffset p
  · intro r digits htext hr hdigits k
    exact Token.readRegister_eq_ok_iff_of_digits htext hr hdigits

private def directiveToken : Token := ⟨.entryPoint, "@entrypoint", ⟨1, 1⟩⟩

private def intToken (text : String) : Token := ⟨.int, text, ⟨1, 13⟩⟩

private theorem mem_many_of_all {p : Char → Bool} (hne : ds ≠ []) (h : ds.all p) : ds ∈ many p :=
  mem_many.mpr ⟨hne, List.all_eq_true.mp h⟩

/-- The least integer is read with zeros in front, the greatest offset is declared and the next
number is refused, and zeros in front of a register do not count. -/
theorem literals_read_as_written_bounds :
    (∃ v, (intToken "-0x008000000000000000").readInt = .ok v ∧ v.toInt = -2 ^ 63) ∧
    (∃ q, Program.empty.WithEntry (2 ^ 32 - 1) q ∧ ∀ rest,
      encodeOnto .empty 0 (directiveToken :: intToken "04294967295" :: rest) =
        encodeOnto q 0 rest) ∧
    (∀ rest, ∃ kind, encodeOnto .empty 0 (directiveToken :: intToken "4294967296" :: rest) =
      .error ((intToken "4294967296").invalid kind)) ∧
    Token.readRegister ⟨.register, "R0000000000000000000007", ⟨1, 5⟩⟩ = .ok 7 := by
  have hdecimal (ds : String) (hne : ds.toList ≠ []) (h : ds.toList.all isDigit) :
      Literal.Writes (intToken ds).text.toList (positional 10 ds.toList : Nat) :=
    .plain (.decimal (mem_many_of_all hne h))
  refine ⟨?_, ?_, ?_, ?_⟩
  · have hdigits : "008000000000000000".toList ∈ many isHexDigit :=
      mem_many_of_all (by decide) (by decide)
    have hwrites : Literal.Writes (intToken "-0x008000000000000000").text.toList (-2 ^ 63) :=
      .negative (.hexadecimal (.inl rfl) hdigits)
    obtain ⟨i, hi, hread, hvalue, -⟩ :=
      (literals_read_as_written (intToken "-0x008000000000000000")).1
        (Literal.exists_writes_iff.mp ⟨_, hwrites⟩)
    obtain rfl := (hi _).mp hwrites
    obtain ⟨v, hv⟩ := hread.mpr (by decide)
    exact ⟨v, hv, hvalue v hv⟩
  · have hwrites := hdecimal "04294967295" (by decide) (by decide)
    obtain ⟨i, hi, -, -, hentry⟩ := (literals_read_as_written (intToken "04294967295")).1
      (Literal.exists_writes_iff.mp ⟨_, hwrites⟩)
    obtain rfl := (hi _).mp hwrites
    obtain ⟨q, hq, hencode⟩ := (hentry directiveToken .empty rfl rfl rfl (by decide)).1 (by decide)
    exact ⟨q, hq, fun rest => (hencode rest).1⟩
  · have hwrites := hdecimal "4294967296" (by decide) (by decide)
    obtain ⟨i, hi, -, -, hentry⟩ := (literals_read_as_written (intToken "4294967296")).1
      (Literal.exists_writes_iff.mp ⟨_, hwrites⟩)
    obtain rfl := (hi _).mp hwrites
    exact (hentry directiveToken .empty rfl rfl rfl (by decide)).2 (by decide)
  · have hdigits : "0000000000000000000007".toList ∈ many isDigit :=
      mem_many_of_all (by decide) (by decide)
    have hread := (literals_read_as_written ⟨.register, "R0000000000000000000007", ⟨1, 5⟩⟩).2 'R'
      "0000000000000000000007".toList rfl (.inr rfl) hdigits 7
    exact hread.mpr (by decide)

end InvariantMachine

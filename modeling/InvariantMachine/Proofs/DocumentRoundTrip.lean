import Mathlib
import InvariantMachine.Assembly.Encode
import InvariantMachine.Code.Document
import InvariantMachine.Proofs.RereadNumbers
import InvariantMachine.Proofs.Validity

/-!
# Programs read back from their documents

The document of a program is read part by part, and every part is read back as it was but for the
numbers: a float comes back as what its text is read as. So a program comes back whole exactly when
its floats do, and it is refused exactly when one of them is not finite.
-/

namespace InvariantMachine

open Json (Gives GivesFields Reading)

namespace Json.Gives

variable {ε α β : Type} {read : Reading ε α} {document : Json} {result : Option α} {a : α}

theorem andThen_some {f : α → Reading ε β} {b : β} (h : Gives read document (some a))
    (hf : ∀ rest, (f a).run rest = .ok (b, rest)) : Gives (read >>= f) document (some b) := by
  intro w cs rest hw hcs hrest
  exact (Reading.run_bind_of_ok (h w cs rest hw hcs hrest)).trans (hf rest)

theorem andThen {γ : Type} {f : α → Reading ε β} {r : Option γ} {k : γ → α} {g : γ → β}
    (h : Gives read document (r.map k)) (hf : ∀ c rest, (f (k c)).run rest = .ok (g c, rest)) :
    Gives (read >>= f) document (r.map g) := by
  cases r with
  | none => exact fun w cs rest hw hcs hrest => Reading.run_bind_of_error (h w cs rest hw hcs hrest)
  | some c => exact h.andThen_some (hf c)

theorem once (h : Gives read document result) (f : Option α → β) :
    Gives (do return f (← Reading.once none read)) document (result.map fun a => f (some a)) :=
  (Option.map_map f some result ▸ (h.map some).map f :)

end Json.Gives

section Lists

variable {α β : Type} {f : α → Option β} {l : List α} {l' : List β}

theorem mapM_eq_some_iff : l.mapM f = some l' ↔ List.Forall₂ (fun a b => f a = some b) l l' := by
  induction l generalizing l' with
  | nil => simp [eq_comm]
  | cons a l ih =>
    rw [List.mapM_cons]
    cases h : f a <;> cases hl : l.mapM f <;>
      simp [List.forall₂_cons_left_iff, h, ← ih, hl, eq_comm]

theorem mapM_eq_none_iff : l.mapM f = none ↔ ∃ a ∈ l, f a = none := by
  induction l with
  | nil => simp
  | cons a l ih =>
    rw [List.mapM_cons]
    cases h : f a <;> cases hl : l.mapM f <;> simp_all

theorem exists_of_mem_of_forall₂ {R : α → β → Prop} {b : β} (h : List.Forall₂ R l l')
    (hb : b ∈ l') : ∃ a ∈ l, R a b := by
  induction h with
  | nil => cases hb
  | cons hab _ ih =>
    rcases List.mem_cons.mp hb with rfl | hb
    · exact ⟨_, List.mem_cons_self, hab⟩
    · obtain ⟨a, ha, hR⟩ := ih hb
      exact ⟨a, List.mem_cons_of_mem _ ha, hR⟩

end Lists

variable {ε : Type}

theorem Opcode.ofName?_name (op : Opcode) : ofName? op.name = some op := by
  cases op <;> decide

theorem Opcode.gives_read (op : Opcode) : Gives (read : Reading ε _) op.document (some op) :=
  .plain op.ofName?_name

namespace Operand

/-- What the document of an operand is read back as, if it is read. -/
def reread? : Operand → Option Operand
  | float x => (Json.reread? x).map float
  | operand => some operand

theorem gives_readInt (v : Int64) : Gives (readInt : Reading ε _) (.integer v.toInt) (some v) := by
  have hrange : leastInt ≤ v.toInt ∧ v.toInt ≤ greatestInt :=
    ⟨v.le_toInt, Int.le_of_lt_add_one v.toInt_lt⟩
  have hread : Gives (readInt : Reading ε _) (.integer v.toInt) (some (Int64.ofInt v.toInt)) :=
    (Gives.integer le_rfl (by decide) hrange).map Int64.ofInt
  rwa [Int64.ofInt_toInt] at hread

theorem gives_natural {n most : Nat} (hmost : most ≤ Json.Numeral.greatestSignificand)
    (hn : n ≤ most) : Gives (Reading.natural most : Reading ε _) (.integer n) (some n) :=
  (Gives.integer (by decide) (by exact_mod_cast hmost) ⟨by omega, by omega⟩).map Int.toNat

theorem gives_readRegister (r : UInt8) :
    Gives (readRegister : Reading ε _) (.integer r.toNat) (some r) := by
  have hread : Gives (readRegister : Reading ε _) (.integer r.toNat) (some (UInt8.ofNat r.toNat)) :=
    (gives_natural (by decide) (Nat.le_of_lt_succ r.toNat_lt)).map UInt8.ofNat
  rwa [UInt8.ofNat_toNat] at hread

theorem gives_readIndex (k : UInt32) :
    Gives (readIndex : Reading ε _) (.integer k.toNat) (some k) := by
  have hread : Gives (readIndex : Reading ε _) (.integer k.toNat) (some (UInt32.ofNat k.toNat)) :=
    (gives_natural (by decide) (Nat.le_of_lt_succ k.toNat_lt)).map UInt32.ofNat
  rwa [UInt32.ofNat_toNat] at hread

theorem gives_read (operand : Operand) :
    Gives (read : Reading ε _) operand.document operand.reread? := by
  have carried {name : String} {document : Json} {read : Reading ε Operand}
      {result : Option Operand} (hplain : ofName? name = Option.none)
      (hname : carried? name = some read) (h : Gives read document result) :
      Gives Operand.read (.tagged name document) result := .tagged hplain hname h
  cases operand with
  | none => exact .plain rfl
  | int v => exact carried rfl rfl ((gives_readInt v).map int)
  | float x => exact carried rfl rfl ((Gives.number x).map float)
  | char c => exact carried rfl rfl ((Gives.char c).map char)
  | register r => exact carried rfl rfl ((gives_readRegister r).map register)
  | stringIndex k => exact carried rfl rfl ((gives_readIndex k).map stringIndex)
  | top => exact .plain rfl

end Operand

namespace Instruction

def reread? (i : Instruction) : Option Instruction :=
  i.operand.reread?.map fun operand => { i with operand }

theorem gives_register (register : Option UInt8) :
    Gives (Reading.optional Operand.readRegister : Reading ε _)
      (.optional (fun r => .integer r.toNat) register) (some register) := by
  cases register with
  | none => exact .optional_null
  | some r =>
    exact .optional_of_opens (Json.opens_integer r.toNat) (by decide) (Operand.gives_readRegister r)

theorem gives_read (i : Instruction) : Gives (read : Reading ε _) i.document i.reread? := by
  have hopcode : Gives (readField "opcode" {} : Reading ε _) i.opcode.document
      (some ⟨some i.opcode, none, none⟩) :=
    (Opcode.gives_read i.opcode).once fun opcode => Fields.mk opcode none none
  have hregister : Gives (readField "register" ⟨some i.opcode, none, none⟩ : Reading ε _)
      (.optional (fun r => .integer r.toNat) i.register)
      (some ⟨some i.opcode, some i.register, none⟩) :=
    (gives_register i.register).once fun register => Fields.mk (some i.opcode) register none
  have hoperand : Gives
      (readField "operand" ⟨some i.opcode, some i.register, none⟩ : Reading ε _) i.operand.document
      (i.operand.reread?.map fun operand => ⟨some i.opcode, some i.register, some operand⟩) :=
    (Operand.gives_read i.operand).once fun operand =>
      Fields.mk (some i.opcode) (some i.register) operand
  have hfields : Gives (Reading.object readField {} : Reading ε _) i.document
      (i.operand.reread?.map fun operand => ⟨some i.opcode, some i.register, some operand⟩) :=
    .object (.cons hopcode (.cons hregister (.last hoperand)))
  exact .record (hfields.andThen fun _ _ => rfl)

variable {i j : Instruction}

theorem eq_or_float_of_reread? (h : i.reread? = some j) :
    j = i ∨ ∃ x y, i.operand = .float x ∧ j = { i with operand := .float y } := by
  obtain ⟨operand, hoperand, rfl⟩ := Option.map_eq_some_iff.mp h
  cases hi : i.operand with
  | float x =>
    rw [hi, Operand.reread?, Option.map_eq_some_iff] at hoperand
    obtain ⟨y, -, rfl⟩ := hoperand
    exact .inr ⟨x, y, rfl, rfl⟩
  | _ =>
    rw [hi, Operand.reread?, Option.some.injEq, ← hi] at hoperand
    · exact .inl (hoperand ▸ rfl)
    · rintro x ⟨⟩

theorem isWellFormed_of_reread? (h : i.reread? = some j) (hi : i.isWellFormed) :
    j.isWellFormed := by
  rcases eq_or_float_of_reread? h with rfl | ⟨x, y, hx, rfl⟩
  · exact hi
  · obtain ⟨opcode, register, operand⟩ := i
    subst hx
    -- the shape of no opcode tells two floats apart
    have hsame : isWellFormed ⟨opcode, register, .float y⟩ =
        isWellFormed ⟨opcode, register, .float x⟩ := by
      cases hshape : opcode.shape <;> cases register <;> simp [isWellFormed, isLiteral, hshape]
    exact hsame.trans hi

theorem refersBelow_of_reread? {count : Nat} (h : i.reread? = some j) (hi : i.RefersBelow count) :
    j.RefersBelow count := by
  rcases eq_or_float_of_reread? h with rfl | ⟨x, y, -, rfl⟩
  · exact hi
  · rintro k ⟨⟩

theorem reread?_eq_self_iff :
    i.reread? = some i ↔ ∀ x, i.operand = .float x → Json.reread? x = some x := by
  obtain ⟨opcode, register, operand⟩ := i
  cases operand <;> simp [reread?, Operand.reread?]

theorem reread?_eq_none_iff :
    i.reread? = none ↔ ∃ x, i.operand = .float x ∧ Json.reread? x = none := by
  obtain ⟨opcode, register, operand⟩ := i
  cases operand <;> simp [reread?, Operand.reread?]

end Instruction

theorem EntryPoint.gives_read (entry : EntryPoint) :
    Gives (read : Reading ε _) entry.document (some entry) := by
  have hoffset : Gives (readField "offset" {} : Reading ε _) (.integer entry.offset.toNat)
      (some ⟨some entry.offset, none⟩) :=
    (Operand.gives_readIndex entry.offset).once fun offset => Fields.mk offset none
  have hdeclared : Gives (readField "declared" ⟨some entry.offset, none⟩ : Reading ε _)
      (.boolean entry.declared) (some ⟨some entry.offset, some entry.declared⟩) :=
    (Gives.boolean entry.declared).once fun declared =>
      Fields.mk (some entry.offset) declared
  have hfields : Gives (Reading.object readField {} : Reading ε _) entry.document
      (some ⟨some entry.offset, some entry.declared⟩) :=
    .object (.cons hoffset (.last hdeclared))
  exact .record (hfields.andThen_some fun _ => rfl)

theorem StringPool.ofList_toList (pool : StringPool) : ofList pool.toList = .ok pool := by
  have hlength : pool.toList.length ≤ maxStrings := pool.size_le
  exact internAll_eq_ok_iff.mpr
    ⟨by simpa [empty, size] using hlength, by simpa [empty, toList, totalBytes] using
      pool.totalBytes_toList_le, rfl⟩

theorem StringPool.gives_read (pool : StringPool) : Gives read pool.document (some pool) := by
  have hall (texts : List String) : texts.mapM some = some texts := by
    simpa using List.mapM_pure (m := Option) (f := id) (l := texts)
  have htexts : Gives (Reading.array Reading.string : Reading ProgramError _) pool.document
      (some pool.toList) := by
    rw [← hall pool.toList]
    exact .array Json.opens_string (by decide) fun text _ => .string text
  refine htexts.andThen_some fun rest => ?_
  rw [pool.ofList_toList]
  rfl

namespace Program

/-- What the document of a program is read back as, if it is read. -/
def reread? (p : Program) : Option Program :=
  (p.instructions.toList.mapM Instruction.reread?).bind fun xs =>
    (ofParts xs p.strings p.entry).toOption

theorem gives_readParts (p : Program) : Gives readParts p.document
    ((p.instructions.toList.mapM Instruction.reread?).map fun xs => (xs, p.strings, p.entry)) := by
  have hinstructions : Gives (readField "instructions" {})
      (.array (p.instructions.toList.map Instruction.document))
      ((p.instructions.toList.mapM Instruction.reread?).map fun xs => ⟨some xs, none, none⟩) :=
    (Gives.array (fun _ => Json.opens_object _) (by decide) fun i _ => i.gives_read).once fun xs =>
      Fields.mk xs none none
  have hstrings (xs : List Instruction) : Gives (readField "strings" ⟨some xs, none, none⟩)
      p.strings.document (some ⟨some xs, some p.strings, none⟩) :=
    p.strings.gives_read.once fun strings => Fields.mk (some xs) strings none
  have hentry (xs : List Instruction) : Gives (readField "entry" ⟨some xs, some p.strings, none⟩)
      p.entry.document (some ⟨some xs, some p.strings, some p.entry⟩) :=
    p.entry.gives_read.once fun entry => Fields.mk (some xs) (some p.strings) entry
  have hfields : Gives (Reading.object readField {}) p.document
      ((p.instructions.toList.mapM Instruction.reread?).map fun xs =>
        ⟨some xs, some p.strings, some p.entry⟩) := by
    refine .object ?_
    cases hread : p.instructions.toList.mapM Instruction.reread? with
    | none =>
      rw [hread] at hinstructions
      exact .refused hinstructions
    | some xs =>
      rw [hread] at hinstructions
      exact .cons hinstructions (.cons (hstrings xs) (.last (hentry xs)))
  exact .record (hfields.andThen fun _ _ => rfl)

variable {p q : Program} {xs : List Instruction} {x : Binary64}

theorem valid_of_mapM_reread? (h : p.instructions.toList.mapM Instruction.reread? = some xs) :
    (Parts.mk xs p.strings.toList).Valid := by
  have hvalid := p.parts_valid
  have hread := mapM_eq_some_iff.mp h
  have hkept : ∀ j ∈ xs, j.isWellFormed ∧ j.RefersBelow p.strings.toList.length := by
    intro j hj
    obtain ⟨i, hi, hij⟩ := exists_of_mem_of_forall₂ hread hj
    exact ⟨Instruction.isWellFormed_of_reread? hij (hvalid.wellFormed i hi),
      Instruction.refersBelow_of_reread? hij (hvalid.resolved i hi)⟩
  refine ⟨?_, fun j hj => (hkept j hj).1, fun j hj => (hkept j hj).2, hvalid.strings_le,
    hvalid.bytes_le⟩
  exact hread.length_eq ▸ hvalid.length_le

theorem exists_ofParts_of_mapM_reread?
    (h : p.instructions.toList.mapM Instruction.reread? = some xs) :
    ∃ q, ofParts xs p.strings p.entry = .ok q := by
  obtain ⟨q, hparts, hentry⟩ := exists_parts (valid_of_mapM_reread? h) p.entry
  exact ⟨q, ofParts_eq_ok_iff.mpr ⟨hparts ▸ q.parts_valid, hparts, hentry⟩⟩

theorem gives_read (p : Program) : Gives read p.document p.reread? := by
  have hparts := p.gives_readParts
  unfold reread?
  cases hread : p.instructions.toList.mapM Instruction.reread? with
  | none =>
    rw [hread] at hparts
    exact fun w cs rest hw hcs hrest => Reading.run_bind_of_error (hparts w cs rest hw hcs hrest)
  | some xs =>
    rw [hread] at hparts
    obtain ⟨q, hq⟩ := exists_ofParts_of_mapM_reread? hread
    rw [Option.bind_some, hq]
    exact hparts.andThen_some fun rest => built_run_eq_ok_iff.mpr ⟨hq, rfl⟩

/-- A document is read back as the program with its floats reread. -/
theorem ofDocumentText_of_spells {text : String} (h : Json.Spells p.document text.toList) :
    ofDocumentText text = p.reread?.elim (.error .malformed) .ok :=
  p.gives_read.whole h

theorem reread?_eq_some_iff : p.reread? = some q ↔
    p.instructions.toList.mapM Instruction.reread? = some q.instructions.toList ∧
      q.strings = p.strings ∧ q.entry = p.entry := by
  rw [reread?, Option.bind_eq_some_iff]
  constructor
  · rintro ⟨xs, hread, hq⟩
    obtain ⟨q', hq'⟩ := exists_ofParts_of_mapM_reread? hread
    obtain rfl : q' = q := by simpa [hq', Except.toOption] using hq
    obtain ⟨-, hparts, hentry⟩ := ofParts_eq_ok_iff.mp hq'
    simp only [parts, Parts.mk.injEq] at hparts
    exact ⟨hparts.1 ▸ hread, StringPool.ext (Array.toList_inj.mp hparts.2), hentry⟩
  · rintro ⟨hread, hstrings, hentry⟩
    have hq : ofParts q.instructions.toList p.strings p.entry = .ok q :=
      ofParts_eq_ok_iff.mpr ⟨hstrings ▸ q.parts_valid, hstrings ▸ rfl, hentry⟩
    exact ⟨_, hread, by rw [hq]; rfl⟩

def HasFloat (p : Program) (x : Binary64) : Prop := ∃ i ∈ p.instructions, i.operand = .float x

theorem reread?_eq_self_iff : p.reread? = some p ↔ ∀ x, p.HasFloat x → Json.reread? x = some x := by
  rw [reread?_eq_some_iff, mapM_eq_some_iff, List.forall₂_same]
  simp only [Array.mem_toList_iff, Instruction.reread?_eq_self_iff, HasFloat]
  constructor
  · rintro ⟨h, -, -⟩ x ⟨i, hi, hx⟩
    exact h i hi x hx
  · intro h
    exact ⟨fun i hi x hx => h x ⟨i, hi, hx⟩, trivial, trivial⟩

theorem reread?_eq_none_iff : p.reread? = none ↔ ∃ x, p.HasFloat x ∧ Json.reread? x = none := by
  have hread : p.reread? = none ↔ p.instructions.toList.mapM Instruction.reread? = none := by
    rw [reread?, Option.bind_eq_none_iff]
    constructor
    · intro h
      by_contra hsome
      obtain ⟨xs, hxs⟩ := Option.ne_none_iff_exists'.mp hsome
      obtain ⟨q, hq⟩ := exists_ofParts_of_mapM_reread? hxs
      have hnone := h xs hxs
      rw [hq] at hnone
      cases hnone
    · intro h xs hxs
      rw [h] at hxs
      cases hxs
  rw [hread, mapM_eq_none_iff]
  simp only [Array.mem_toList_iff, Instruction.reread?_eq_none_iff, HasFloat]
  constructor
  · rintro ⟨i, hi, x, hx, hnone⟩
    exact ⟨x, ⟨i, hi, hx⟩, hnone⟩
  · rintro ⟨x, ⟨i, hi, hx⟩, hnone⟩
    exact ⟨i, hi, x, hx, hnone⟩

/-- Both texts of the document of a program, an assembled one among them, are read back as the
program exactly when every float of it is reread as itself, for which few digits and a small power
of ten suffice. They are refused exactly when a float is not finite. -/
theorem document_round_trip (p : Program) (text : String)
    (htext : text = p.document.compact ∨ text = p.document.pretty) :
    (ofDocumentText text = .ok p ↔ ∀ x, p.HasFloat x → Json.reread? x = some x) ∧
    ((∀ x, p.HasFloat x → x.HasExactText) → ofDocumentText text = .ok p) ∧
    (ofDocumentText text = .error .malformed ↔ ∃ x, p.HasFloat x ∧ ¬ x.isFinite) := by
  have hspells : Json.Spells p.document text.toList := by
    rcases htext with rfl | rfl
    · exact Json.spells_compact p.document
    · exact Json.spells_pretty p.document
  have hok : ofDocumentText text = .ok p ↔ ∀ x, p.HasFloat x → Json.reread? x = some x := by
    rw [ofDocumentText_of_spells hspells, ← reread?_eq_self_iff]
    cases p.reread? <;> simp
  have hrefused : ofDocumentText text = .error .malformed ↔
      ∃ x, p.HasFloat x ∧ Json.reread? x = none := by
    rw [ofDocumentText_of_spells hspells, ← reread?_eq_none_iff]
    cases p.reread? <;> simp
  refine ⟨hok, fun hexact => hok.mpr fun x hx => (hexact x hx).reread?_eq, ?_⟩
  simp only [hrefused, Binary64.reread?_eq_none_iff]

def pushFloat (x : Binary64) : Program :=
  ⟨#[.withOperand .push (.float x)], .empty, ⟨0, false⟩, by simp [maxProgramSize],
    by simp [Instruction.withOperand, Instruction.isWellFormed, Opcode.shape,
      Instruction.isLiteral],
    by simp [Instruction.withOperand, Instruction.dangling?]⟩

theorem hasFloat_pushFloat {y : Binary64} : (pushFloat x).HasFloat y ↔ y = x := by
  simp [HasFloat, pushFloat, Instruction.withOperand, eq_comm]

/-- A float that is read back as itself, and a whole one that comes back as its neighbour. -/
theorem document_round_trip_pushFloat :
    (assemble "push 0.1" = .ok (pushFloat 0.1) ∧
      ofDocumentText (pushFloat 0.1).document.pretty = .ok (pushFloat 0.1)) ∧
    assemble "push 9007199254740991.0" = .ok (pushFloat 9007199254740991) ∧
      ofDocumentText (pushFloat 9007199254740991).document.compact ≠
        .ok (pushFloat 9007199254740991) := by
  refine ⟨⟨rfl, ?_⟩, rfl, fun h => ?_⟩
  · refine (document_round_trip _ _ (.inr rfl)).2.1 fun x hx => ?_
    rw [hasFloat_pushFloat.mp hx]
    exact ⟨by decide, by decide +kernel, by decide +kernel⟩
  · have hreread := (document_round_trip _ _ (.inl rfl)).1.mp h _ (hasFloat_pushFloat.mpr rfl)
    exact absurd hreread (by decide +kernel)

/-- The literal is assembled as an infinity, which has no text. -/
theorem infinity_not_read_back :
    assemble "push 1.0e400" = .ok (pushFloat (.infinity false)) ∧
      ofDocumentText (pushFloat (.infinity false)).document.compact = .error .malformed ∧
      ofDocumentText (pushFloat (.infinity false)).document.pretty = .error .malformed := by
  have hnone : (pushFloat (.infinity false)).reread? = none :=
    reread?_eq_none_iff.mpr ⟨_, hasFloat_pushFloat.mpr rfl, Json.reread?_of_not_finite (by decide)⟩
  refine ⟨rfl, ?_, ?_⟩
  · rw [ofDocumentText_of_spells (Json.spells_compact _), hnone]
    rfl
  · rw [ofDocumentText_of_spells (Json.spells_pretty _), hnone]
    rfl

end Program

end InvariantMachine

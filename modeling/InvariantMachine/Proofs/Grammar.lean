import Mathlib
import InvariantMachine.Assembly.Encode
import InvariantMachine.Proofs.Codec
import InvariantMachine.Proofs.Parts

/-!
# The grammar of token lists

A list of tokens is a sequence of phrases: a mnemonic with the operands that the shape of its
opcode demands, or the directive of the entry point with an offset. Reading finds the phrase that
a list begins with exactly when the grammar has one there.
-/

namespace InvariantMachine

namespace Opcode

theorem find?_mnemonics : ∀ entry ∈ mnemonics,
    mnemonics.find? (fun candidate => candidate.1 == entry.1) = some entry := by
  decide

theorem ofMnemonic?_eq_some_iff {text : String} {op : Opcode} :
    ofMnemonic? text = some op ↔ (asciiLowerAll text, op) ∈ mnemonics := by
  constructor
  · intro h
    obtain ⟨entry, hfind, rfl⟩ := Option.map_eq_some_iff.mp h
    have hname : entry.1 = asciiLowerAll text := by simpa using List.find?_some hfind
    rw [← hname]
    exact List.mem_of_find?_eq_some hfind
  · intro h
    rw [ofMnemonic?, find?_mnemonics _ h]
    rfl

end Opcode

namespace Token

variable {token : Token}

/-- The token is a mnemonic of the opcode, in any letter case. -/
def Names (token : Token) (op : Opcode) : Prop :=
  token.kind = .mnemonic ∧ (asciiLowerAll token.text, op) ∈ Opcode.mnemonics

/-- The token stands for the literal. -/
inductive Denotes (token : Token) : Operand → Prop
  | int {v : Int64} (kind : token.kind = .int)
      (text : Literal.int token.text.toList = .ok v) : Denotes token (.int v)
  | float {v : Binary64} (kind : token.kind = .float)
      (text : Literal.float? token.text.toList = some v) : Denotes token (.float v)
  | char {c : Char} (kind : token.kind = .char)
      (text : Literal.char? token.text.toList = some c) : Denotes token (.char c)
  | register {index : Nat} (kind : token.kind = .register)
      (text : Literal.registerIndex? token.text.toList = some index) (bound : index < 8) :
      Denotes token (.register (UInt8.ofNat index))

theorem Denotes.isLiteral {o : Operand} (h : token.Denotes o) :
    Instruction.isLiteral o := by
  cases h with
  | int _ _ | float _ _ | char _ _ => rfl
  | @register index _ _ hbound =>
    simp only [Instruction.isLiteral, Instruction.isRegister, registerCount, UInt8.toNat_ofNat',
      decide_eq_true_eq]
    omega

theorem readInt_eq_ok_iff {v : Int64} :
    token.readInt = .ok v ↔ Literal.int token.text.toList = .ok v := by
  unfold readInt
  split <;> simp_all

theorem readInt_eq_overflow_iff :
    token.readInt = .error .overflow ↔ Literal.int token.text.toList = .error .overflow := by
  unfold readInt
  split <;> simp_all [invalid]

theorem readFloat_eq_ok_iff {v : Binary64} :
    token.readFloat = .ok v ↔ Literal.float? token.text.toList = some v := by
  unfold readFloat
  split <;> simp_all

theorem readChar_eq_ok_iff {c : Char} :
    token.readChar = .ok c ↔ Literal.char? token.text.toList = some c := by
  unfold readChar
  split <;> simp_all

theorem readRegister_eq_ok_iff {r : UInt8} :
    token.readRegister = .ok r ↔
      ∃ index, Literal.registerIndex? token.text.toList = some index ∧ index < 8 ∧
        UInt8.ofNat index = r := by
  unfold readRegister
  split
  · rename_i h
    simp [h]
  · rename_i index h
    split
    · rename_i hlt
      have hlt' : index < 8 := hlt
      simp [h, hlt']
    · rename_i hge
      have hge' : ¬index < 8 := hge
      simp [h, hge']

end Token

namespace Phrase

variable {token head : Token} {op : Opcode} {o : Operand} {φ : Phrase}
  {piece following rest : List Token} {φs : List Phrase}

theorem literal_eq_ok_iff : literal op token = .ok o ↔ token.Denotes o := by
  constructor
  · intro h
    unfold literal at h
    split at h
    · rename_i hkind
      obtain ⟨v, hv, hreturn⟩ := bind_eq_ok_iff.mp h
      cases hreturn
      exact .int hkind (Token.readInt_eq_ok_iff.mp hv)
    · rename_i hkind
      obtain ⟨v, hv, hreturn⟩ := bind_eq_ok_iff.mp h
      cases hreturn
      exact .float hkind (Token.readFloat_eq_ok_iff.mp hv)
    · rename_i hkind
      obtain ⟨c, hc, hreturn⟩ := bind_eq_ok_iff.mp h
      cases hreturn
      exact .char hkind (Token.readChar_eq_ok_iff.mp hc)
    · rename_i hkind
      obtain ⟨r, hr, hreturn⟩ := bind_eq_ok_iff.mp h
      cases hreturn
      obtain ⟨index, htext, hbound, rfl⟩ := Token.readRegister_eq_ok_iff.mp hr
      exact .register hkind htext hbound
    · cases h
  · intro h
    cases h with
    | int hkind htext =>
      simp only [literal, hkind]
      exact bind_eq_ok_iff.mpr ⟨_, Token.readInt_eq_ok_iff.mpr htext, rfl⟩
    | float hkind htext =>
      simp only [literal, hkind]
      exact bind_eq_ok_iff.mpr ⟨_, Token.readFloat_eq_ok_iff.mpr htext, rfl⟩
    | char hkind htext =>
      simp only [literal, hkind]
      exact bind_eq_ok_iff.mpr ⟨_, Token.readChar_eq_ok_iff.mpr htext, rfl⟩
    | register hkind htext hbound =>
      simp only [literal, hkind]
      exact bind_eq_ok_iff.mpr
        ⟨_, Token.readRegister_eq_ok_iff.mpr ⟨_, htext, hbound, rfl⟩, rfl⟩

theorem target_eq_ok_iff :
    target op token = .ok o ↔
      token.kind = .int ∧ ∃ v, Literal.int token.text.toList = .ok v ∧ .int v = o := by
  unfold target
  split
  · rename_i hkind
    rw [bind_eq_ok_iff]
    constructor
    · rintro ⟨v, hv, hreturn⟩
      cases hreturn
      exact ⟨hkind, v, Token.readInt_eq_ok_iff.mp hv, rfl⟩
    · rintro ⟨-, v, htext, rfl⟩
      exact ⟨v, Token.readInt_eq_ok_iff.mpr htext, rfl⟩
  · rename_i hkind
    constructor
    · intro h
      cases h
    · rintro ⟨hint, -⟩
      exact absurd hint hkind

theorem destination_eq_ok_iff {r : UInt8} :
    destination op token = .ok r ↔ token.Denotes (.register r) := by
  unfold destination
  split
  · rename_i hkind
    rw [Token.readRegister_eq_ok_iff]
    constructor
    · rintro ⟨index, htext, hbound, rfl⟩
      exact .register hkind htext hbound
    · intro h
      cases h with
      | register _ htext hbound => exact ⟨_, htext, hbound, rfl⟩
  · rename_i hkind
    simp only [reduceCtorEq, false_iff]
    intro h
    cases h with
    | register hregister _ _ => exact hkind hregister

theorem source_eq_ok_iff :
    source op token = .ok o ↔ (token.kind = .top ∧ o = .top) ∨ token.Denotes o := by
  unfold source
  split
  · rename_i hkind
    constructor
    · intro h
      cases h
      exact .inl ⟨hkind, rfl⟩
    · rintro (⟨-, rfl⟩ | h)
      · rfl
      · cases h <;> simp_all
  · rename_i hkind
    rw [literal_eq_ok_iff]
    constructor
    · exact .inr
    · rintro (⟨htop, -⟩ | h)
      · exact absurd htop hkind
      · exact h

theorem text_eq_ok_iff {t : String} :
    text op token = .ok t ↔ token.kind = .string ∧ token.text = t := by
  unfold text
  split <;> simp_all

/-- The tokens make up the phrase. -/
inductive Spelled : List Token → Phrase → Prop
  | bare {head : Token} {op : Opcode} (name : head.Names op) (shape : op.shape = .none) :
      Spelled [head] (.instruction (.bare op))
  | target {head token : Token} {op : Opcode} {v : Int64} (name : head.Names op)
      (shape : op.shape = .target) (kind : token.kind = .int)
      (text : Literal.int token.text.toList = .ok v) :
      Spelled [head, token] (.instruction (.withOperand op (.int v)))
  | literal {head token : Token} {op : Opcode} {o : Operand} (name : head.Names op)
      (shape : op.shape = .literal) (operand : token.Denotes o) :
      Spelled [head, token] (.instruction (.withOperand op o))
  | move {head register source : Token} {op : Opcode} {r : UInt8} {o : Operand}
      (name : head.Names op) (shape : op.shape = .move)
      (destination : register.Denotes (.register r))
      (operand : (source.kind = .top ∧ o = .top) ∨ source.Denotes o) :
      Spelled [head, register, source] (.instruction ⟨op, some r, o⟩)
  | string {head token : Token} {op : Opcode} (name : head.Names op)
      (shape : op.shape = .stringRef) (kind : token.kind = .string) :
      Spelled [head, token] (.string op token.text)
  | entryPoint {head token : Token} {v : Int64} (directive : head.kind = .entryPoint)
      (kind : token.kind = .int) (text : Literal.int token.text.toList = .ok v)
      (range : 0 ≤ v.toInt ∧ v.toInt ≤ 0xffffffff) :
      Spelled [head, token] (.entryPoint (UInt32.ofNat v.toInt.toNat) head.span.line)

/-- The tokens are those of the phrases end to end. -/
inductive Source : List Token → List Phrase → Prop
  | nil : Source [] []
  | cons {piece rest : List Token} {φ : Phrase} {φs : List Phrase} (first : Spelled piece φ)
      (others : Source rest φs) : Source (piece ++ rest) (φ :: φs)

theorem ofOpcode_eq_ok (hname : head.Names op) (h : ofOpcode op following = .ok φ) :
    ∃ operands rest, following = operands ++ rest ∧ operands.length = φ.operandCount ∧
      Spelled (head :: operands) φ := by
  unfold ofOpcode at h
  split at h
  · rename_i hshape
    cases h
    exact ⟨[], _, rfl, by simp [operandCount, hshape], .bare hname hshape⟩
  · cases h
  · rename_i token rest hshape
    obtain ⟨o, ho, hreturn⟩ := bind_eq_ok_iff.mp h
    cases hreturn
    obtain ⟨hkind, v, htext, rfl⟩ := target_eq_ok_iff.mp ho
    exact ⟨[token], rest, rfl, by simp [operandCount, hshape], .target hname hshape hkind htext⟩
  · rename_i token rest hshape
    obtain ⟨o, ho, hreturn⟩ := bind_eq_ok_iff.mp h
    cases hreturn
    exact ⟨[token], rest, rfl, by simp [operandCount, hshape],
      .literal hname hshape (literal_eq_ok_iff.mp ho)⟩
  · rename_i token rest hshape
    obtain ⟨t, ht, hreturn⟩ := bind_eq_ok_iff.mp h
    cases hreturn
    obtain ⟨hkind, rfl⟩ := text_eq_ok_iff.mp ht
    exact ⟨[token], rest, rfl, rfl, .string hname hshape hkind⟩
  · rename_i register rest hshape
    obtain ⟨r, hr, hsource⟩ := bind_eq_ok_iff.mp h
    split at hsource
    · cases hsource
    · rename_i source rest
      obtain ⟨o, ho, hreturn⟩ := bind_eq_ok_iff.mp hsource
      cases hreturn
      exact ⟨[register, source], rest, rfl, by simp [operandCount, hshape],
        .move hname hshape (destination_eq_ok_iff.mp hr) (source_eq_ok_iff.mp ho)⟩

theorem ofDirective_eq_ok (hkind : head.kind = .entryPoint)
    (h : ofDirective head following = .ok φ) :
    ∃ operands rest, following = operands ++ rest ∧ operands.length = φ.operandCount ∧
      Spelled (head :: operands) φ := by
  unfold ofDirective at h
  split at h
  · cases h
  · rename_i token rest
    split at h
    · rename_i hint
      obtain ⟨v, hv, hreturn⟩ := bind_eq_ok_iff.mp h
      dsimp only at hreturn
      split at hreturn
      · rename_i hrange
        cases hreturn
        exact ⟨[token], rest, rfl, rfl,
          .entryPoint hkind hint (Token.readInt_eq_ok_iff.mp hv) hrange⟩
      · cases hreturn
    · cases h

theorem read_eq_ok (h : read head following = .ok φ) :
    ∃ operands rest, following = operands ++ rest ∧ operands.length = φ.operandCount ∧
      Spelled (head :: operands) φ := by
  unfold read at h
  split at h
  · rename_i hkind
    split at h
    · rename_i op hop
      exact ofOpcode_eq_ok ⟨hkind, Opcode.ofMnemonic?_eq_some_iff.mp hop⟩ h
    · cases h
  · rename_i hkind
    exact ofDirective_eq_ok hkind h
  · cases h

theorem read_of_names (hname : head.Names op) : read head following = ofOpcode op following := by
  obtain ⟨hkind, hmem⟩ := hname
  have hop := Opcode.ofMnemonic?_eq_some_iff.mpr hmem
  simp only [read, hkind, hop]

theorem Spelled.read_append (h : Spelled piece φ) :
    ∃ head operands, piece = head :: operands ∧ operands.length = φ.operandCount ∧
      ∀ rest, read head (operands ++ rest) = .ok φ := by
  cases h with
  | @bare head op hname hshape =>
    refine ⟨head, [], rfl, by simp [operandCount, hshape], fun rest => ?_⟩
    rw [read_of_names hname]
    simp only [ofOpcode, hshape]
  | @target head token op v hname hshape hkind htext =>
    refine ⟨head, [token], rfl, by simp [operandCount, hshape], fun rest => ?_⟩
    rw [read_of_names hname]
    simp only [ofOpcode, hshape, List.singleton_append]
    exact bind_eq_ok_iff.mpr ⟨_, target_eq_ok_iff.mpr ⟨hkind, v, htext, rfl⟩, rfl⟩
  | @literal head token op o hname hshape hdenotes =>
    refine ⟨head, [token], rfl, by simp [operandCount, hshape], fun rest => ?_⟩
    rw [read_of_names hname]
    simp only [ofOpcode, hshape, List.singleton_append]
    exact bind_eq_ok_iff.mpr ⟨_, literal_eq_ok_iff.mpr hdenotes, rfl⟩
  | @move head register source op r o hname hshape hregister hoperand =>
    refine ⟨head, [register, source], rfl, by simp [operandCount, hshape], fun rest => ?_⟩
    rw [read_of_names hname]
    simp only [ofOpcode, hshape, List.cons_append, List.nil_append]
    refine bind_eq_ok_iff.mpr ⟨r, destination_eq_ok_iff.mpr hregister, ?_⟩
    exact bind_eq_ok_iff.mpr ⟨_, source_eq_ok_iff.mpr hoperand, rfl⟩
  | @string head token op hname hshape hkind =>
    refine ⟨head, [token], rfl, rfl, fun rest => ?_⟩
    rw [read_of_names hname]
    simp only [ofOpcode, hshape, List.singleton_append]
    exact bind_eq_ok_iff.mpr ⟨_, text_eq_ok_iff.mpr ⟨hkind, rfl⟩, rfl⟩
  | @entryPoint head token v hdirective hkind htext hrange =>
    refine ⟨head, [token], rfl, rfl, fun rest => ?_⟩
    simp only [read, hdirective, ofDirective, List.singleton_append, hkind]
    refine bind_eq_ok_iff.mpr ⟨v, Token.readInt_eq_ok_iff.mpr htext, ?_⟩
    exact if_pos hrange

/-- A list of tokens is a sequence of phrases in one way only. -/
theorem Source.unique {tokens : List Token} {φs φs' : List Phrase} (h : Source tokens φs)
    (h' : Source tokens φs') : φs = φs' := by
  induction h generalizing φs' with
  | nil =>
    generalize htokens : ([] : List Token) = tokens at h'
    cases h' with
    | nil => rfl
    | cons hfirst _ =>
      obtain ⟨head, operands, rfl, -, -⟩ := hfirst.read_append
      cases htokens
  | @cons piece rest φ φs hfirst _ ih =>
    obtain ⟨head, operands, rfl, hcount, hread⟩ := hfirst.read_append
    generalize htokens : head :: operands ++ rest = tokens at h'
    cases h' with
    | nil => cases htokens
    | @cons piece' rest' φ' φs' hfirst' hothers' =>
      obtain ⟨head', operands', rfl, hcount', hread'⟩ := hfirst'.read_append
      rw [List.cons_append, List.cons_append, List.cons.injEq] at htokens
      obtain ⟨rfl, hrest⟩ := htokens
      obtain rfl : φ = φ' := by
        have hφ := hread rest
        rw [hrest, hread' rest'] at hφ
        cases hφ
        rfl
      obtain ⟨rfl, rfl⟩ := List.append_inj hrest (hcount.trans hcount'.symm)
      rw [ih hothers']

end Phrase

end InvariantMachine

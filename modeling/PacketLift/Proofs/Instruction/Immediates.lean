import PacketLift.Proofs.Instruction.Duplex

/-!
# Immediates and their extenders

An extender carries the upper 26 bits of a constant, scattered over two fields, and the low six bits
of the immediate behind it complete the constant, whatever its other bits are. Without an extender
the immediate is a number of its own width. This module gives the words in which constants are
written, and says what is read from them.

## Main definitions

* `Word.extenderFor`, `Word.upperPart`: the extender of a constant, and what it supplies
* `Form.lastWord`: the word of an instruction that ends its packet
* `SubForm.setImmediateBits`: the bits of a sub-instruction that sets a register

## Main results

* `Word.role_eq`: the role of a word, by its two bits
* `Word.extension_extenderFor`, `Word.upperPart_or_low`: a constant is put together again
* `Word.signExtend_setWidth`: an immediate as a signed number of its width
* `Form.decode_lastWord`: the instruction is found in its word
-/

namespace PacketLift

open Word (span)

namespace Word

/-! ## Roles -/

/-- The role of a word, by its two bits. -/
theorem role_eq (w : Word) : w.role =
    match w.getLsbD 15, w.getLsbD 14 with
    | false, false => .duplex
    | false, true => .inner
    | true, false => .loopMark
    | true, true => .last := by
  have hspan : span 14 15 = [14, 15] := rfl
  rw [role, field_eq_gather, hspan]
  simp only [gather]
  cases w.getLsbD 15 <;> cases w.getLsbD 14 <;> rfl

/-! ## Extenders -/

/-- **Where an extender carries its bits.** It is of class zero, and its role tells whether it also
marks the end of a loop. -/
def extenderEncoding (marked : Bool) : Encoding where
  pattern := ⟨0xF000C000, if marked then 0x8000 else 0x4000⟩
  operands := [span 0 13 ++ span 16 27]
  nodup := by decide
  inside := by decide
  apart := by cases marked <;> decide
  fixed := by cases marked <;> decide

/-- **The extender of a constant**: it carries all but the low six bits. -/
def extenderFor (marked : Bool) (c : Word) : Word := (extenderEncoding marked).assemble [c >>> 6] 0

variable (marked : Bool) (c : Word)

theorem extenderFor_accepts_gather :
    (extenderEncoding marked).pattern.accepts (extenderFor marked c) = true ∧
      (extenderFor marked c).gather (span 0 13 ++ span 16 27) = c >>> 6 := by
  have hfit : Fit [c >>> 6] (extenderEncoding marked).operands := by
    refine .cons ?_ .nil
    have hlt := c.isLt
    rw [BitVec.toNat_ushiftRight, Nat.shiftRight_eq_div_pow]
    show _ < 2 ^ 26
    omega
  obtain ⟨haccepts, hvalues⟩ := (extenderEncoding marked).eq_assemble_iff.mp ⟨hfit, 0, rfl⟩
  exact ⟨haccepts, (List.cons.inj hvalues).1⟩

/-- The fixed bits of an extender. -/
theorem getLsbD_extenderFor {k : Nat} (hk : k ∈ [14, 15, 28, 29, 30, 31]) :
    (extenderFor marked c).getLsbD k =
      BitVec.getLsbD (if marked then 0x8000#32 else 0x4000#32) k := by
  have hfixed : ∀ k ∈ [14, 15, 28, 29, 30, 31], k < 32 ∧ (0xF000C000 : Word).getLsbD k = true := by
    decide
  exact ((extenderEncoding marked).accepts_iff _).mp (extenderFor_accepts_gather marked c).1 k
    (hfixed k hk).1 (hfixed k hk).2

theorem role_extenderFor :
    (extenderFor marked c).role = if marked then .loopMark else .inner := by
  rw [role_eq, getLsbD_extenderFor marked c (by decide), getLsbD_extenderFor marked c (by decide)]
  cases marked <;> rfl

theorem isExtender_extenderFor : (extenderFor marked c).isExtender = true := by
  have hrole : (extenderFor marked c).field 14 15 ≠ 0 := by
    intro hzero
    have hduplex : (extenderFor marked c).role = .duplex := by rw [role, hzero]; rfl
    rw [role_extenderFor] at hduplex
    cases marked <;> cases hduplex
  have hclass : (extenderFor marked c).instructionClass = 0 := by
    rw [instructionClass, field_eq_gather]
    refine Eq.trans (gather_congr fun k hk => ?_) (zero_gather (span 28 31))
    have hfixed : ∀ k ∈ span 28 31, k ∈ [14, 15, 28, 29, 30, 31] ∧ ∀ marked : Bool,
        BitVec.getLsbD (if marked then 0x8000#32 else 0x4000#32) k = false := by
      decide
    rw [getLsbD_extenderFor marked c (hfixed k hk).1, BitVec.getLsbD_zero]
    exact (hfixed k hk).2 marked
  rw [isExtender, hclass, bne_iff_ne.mpr hrole]
  rfl

/-- A constant without its low six bits. -/
def upperPart (c : Word) : Word := (c >>> 6) <<< 6

/-- **An extender gives back what it carries.** -/
theorem extension_extenderFor : (extenderFor marked c).extension = c.upperPart := by
  rw [extension, fields_eq_gather, (extenderFor_accepts_gather marked c).2, upperPart]

/-- The low six bits of an immediate complete the constant. -/
theorem upperPart_or_low {n : Nat} {imm : BitVec n} (h : imm.setWidth 6 = c.setWidth 6) :
    c.upperPart ||| (imm.setWidth 32 &&& 0x3F) = c := by
  have hmask : (0x3F : Word) = lowMask 6 := by decide
  refine BitVec.eq_of_getLsbD_eq fun i hi => ?_
  rw [upperPart, hmask, BitVec.getLsbD_or, BitVec.getLsbD_shiftLeft, BitVec.getLsbD_ushiftRight,
    BitVec.getLsbD_and, BitVec.getLsbD_setWidth, getLsbD_lowMask 6 hi]
  rcases Nat.lt_or_ge i 6 with hlow | hhigh
  · have hbit := congrArg (BitVec.getLsbD · i) h
    simp only [BitVec.getLsbD_setWidth, hlow, decide_true, Bool.true_and] at hbit
    simp [hi, hlow, hbit]
  · simp [hi, Nat.not_lt.mpr hhigh, Nat.add_sub_of_le hhigh]

/-! ## Signed numbers -/

/-- **An immediate as a signed number** of its width. -/
theorem signExtend_setWidth {n : Nat} (hpos : 0 < n) (hn : n ≤ 32) (imm : BitVec n) :
    Word.signExtend (imm.setWidth 32) n = BitVec.signExtend 32 imm := by
  apply BitVec.eq_of_toInt_eq
  rw [toInt_signExtend _ hpos hn, BitVec.toInt_signExtend_of_le hn, BitVec.toNat_setWidth_of_le hn,
    BitVec.toInt_eq_toNat_bmod]

/-- The distance of a branch that counts words. -/
theorem branchOffset_setWidth {n : Nat} (hpos : 0 < n) (hn : n ≤ 32) (offset : BitVec n) :
    branchOffset (offset.setWidth 32) n = 4 * BitVec.signExtend 32 offset := by
  rw [branchOffset, signExtend_setWidth hpos hn, BitVec.shiftLeft_eq_mul_twoPow, BitVec.mul_comm]
  rfl

theorem toNat_setWidth_lt {n : Nat} (hn : n ≤ 32) (v : BitVec n) :
    (v.setWidth 32).toNat < 2 ^ n := by
  rw [BitVec.toNat_setWidth_of_le hn]
  exact v.isLt

end Word

/-! ## Words of instructions -/

/-- **The word of an instruction that ends its packet**, with anything in the bits without a
meaning. -/
def Form.lastWord (f : Form) (values : List Word) (rest : Word) : Word :=
  f.encoding.assemble values (rest ||| 0xC000)

theorem Form.role_lastWord (f : Form) (values : List Word) (rest : Word) :
    (f.lastWord values rest).role = .last := by
  have hfree : ∀ f ∈ all, ∀ k ∈ [14, 15], f.encoding.free.getLsbD k = true := by decide
  have hbit : ∀ k ∈ [14, 15], (f.lastWord values rest).getLsbD k = true := by
    intro k hk
    have hones : ∀ k ∈ [14, 15], k < 32 ∧ (0xC000 : Word).getLsbD k = true := by decide
    rw [lastWord, f.encoding.getLsbD_assemble_of_free values _ (hones k hk).1
      (hfree f f.mem_all k hk), BitVec.getLsbD_or, (hones k hk).2, Bool.or_true]
  rw [Word.role_eq, hbit 14 (by decide), hbit 15 (by decide)]

/-- **An instruction is found in its word**, which is no extender. -/
theorem Form.decode_lastWord {f : Form} {values : List Word} {i : Instruction}
    (hi : i.written? = some (f, values)) (hfit : Fit values f.operands) (rest : Word) :
    Instruction.decode (f.lastWord values rest) = i ∧
      (f.lastWord values rest).isExtender = false := by
  have hwritten : (Instruction.decode (f.lastWord values rest)).written? = some (f, values) :=
    Instruction.written?_decode_iff.mpr ⟨hfit, _, rfl⟩
  have haccepts : f.pattern.accepts (f.lastWord values rest) = true :=
    (f.encoding.eq_assemble_iff.mp ⟨hfit, _, rfl⟩).1
  exact ⟨Instruction.eq_of_written? hwritten hi, Instruction.isExtender_of_accepts haccepts⟩

/-! ## Duplex words -/

/-- The bits of a sub-instruction that sets a register to an immediate. -/
def SubForm.setImmediateBits (rd : BitVec 4) (imm : BitVec 6) : Word :=
  setImmediate.encoding.assemble [rd.setWidth 32, imm.setWidth 32] 0#32

/-- The register that four bits name. -/
def SubForm.registerOf (rd : BitVec 4) : Register := .general (register (rd.setWidth 32))

/-- **A sub-instruction that sets a register is found** in any bits with its payload. -/
theorem SubForm.decodeSub_setImmediateBits {rd : BitVec 4} {imm : BitVec 6} {bits : Word}
    (h : Instruction.payload bits = setImmediateBits rd imm) :
    Instruction.decodeSub bits .a =
      .subSetImmediate (register (rd.setWidth 32)) (imm.setWidth 32) := by
  have hregister : ∀ rd : BitVec 4,
      registerBits? (register (rd.setWidth 32)) = some (rd.setWidth 32) := by
    decide
  refine Instruction.decodeSub_of_subWritten? (f := .setImmediate) ?_
    (.cons (Word.toNat_setWidth_lt (by decide) rd)
      (.cons (Word.toNat_setWidth_lt (by decide) imm) .nil)) h
  rw [Instruction.subWritten?, withImmediate, hregister]
  rfl

/-- Decoding a half does not look at the bits above its payload, and what is unknown has no
footprint. -/
theorem Instruction.footprint_decodeSub_congr {bits bits' : Word}
    (h : payload bits = payload bits') (group : Group) :
    (decodeSub bits group).footprint = (decodeSub bits' group).footprint := by
  cases group with
  | a =>
    simp only [decodeSub, h]
    cases SubForm.all.find? fun form => form.pattern.accepts (payload bits') <;> rfl
  | _ => rfl

end PacketLift

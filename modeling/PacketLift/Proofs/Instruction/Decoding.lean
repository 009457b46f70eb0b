import PacketLift.Proofs.Instruction.Encoding

/-!
# Decoding

Each form of an instruction is an encoding. No word is of two forms, so that the order in which the
forms are tried makes no difference; and the words that are decoded to an instruction are those that
are assembled from its operands.

## Main definitions

* `Form.operands`, `Form.encoding`: where the operands of a form stand
* `Instruction.written?`: the form of an instruction and the values of its operands

## Main results

* `Form.eq_of_pattern`: the fixed bits of two forms differ
* `Form.written?_read`: the operands that are read
* `Instruction.written?_decode_iff`: the words of a form with given operands
* `Instruction.decode_inverts_assembly`: decoding is unambiguous and loses nothing
-/

namespace PacketLift

open Word (span)

/-! ## Forms -/

namespace Form

theorem mem_all (f : Form) : f ∈ all := by cases f <;> decide

/-- **Where the operands of a form stand**, in the order in which its instructions name them. The
number of a loop is part of the form. -/
def operands : Form → List (List Nat)
  | nop => []
  | setImmediate => [span 0 4, span 5 13 ++ span 16 20 ++ span 22 23]
  | copy => [span 0 4, span 16 20]
  | add => [span 0 4, span 16 20, span 8 12]
  | sub => [span 0 4, span 8 12, span 16 20]
  | addImmediate => [span 0 4, span 16 20, span 5 13 ++ span 21 27]
  | compareEqual => [span 0 1, span 16 20, span 8 12]
  | predicatedAdd => [span 0 4, span 16 20, span 8 12, span 5 6, [7], [13]]
  | jump => [span 1 13 ++ span 16 24]
  | call => [span 1 13 ++ span 16 24]
  | jumpRegister => [span 16 20]
  | jumpIf => [span 8 9, [21], span 1 7 ++ [13] ++ span 16 20 ++ span 22 23]
  | loop0 => [span 16 20, span 3 4 ++ span 8 12]
  | loop1 => [span 16 20, span 3 4 ++ span 8 12]
  | trap => [span 2 4 ++ span 8 12]

/-- **The encoding of a form.** -/
def encoding (f : Form) : Encoding where
  pattern := f.pattern
  operands := f.operands
  nodup := by cases f <;> decide
  inside := by cases f <;> decide
  apart := by cases f <;> decide
  fixed := by cases f <;> decide

/-- Where the fixed bits of two forms meet, they differ. -/
theorem eq_of_pattern (f g : Form)
    (h : f.pattern.value &&& g.pattern.mask = g.pattern.value &&& f.pattern.mask) : f = g := by
  have hdiffer : ∀ f ∈ all, ∀ g ∈ all,
      f.pattern.value &&& g.pattern.mask = g.pattern.value &&& f.pattern.mask → f = g := by
    decide
  exact hdiffer f f.mem_all g g.mem_all h

end Form

/-! ## Operands -/

namespace Word

theorem gather_singleton (w : Word) (k : Nat) : w.gather [k] = ofBit (w.getLsbD k) := by
  simp [gather]

theorem ofBit_flag (w : Word) (k : Nat) : ofBit (w.flag k) = w.gather [k] := by
  have hspan : span k k = [k] := by simp [span]
  rw [flag, field_eq_gather, hspan, gather_singleton]
  cases w.getLsbD k <;> rfl

theorem lowByte_setWidth (b : Byte) : lowByte (b.setWidth 32) = b := by
  simp [lowByte]

theorem setWidth_lowByte_gather (w : Word) {bits : List Nat} (h : bits.length ≤ 8) :
    (w.gather bits).lowByte.setWidth 32 = w.gather bits := by
  have hlt : (w.gather bits).toNat < 2 ^ 8 :=
    Nat.lt_of_lt_of_le (w.toNat_gather_lt bits) (Nat.pow_le_pow_right Nat.two_pos h)
  refine BitVec.eq_of_toNat_eq ?_
  rw [lowByte, BitVec.toNat_setWidth, BitVec.toNat_setWidth, Nat.mod_eq_of_lt hlt,
    Nat.mod_eq_of_lt (w.gather bits).isLt]

end Word

/-- **How an instruction is written**: its form, and the values of its operands. -/
def Instruction.written? : Instruction → Option (Form × List Word)
  | nop => some (.nop, [])
  | setImmediate rd imm => some (.setImmediate, [rd.setWidth 32, imm])
  | copy rd rs => some (.copy, [rd.setWidth 32, rs.setWidth 32])
  | add rd rs rt => some (.add, [rd.setWidth 32, rs.setWidth 32, rt.setWidth 32])
  | sub rd rt rs => some (.sub, [rd.setWidth 32, rt.setWidth 32, rs.setWidth 32])
  | addImmediate rd rs imm => some (.addImmediate, [rd.setWidth 32, rs.setWidth 32, imm])
  | compareEqual pd rs rt =>
    some (.compareEqual, [pd.setWidth 32, rs.setWidth 32, rt.setWidth 32])
  | predicatedAdd rd rs rt pu invert dotNew =>
    some (.predicatedAdd, [rd.setWidth 32, rs.setWidth 32, rt.setWidth 32, pu.setWidth 32,
      .ofBit invert, .ofBit dotNew])
  | jump offset => some (.jump, [offset])
  | call offset => some (.call, [offset])
  | jumpRegister rs => some (.jumpRegister, [rs.setWidth 32])
  | jumpIf pu invert offset => some (.jumpIf, [pu.setWidth 32, .ofBit invert, offset])
  | loopSetup which rs offset =>
    if which = 0 then some (.loop0, [rs.setWidth 32, offset])
    else if which = 1 then some (.loop1, [rs.setWidth 32, offset])
    else none
  | trap number => some (.trap, [number.setWidth 32])
  | subAddImmediate .. => none
  | subSetImmediate .. => none
  | subCopy .. => none
  | subIncrement .. => none
  | unknown _ => none

namespace Form

variable {f : Form} {w : Word}

/-- **The operands that are read** are those in the bits of the form. -/
theorem written?_read (h : f.pattern.accepts w = true) :
    (f.read w).written? = some (f, f.operands.map w.gather) := by
  have hloop : f.pattern.mask.getLsbD 21 = true →
      (w.field 21 21).lowByte = (Word.ofBit (f.pattern.value.getLsbD 21)).lowByte := by
    intro hmask
    have hbit : w.getLsbD 21 = f.pattern.value.getLsbD 21 :=
      (f.encoding.accepts_iff w).mp h 21 (by decide) hmask
    rw [Word.field_eq_gather, ← hbit, ← Word.gather_singleton]
    rfl
  cases f with
  | loop0 =>
    have hzero : (w.field 21 21).lowByte = 0 := hloop rfl
    rw [read, Instruction.written?, if_pos hzero]
    simp [operands, rs, Word.field_eq_gather, Word.fields_eq_gather, Word.setWidth_lowByte_gather]
  | loop1 =>
    have hone : (w.field 21 21).lowByte = 1 := hloop rfl
    rw [read, Instruction.written?, hone]
    simp [operands, rs, Word.field_eq_gather, Word.fields_eq_gather, Word.setWidth_lowByte_gather]
  | setImmediate =>
    have himm : (w.field 22 23 <<< 14) ||| (w.field 16 20 <<< 9) ||| w.field 5 13 =
        w.gather (span 5 13 ++ span 16 20 ++ span 22 23) := by
      simp only [Word.gather_append, Word.field_eq_gather, BitVec.or_assoc]
      rfl
    rw [read, himm]
    simp [Instruction.written?, operands, rd, Word.field_eq_gather, Word.setWidth_lowByte_gather]
  | jumpIf =>
    have hoffset : (w.field 22 23 <<< 13) ||| (w.field 16 20 <<< 8) ||| (w.field 13 13 <<< 7) |||
        w.field 1 7 = w.gather (span 1 7 ++ [13] ++ span 16 20 ++ span 22 23) := by
      simp only [Word.gather_append, Word.field_eq_gather, BitVec.or_assoc]
      rfl
    rw [read, hoffset]
    simp [Instruction.written?, operands, Word.ofBit_flag, Word.field_eq_gather,
      Word.setWidth_lowByte_gather]
  | _ =>
    simp [read, Instruction.written?, operands, rd, rs, rt, Word.ofBit_flag, Word.field_eq_gather,
      Word.fields_eq_gather, Word.setWidth_lowByte_gather]

end Form

/-- The instruction of a form with the given values of its operands. -/
def Form.instruction? : Form → List Word → Option Instruction
  | nop, [] => some .nop
  | setImmediate, [rd, imm] => some (.setImmediate rd.lowByte imm)
  | copy, [rd, rs] => some (.copy rd.lowByte rs.lowByte)
  | add, [rd, rs, rt] => some (.add rd.lowByte rs.lowByte rt.lowByte)
  | sub, [rd, rt, rs] => some (.sub rd.lowByte rt.lowByte rs.lowByte)
  | addImmediate, [rd, rs, imm] => some (.addImmediate rd.lowByte rs.lowByte imm)
  | compareEqual, [pd, rs, rt] => some (.compareEqual pd.lowByte rs.lowByte rt.lowByte)
  | predicatedAdd, [rd, rs, rt, pu, invert, dotNew] =>
    some (.predicatedAdd rd.lowByte rs.lowByte rt.lowByte pu.lowByte (invert.getLsbD 0)
      (dotNew.getLsbD 0))
  | jump, [offset] => some (.jump offset)
  | call, [offset] => some (.call offset)
  | jumpRegister, [rs] => some (.jumpRegister rs.lowByte)
  | jumpIf, [pu, invert, offset] => some (.jumpIf pu.lowByte (invert.getLsbD 0) offset)
  | loop0, [rs, offset] => some (.loopSetup 0 rs.lowByte offset)
  | loop1, [rs, offset] => some (.loopSetup 1 rs.lowByte offset)
  | trap, [number] => some (.trap number.lowByte)
  | _, _ => none

namespace Instruction

theorem instruction?_of_written? {i : Instruction} {f : Form} {values : List Word}
    (h : i.written? = some (f, values)) : f.instruction? values = some i := by
  cases i with
  | loopSetup which rs offset =>
    rw [written?] at h
    split_ifs at h with hzero hone <;> cases h
    · rw [Form.instruction?, Word.lowByte_setWidth, hzero]
    · rw [Form.instruction?, Word.lowByte_setWidth, hone]
  | _ => cases h <;> simp [Form.instruction?, Word.lowByte_setWidth, -BitVec.getLsbD_eq_getElem]

/-- An instruction is known from how it is written. -/
theorem eq_of_written? {i j : Instruction} {x : Form × List Word} (hi : i.written? = some x)
    (hj : j.written? = some x) : i = j :=
  Option.some.inj ((instruction?_of_written? hi).symm.trans (instruction?_of_written? hj))

/-! ## Words and instructions -/

variable {w : Word}

/-- **The order of the forms makes no difference.** -/
theorem find?_eq_of_forall_mem {table : List Form} (h : ∀ f, f ∈ table) :
    table.find? (·.pattern.accepts w) = Form.all.find? (·.pattern.accepts w) := by
  cases hfind : Form.all.find? (·.pattern.accepts w) with
  | none => exact List.find?_eq_none.mpr fun f _ => List.find?_eq_none.mp hfind f f.mem_all
  | some f =>
    have hf := List.find?_some hfind
    exact find?_eq_some_of_accepts Form.eq_of_pattern (h f) hf

theorem decode_of_accepts {f : Form} (h : f.pattern.accepts w = true) : decode w = f.read w := by
  rw [decode, find?_eq_some_of_accepts Form.eq_of_pattern f.mem_all h]

theorem exists_accepts_of_decode (h : (decode w).isUnknown = false) :
    ∃ f : Form, f.pattern.accepts w = true := by
  unfold decode at h
  cases hfind : Form.all.find? (·.pattern.accepts w) with
  | none =>
    rw [hfind] at h
    cases h
  | some f =>
    have hf := List.find?_some hfind
    exact ⟨f, hf⟩

/-- **The words of a form with given operands** are those that are assembled from them, and the
operands have room there. -/
theorem written?_decode_iff {f : Form} {values : List Word} :
    (decode w).written? = some (f, values) ↔
      Fit values f.operands ∧ ∃ rest, w = f.encoding.assemble values rest := by
  rw [show f.operands = f.encoding.operands from rfl, f.encoding.eq_assemble_iff]
  constructor
  · intro h
    have hknown : (decode w).isUnknown = false := by
      cases hi : decode w with
      | unknown => simp [hi, written?] at h
      | _ => rfl
    obtain ⟨g, hg⟩ := exists_accepts_of_decode hknown
    rw [decode_of_accepts hg, Form.written?_read hg] at h
    cases h
    exact ⟨hg, rfl⟩
  · rintro ⟨haccepts, rfl⟩
    rw [decode_of_accepts haccepts, Form.written?_read haccepts]
    rfl

/-- The upper four bits of a known instruction are fixed, and not all of them are zero. -/
theorem isExtender_of_accepts {f : Form} (h : f.pattern.accepts w = true) :
    w.isExtender = false := by
  have hclass : ∀ f ∈ Form.all, ∃ k ∈ span 28 31,
      f.pattern.mask.getLsbD k = true ∧ f.pattern.value.getLsbD k = true := by
    decide
  obtain ⟨k, hk, hmask, hvalue⟩ := hclass f f.mem_all
  have hbit : w.getLsbD k = true := by
    have hlt : k < 32 := by
      have := (List.mem_range'_1.mp hk).2
      omega
    rw [← hvalue]
    exact (f.encoding.accepts_iff w).mp h k hlt hmask
  rw [Word.isExtender, Word.instructionClass, Word.field_eq_gather w 28 31, Bool.and_eq_false_iff]
  refine .inr (beq_eq_false_iff_ne.mpr fun hzero => ?_)
  have hsame := hzero.trans (Word.zero_gather (span 28 31)).symm
  have hfalse := (Word.gather_eq_gather_iff (by simp)).mp hsame k hk
  rw [hbit, BitVec.getLsbD_zero] at hfalse
  cases hfalse

/-- **The role bits are free in every form.** -/
theorem decode_eq_of_agree {w w' : Word}
    (h : ∀ k < 32, k ≠ 14 → k ≠ 15 → w.getLsbD k = w'.getLsbD k)
    (hknown : (decode w).isUnknown = false) : decode w' = decode w := by
  have hmask : ∀ f ∈ Form.all,
      f.pattern.mask.getLsbD 14 = false ∧ f.pattern.mask.getLsbD 15 = false := by
    decide
  have hbits : ∀ f ∈ Form.all, ∀ bits ∈ f.operands, ∀ k ∈ bits, k ≠ 14 ∧ k ≠ 15 := by
    decide
  obtain ⟨f, hf⟩ := exists_accepts_of_decode hknown
  have hf' : f.pattern.accepts w' = true := by
    refine (f.encoding.accepts_iff w').mpr fun k hk hfixed => ?_
    rw [← (f.encoding.accepts_iff w).mp hf k hk hfixed]
    refine (h k hk ?_ ?_).symm <;> rintro rfl
    · rw [show f.encoding.pattern.mask.getLsbD 14 = false from (hmask f f.mem_all).1] at hfixed
      cases hfixed
    · rw [show f.encoding.pattern.mask.getLsbD 15 = false from (hmask f f.mem_all).2] at hfixed
      cases hfixed
  have hvalues : f.operands.map w'.gather = f.operands.map w.gather :=
    List.map_congr_left fun bits hmem => Word.gather_congr fun k hk =>
      have hne := hbits f f.mem_all bits hmem k hk
      (h k (f.encoding.inside k (List.mem_flatten_of_mem hmem hk)) hne.1 hne.2).symm
  rw [decode_of_accepts hf, decode_of_accepts hf']
  refine eq_of_written? (Form.written?_read hf') ?_
  rw [Form.written?_read hf, hvalues]

/-- **Decoding is unambiguous and loses nothing.** A word is of one form at most, so that the forms
can be tried in any order. A known instruction is no extender, and whether an instruction is known,
and which it is, does not depend on the role bits 15:14. A word is decoded to a form with certain
operands exactly if these have room in their bits and the word has the form's fixed bits, the
operands scattered to theirs, and anything in the bits without a meaning. All that is known has a
form, and its operands tell all about it. -/
theorem decode_inverts_assembly (w : Word) :
    (∀ f g : Form, f.pattern.accepts w = true → g.pattern.accepts w = true → f = g) ∧
    (∀ table : List Form, table.Perm Form.all →
      table.find? (·.pattern.accepts w) = Form.all.find? (·.pattern.accepts w)) ∧
    ((decode w).isUnknown = false → w.isExtender = false) ∧
    (∀ marks : Word, let w' := (w &&& ~~~0xC000) ||| (marks &&& 0xC000)
      (decode w').isUnknown = (decode w).isUnknown ∧
        ((decode w).isUnknown = false → decode w' = decode w)) ∧
    (∀ (f : Form) (values : List Word), (decode w).written? = some (f, values) ↔
      Fit values f.operands ∧ ∃ rest, w = f.encoding.assemble values rest) ∧
    ((decode w).isUnknown = false → ∃ x, (decode w).written? = some x ∧
      ∀ i : Instruction, i.written? = some x → decode w = i) := by
  refine ⟨fun f g hf hg => f.eq_of_pattern g (Pattern.eq_of_accepts hf hg),
    fun table hperm => ?_, fun hknown => ?_, fun marks => ?_,
    fun f values => written?_decode_iff, fun hknown => ?_⟩
  · exact find?_eq_of_forall_mem fun f => hperm.mem_iff.mpr f.mem_all
  · obtain ⟨f, hf⟩ := exists_accepts_of_decode hknown
    exact isExtender_of_accepts hf
  · intro w'
    have hmarks : ∀ k < 32, k ≠ 14 → k ≠ 15 → (0xC000 : Word).getLsbD k = false := by
      decide
    have hagree : ∀ k < 32, k ≠ 14 → k ≠ 15 → w.getLsbD k = w'.getLsbD k := by
      intro k hk h14 h15
      simp only [w', BitVec.getLsbD_or, BitVec.getLsbD_and, BitVec.getLsbD_not,
        hmarks k hk h14 h15, hk]
      simp
    refine ⟨?_, decode_eq_of_agree hagree⟩
    cases hw : (decode w).isUnknown with
    | false => rw [decode_eq_of_agree hagree hw, hw]
    | true =>
      by_contra hknown
      rw [Bool.not_eq_true] at hknown
      have hsame := decode_eq_of_agree (fun k hk h14 h15 => (hagree k hk h14 h15).symm) hknown
      rw [hsame, hknown] at hw
      cases hw
  · obtain ⟨f, hf⟩ := exists_accepts_of_decode hknown
    have hwritten := Form.written?_read hf
    rw [← decode_of_accepts hf] at hwritten
    exact ⟨_, hwritten, fun i hi => eq_of_written? hwritten hi⟩

theorem decode_inverts_assembly_jumpIf :
    let w := Form.jumpIf.encoding.assemble [2, 1, 0x5A5A] (BitVec.allOnes 32)
    Fit [2, 1, 0x5A5A] Form.jumpIf.operands ∧
      (∀ f : Form, f.pattern.accepts w = true → f = .jumpIf) ∧
      Form.all.reverse.find? (·.pattern.accepts w) = some .jumpIf ∧ w.isExtender = false ∧
      decode w = .jumpIf 2 true 0x5A5A ∧ decode (w &&& ~~~0xC000) = .jumpIf 2 true 0x5A5A := by
  intro w
  have hfit : Fit [2, 1, 0x5A5A] Form.jumpIf.operands :=
    .cons (by decide) (.cons (by decide) (.cons (by decide) .nil))
  have haccepts : Form.jumpIf.pattern.accepts w = true := by decide +kernel
  have hknown : (decode w).isUnknown = false := by decide +kernel
  obtain ⟨hform, horder, hextender, hmarks, hwritten, htells⟩ := decode_inverts_assembly w
  have hvalues : (decode w).written? = some (.jumpIf, [2, 1, 0x5A5A]) :=
    (hwritten _ _).mpr ⟨hfit, _, rfl⟩
  obtain ⟨x, hx, hall⟩ := htells hknown
  have hdecode : decode w = .jumpIf 2 true 0x5A5A := hall _ (hx.symm.trans hvalues).symm
  refine ⟨hfit, fun f hf => hform f .jumpIf hf haccepts, ?_, hextender hknown, hdecode, ?_⟩
  · rw [horder _ (List.reverse_perm _)]
    exact find?_eq_some_of_accepts Form.eq_of_pattern (Form.mem_all _) haccepts
  · have hzero := (hmarks 0#32).2 hknown
    rwa [BitVec.zero_and, BitVec.or_zero, hdecode] at hzero

end Instruction

end PacketLift

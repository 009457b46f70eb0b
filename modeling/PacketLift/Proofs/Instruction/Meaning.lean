import Mathlib.Logic.Function.Basic
import PacketLift.Instruction.Lowering
import PacketLift.Proofs.Packet.Footprint

/-!
# What instructions mean

An instruction reads the registers as they were before its packet. It has results, each of which
changes one register, it may branch, and it may call the trap handler. This module gives these
three for every instruction, without staging words, temporaries or an order of execution.

## Main definitions

* `RegisterFile`: the values of all registers
* `predicateTaken`, `replaceLane`: testing and setting a predicate
* `Instruction.results`, `Instruction.target?`, `Instruction.trap?`: what an instruction means
* `Instruction.footprint`: which registers it uses and writes

## Main results

* `getLsbD_replaceLane`: the bits of the predicate register when one predicate is set
* `Instruction.hasSlot_writes_of_mem_results`, `Instruction.exists_result_of_hasSlot_written`: the
  footprint of an instruction and its results
* `Instruction.results_update_pc`: no result depends on the program counter
-/

namespace PacketLift

/-- The values of all registers, by slot. -/
abbrev RegisterFile := Fin 64 → Word

/-- Whether a predicate holds in the predicate register, or fails if `invert` is given. -/
def predicateTaken (predicates : Word) (predicate : Byte) (invert : Bool) : Bool :=
  predicates.getLsbD (8 * (predicate &&& 3).toNat) != invert

/-- The predicate register with all bits of one predicate replaced: they are ones if it holds. -/
def replaceLane (predicates : Word) (predicate : Byte) (value : Bool) : Word :=
  let lane := (0xFF : Word) <<< (8 * (predicate &&& 3).toNat)
  (predicates &&& ~~~lane) ||| if value then lane else 0

/-- A result: how the value of a register changes. -/
structure Result where
  register : Register
  apply : Word → Word

/-- The result that replaces the value of a register. -/
def Result.value (r : Register) (x : Word) : Result := ⟨r, fun _ => x⟩

/-- The value of a slot after some results. -/
def Result.applyAll (rs : List Result) (slot : Fin 64) (x : Word) : Word :=
  rs.foldl (fun x r => if r.register.slot = slot then r.apply x else x) x

namespace Result

variable {rs : List Result} {slot : Fin 64}

theorem applyAll_cons (r : Result) (rs : List Result) (slot : Fin 64) (x : Word) :
    applyAll (r :: rs) slot x =
      applyAll rs slot (if r.register.slot = slot then r.apply x else x) := rfl

theorem applyAll_append (rs rs' : List Result) (slot : Fin 64) (x : Word) :
    applyAll (rs ++ rs') slot x = applyAll rs' slot (applyAll rs slot x) := List.foldl_append

/-- Results for other registers leave a register alone. -/
theorem applyAll_of_ne (h : ∀ r ∈ rs, r.register.slot ≠ slot) (x : Word) :
    applyAll rs slot x = x := by
  induction rs generalizing x with
  | nil => rfl
  | cons r rs ih =>
    rw [applyAll_cons, if_neg (h r List.mem_cons_self)]
    exact ih (fun r' hr' => h r' (List.mem_cons_of_mem r hr')) x

/-- A result that replaces the value of a register makes its earlier value irrelevant. -/
theorem applyAll_congr {r : Result} (hr : r ∈ rs) (hslot : r.register.slot = slot)
    (hconst : ∀ x y, r.apply x = r.apply y) (x y : Word) :
    applyAll rs slot x = applyAll rs slot y := by
  obtain ⟨front, back, rfl⟩ := List.append_of_mem hr
  rw [applyAll_append, applyAll_append, applyAll_cons, applyAll_cons, if_pos hslot, if_pos hslot,
    hconst _ (applyAll front slot y)]

/-- What every result for a register keeps, all of them together keep. -/
theorem applyAll_of_forall {P : Word → Prop}
    (h : ∀ r ∈ rs, r.register.slot = slot → ∀ x, P x → P (r.apply x)) {x : Word} (hx : P x) :
    P (applyAll rs slot x) := by
  induction rs generalizing x with
  | nil => exact hx
  | cons r rs ih =>
    rw [applyAll_cons]
    apply ih fun r' hr' => h r' (List.mem_cons_of_mem r hr')
    split_ifs with hslot
    · exact h r List.mem_cons_self hslot x hx
    · exact hx

end Result

namespace Instruction

/-- Whether the instruction sets a predicate. -/
def isCompare : Instruction → Bool
  | compareEqual _ _ _ => true
  | _ => false

/-- Whether the instruction tests a predicate that its packet sets. -/
def isDotNew : Instruction → Bool
  | predicatedAdd _ _ _ _ _ dotNew => dotNew
  | _ => false

/-- Sub-instructions neither test new predicates nor call the trap handler. -/
theorem of_decodeSub (bits : Word) (group : Group) :
    (decodeSub bits group).isDotNew = false ∧ ∀ number, decodeSub bits group ≠ trap number := by
  have hread : ∀ (w : Word) (form : SubForm), (form.read w).isDotNew = false ∧
      ∀ number, form.read w ≠ trap number := by
    intro w form
    cases form <;> exact ⟨rfl, fun number h => by cases h⟩
  unfold decodeSub
  cases group with
  | a =>
    cases SubForm.all.find? (·.pattern.accepts (payload bits)) with
    | some form => exact hread _ form
    | none => exact ⟨rfl, fun number h => by cases h⟩
  | _ => exact ⟨rfl, fun number h => by cases h⟩

/-- The predicates with the one replaced that the instruction sets, if it sets one. -/
def setPredicate (before : RegisterFile) (predicates : Word) : Instruction → Word
  | compareEqual pd rs rt =>
    replaceLane predicates pd
      (before (Register.general rs).slot == before (Register.general rt).slot)
  | _ => predicates

/-- The registers that a loop's set-up writes: the start address and the count. -/
def loopRegisters (which : Byte) : Register × Register :=
  if which = 0 then (.sa0, .lc0) else (.sa1, .lc1)

/-- **The results of an instruction**, when its packet starts with the registers `before` and the
predicates that the packet sets come to `newPredicates`. -/
def results (site : Site) (before : RegisterFile) (newPredicates : Word) :
    Instruction → List Result
  | nop => []
  | unknown _ => []
  | setImmediate rd imm => [.value (.general rd) (site.extendSigned imm 16)]
  | copy rd rs => [.value (.general rd) (before (Register.general rs).slot)]
  | subCopy rd rs => [.value (.general rd) (before (Register.general rs).slot)]
  | add rd rs rt =>
    [.value (.general rd) (before (Register.general rs).slot + before (Register.general rt).slot)]
  | sub rd rt rs =>
    [.value (.general rd) (before (Register.general rt).slot - before (Register.general rs).slot)]
  | addImmediate rd rs imm =>
    [.value (.general rd) (before (Register.general rs).slot + site.extendSigned imm 16)]
  | subAddImmediate rx imm =>
    [.value (.general rx) (before (Register.general rx).slot + imm.signExtend 7)]
  | subSetImmediate rd imm => [.value (.general rd) (site.extendUnsigned imm)]
  | subIncrement rd rs => [.value (.general rd) (before (Register.general rs).slot + 1)]
  | compareEqual pd rs rt => [⟨.p, ((compareEqual pd rs rt).setPredicate before ·)⟩]
  | predicatedAdd rd rs rt pu invert dotNew =>
    if predicateTaken (if dotNew then newPredicates else before Register.p.slot) pu invert then
      [.value (.general rd)
        (before (Register.general rs).slot + before (Register.general rt).slot)]
    else []
  | jump _ => []
  | call _ => [.value .lr site.nextPc]
  | jumpRegister _ => []
  | jumpIf _ _ _ => []
  | loopSetup which rs offset =>
    [.value (loopRegisters which).1 (site.branchTarget offset 7),
      .value (loopRegisters which).2 (before (Register.general rs).slot)]
  | trap _ => []

/-- **Where an instruction branches**, if it does. -/
def target? (site : Site) (before : RegisterFile) : Instruction → Option Word
  | jump offset => some (site.branchTarget offset 22)
  | call offset => some (site.branchTarget offset 22)
  | jumpRegister rs => some (before (Register.general rs).slot)
  | jumpIf pu invert offset =>
    if predicateTaken (before Register.p.slot) pu invert then some (site.branchTarget offset 15)
    else none
  | _ => none

/-- The number that an instruction gives to the trap handler, if it calls it. -/
def trap? : Instruction → Option Word
  | trap number => some (number.setWidth 32)
  | _ => none

/-- The registers that an instruction uses and writes. -/
def footprint : Instruction → Footprint
  | nop => .none
  | unknown _ => .none
  | trap _ => .none
  | setImmediate rd _ => Footprint.none.withWrite (.general rd)
  | copy rd _ => Footprint.none.withWrite (.general rd)
  | subCopy rd _ => Footprint.none.withWrite (.general rd)
  | add rd _ _ => Footprint.none.withWrite (.general rd)
  | sub rd _ _ => Footprint.none.withWrite (.general rd)
  | addImmediate rd _ _ => Footprint.none.withWrite (.general rd)
  | subAddImmediate rx _ => Footprint.none.withWrite (.general rx)
  | subSetImmediate rd _ => Footprint.none.withWrite (.general rd)
  | subIncrement rd _ => Footprint.none.withWrite (.general rd)
  | compareEqual _ _ _ => (Footprint.none.withRead .p).withConditional .p
  | predicatedAdd rd _ _ _ _ dotNew =>
    let footprint := Footprint.none.withConditional (.general rd)
    if dotNew then footprint.withRead .p else footprint
  | jump _ => Footprint.none.withWrite .pc
  | call _ => (Footprint.none.withWrite .lr).withWrite .pc
  | jumpRegister _ => Footprint.none.withWrite .pc
  | jumpIf _ _ _ => Footprint.none.withConditional .pc
  | loopSetup which _ _ =>
    (Footprint.none.withWrite (loopRegisters which).1).withWrite (loopRegisters which).2

end Instruction

/-! ## Predicates -/

/-- The bits of a lane. -/
theorem getLsbD_lane {j k : Nat} (hk : k < 32) :
    ((0xFF : Word) <<< (8 * j)).getLsbD k = decide (k / 8 = j) := by
  have hones : (0xFF : Word) = (BitVec.allOnes 8).setWidth 32 := by decide
  rw [hones, BitVec.getLsbD_shiftLeft, BitVec.getLsbD_setWidth, BitVec.getLsbD_allOnes,
    Bool.eq_iff_iff]
  simp only [Bool.and_eq_true, decide_eq_true_eq, Bool.not_eq_true', decide_eq_false_iff_not]
  omega

theorem getLsbD_replaceLane (w : Word) (predicate : Byte) (value : Bool) {k : Nat} (hk : k < 32) :
    (replaceLane w predicate value).getLsbD k =
      if k / 8 = (predicate &&& 3).toNat then value else w.getLsbD k := by
  have hvalue (mask : Word) :
      (if value then mask else 0).getLsbD k = (value && mask.getLsbD k) := by
    cases value <;> simp
  simp only [replaceLane, BitVec.getLsbD_or, BitVec.getLsbD_and, BitVec.getLsbD_not, hvalue,
    getLsbD_lane hk, hk, decide_true, Bool.true_and]
  generalize (predicate &&& 3).toNat = j
  split_ifs with hlane <;> simp [hlane]

/-! ## Slots -/

namespace Register

theorem slot_general_lt (n : Byte) : (general n).slot.val < 32 := Nat.mod_lt _ (by decide)

@[simp] theorem slot_general_ne_pc (n : Byte) : (general n).slot ≠ pc.slot :=
  Fin.ne_of_val_ne (Nat.ne_of_lt (Nat.lt_trans (slot_general_lt n) (by decide)))

@[simp] theorem slot_general_ne_p (n : Byte) : (general n).slot ≠ p.slot :=
  Fin.ne_of_val_ne (Nat.ne_of_lt (Nat.lt_of_lt_of_le (slot_general_lt n) (by decide)))

@[simp] theorem slot_p_ne_pc : p.slot ≠ pc.slot := by decide

end Register

namespace Instruction

variable {i : Instruction} {site : Site} {before : RegisterFile} {newPredicates : Word}

theorem slot_loopRegisters (which : Byte) :
    (loopRegisters which).1.slot ∉ [Register.p.slot, Register.pc.slot] ∧
      (loopRegisters which).2.slot ∉ [Register.p.slot, Register.pc.slot] := by
  unfold loopRegisters
  split_ifs <;> decide

/-- The register of a result, by the instruction: the predicates for a comparison, and neither
the predicates nor the program counter for any other. -/
theorem slot_of_mem_results {r : Result} (h : r ∈ i.results site before newPredicates) :
    r.register.slot ≠ Register.pc.slot ∧
      (i.isCompare = false → r.register.slot ≠ Register.p.slot) := by
  cases i with
  | predicatedAdd rd rs rt pu invert dotNew =>
    rw [results, List.mem_ite_nil_right, List.mem_singleton] at h
    obtain ⟨-, rfl⟩ := h
    simp [Result.value]
  | loopSetup which rs offset =>
    have hslots := slot_loopRegisters which
    simp only [results, List.mem_cons, List.not_mem_nil, or_false] at h
    rcases h with rfl | rfl <;> simp_all [Result.value]
  | call offset =>
    obtain rfl := List.mem_singleton.mp h
    simp [Result.value, Register.lr]
  | _ => simp_all [results, Result.value, isCompare]

theorem hasSlot_writes_of_mem_results {r : Result}
    (h : r ∈ i.results site before newPredicates) :
    i.footprint.writes.hasSlot r.register.slot.val = true := by
  cases i with
  | predicatedAdd rd rs rt pu invert dotNew =>
    rw [results, List.mem_ite_nil_right, List.mem_singleton] at h
    obtain ⟨-, rfl⟩ := h
    cases dotNew <;> simp [Result.value, footprint, Footprint.writes]
  | loopSetup which rs offset =>
    simp only [results, List.mem_cons, List.not_mem_nil, or_false] at h
    rcases h with rfl | rfl <;> simp [Result.value, footprint, Footprint.writes]
  | _ => simp_all [results, Result.value, footprint, Footprint.writes]

/-- **A register that is always written has a result** that does not depend on its value. -/
theorem exists_result_of_hasSlot_written {slot : Fin 64}
    (h : i.footprint.written.hasSlot slot.val = true) (hpc : slot ≠ Register.pc.slot) :
    ∃ r ∈ i.results site before newPredicates, r.register.slot = slot ∧
      ∀ x y, r.apply x = r.apply y := by
  have hne : slot.val ≠ Register.pc.slot.val := fun heq => hpc (Fin.ext heq)
  cases i with
  | predicatedAdd rd rs rt pu invert dotNew => cases dotNew <;> simp [footprint] at h
  | loopSetup which rs offset =>
    simp only [footprint, Footprint.written_withWrite, Footprint.written_none,
      RegisterSet.hasSlot_insert, RegisterSet.hasSlot_empty, Bool.false_or, Bool.or_eq_true,
      decide_eq_true_eq] at h
    rcases h with h | h
    · exact ⟨_, List.mem_cons_self, Fin.ext h.symm, fun _ _ => rfl⟩
    · exact ⟨_, List.mem_cons_of_mem _ List.mem_cons_self, Fin.ext h.symm, fun _ _ => rfl⟩
  | _ =>
    simp [footprint, hne] at h
    try exact ⟨_, List.mem_cons_self, Fin.ext h.symm, fun _ _ => rfl⟩

theorem target?_eq_none (h : i.footprint.writes.contains .pc = false) :
    i.target? site before = none := by
  cases i <;> first | rfl | simp [footprint, Footprint.writes, RegisterSet.contains] at h

/-- Comparisons write the predicates under a predicate, and no other instruction writes them. -/
theorem contains_p (i : Instruction) : i.footprint.conditional.contains .p = i.isCompare ∧
    i.footprint.writes.contains .p = i.isCompare := by
  have hgeneral (n : Byte) : Register.p.slot.val ≠ (Register.general n).slot.val := fun heq =>
    Register.slot_general_ne_p n (Fin.ext heq.symm)
  cases i with
  | predicatedAdd rd rs rt pu invert dotNew =>
    cases dotNew <;>
      simp [footprint, Footprint.writes, RegisterSet.contains, isCompare, hgeneral]
  | loopSetup which rs offset =>
    have hslots := slot_loopRegisters which
    simp_all [footprint, Footprint.writes, RegisterSet.contains, isCompare, Fin.val_inj, eq_comm]
  | call offset =>
    simp [footprint, Footprint.writes, RegisterSet.contains, isCompare, hgeneral, Register.lr,
      Fin.val_inj]
  | _ =>
    simp [footprint, Footprint.writes, RegisterSet.contains, isCompare, hgeneral, Fin.val_inj]

/-- Only an instruction that tests new predicates depends on them. -/
theorem results_of_not_isDotNew (h : i.isDotNew = false) (newPredicates' : Word) :
    i.results site before newPredicates = i.results site before newPredicates' := by
  cases i <;> simp_all [results, isDotNew]

theorem of_isDotNew (h : i.isDotNew = true) :
    i.isCompare = false ∧ (∀ site before, i.target? site before = none) ∧ i.trap? = none := by
  cases i <;> simp_all [isDotNew, isCompare, target?, trap?]

/-- The results of an instruction for the predicates. -/
theorem applyAll_results_p (i : Instruction) (site : Site) (before : RegisterFile)
    (newPredicates predicates : Word) :
    Result.applyAll (i.results site before newPredicates) Register.p.slot predicates =
      i.setPredicate before predicates := by
  cases hi : i.isCompare with
  | true => cases i <;> first | rfl | cases hi
  | false =>
    rw [Result.applyAll_of_ne fun r hr => (slot_of_mem_results hr).2 hi]
    cases i <;> first | rfl | cases hi

/-- **No result depends on the program counter.** -/
theorem results_update_pc (i : Instruction) (site : Site) (before : RegisterFile)
    (newPredicates x : Word) :
    i.results site (Function.update before Register.pc.slot x) newPredicates =
      i.results site before newPredicates := by
  cases i <;> simp [results, setPredicate]

theorem target?_update_pc (i : Instruction) (site : Site) (before : RegisterFile) (x : Word) :
    i.target? site (Function.update before Register.pc.slot x) = i.target? site before := by
  cases i <;> simp [target?]

section Congr

variable {before before' : RegisterFile}
  (h : ∀ slot, slot ≠ Register.pc.slot → before slot = before' slot)

include h

theorem results_congr (i : Instruction) (site : Site) (newPredicates : Word) :
    i.results site before newPredicates = i.results site before' newPredicates := by
  rw [Function.eq_update_iff.mpr ⟨rfl, h⟩, results_update_pc]

theorem target?_congr (i : Instruction) (site : Site) :
    i.target? site before = i.target? site before' := by
  rw [Function.eq_update_iff.mpr ⟨rfl, h⟩, target?_update_pc]

end Congr

end Instruction

end PacketLift

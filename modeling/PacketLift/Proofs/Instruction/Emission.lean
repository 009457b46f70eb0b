import PacketLift.Proofs.Block.Parts
import PacketLift.Proofs.Packet.Meaning

/-!
# What instructions of the scalar core emit

Each instruction appends a fixed list of operations, which depends on its place and on the number
of the next local alone; its footprint depends on neither. So the scalar core only appends, and
what lifting an instruction leaves is known from its bits.

## Main definitions

* `Instruction.lowered`, `Instruction.locals`: operations and number of locals of an instruction

## Main results

* `Instruction.emits_lower`: lowering emits these operations
* `onlyAppends_scalarCore`
* `Part.Executed.eq_lowered`: a part of the scalar core has these operations
-/

namespace PacketLift

namespace Instruction

/-- How many locals an instruction takes. -/
def locals : Instruction → Nat
  | compareEqual _ _ _ => 2
  | predicatedAdd _ _ _ _ _ _ => 3
  | jumpIf _ _ _ => 4
  | trap _ => 1
  | _ => 0

/-- The operations that put the lowest bit of a predicate into `bit`. -/
def predicateBitOps (bit source : TempId) (predicate : Byte) : List MicroOp :=
  [.binaryImm .shr bit source (8 * (predicate &&& 3).setWidth 32), .binaryImm .and bit bit 1]

/-- **The operations of an instruction**, with locals from `n` on. -/
def lowered (site : Site) (n : TempId) : Instruction → List MicroOp
  | nop => []
  | unknown _ => []
  | setImmediate rd imm => [.set (Global.staged (.general rd)) (site.extendSigned imm 16)]
  | copy rd rs => [.copy (Global.staged (.general rd)) (source rs)]
  | subCopy rd rs => [.copy (Global.staged (.general rd)) (source rs)]
  | add rd rs rt => [.binary .add (Global.staged (.general rd)) (source rs) (source rt)]
  | sub rd rt rs => [.binary .sub (Global.staged (.general rd)) (source rt) (source rs)]
  | addImmediate rd rs imm =>
    [.binaryImm .add (Global.staged (.general rd)) (source rs) (site.extendSigned imm 16)]
  | subAddImmediate rx imm =>
    [.binaryImm .add (Global.staged (.general rx)) (source rx) (imm.signExtend 7)]
  | subSetImmediate rd imm => [.set (Global.staged (.general rd)) (site.extendUnsigned imm)]
  | subIncrement rd rs => [.binaryImm .add (Global.staged (.general rd)) (source rs) 1]
  | compareEqual pd rs rt =>
    [.compare .eq n (source rs) (source rt), .set (n + 1) 0, .binary .sub n (n + 1) n,
      .binaryImm .and n n (laneMask pd),
      .binaryImm .and (Global.staged .p) (Global.staged .p) (~~~laneMask pd),
      .binary .or (Global.staged .p) (Global.staged .p) n]
  | predicatedAdd rd rs rt pu invert dotNew =>
    predicateBitOps n (if dotNew then Global.staged .p else Global.live .p) pu ++
      [.binary .add (n + 1) (source rs) (source rt), .set (n + 2) 0,
        .select (predicateCondition invert) (Global.staged (.general rd)) n (n + 2) (n + 1)
          (Global.staged (.general rd))]
  | jump offset => [.set Global.pc (site.branchTarget offset 22), .set Global.pcWritten 1]
  | call offset =>
    [.set (Global.staged .lr) site.nextPc, .set Global.pc (site.branchTarget offset 22),
      .set Global.pcWritten 1]
  | jumpRegister rs => [.copy Global.pc (source rs), .set Global.pcWritten 1]
  | jumpIf pu invert offset =>
    predicateBitOps n (Global.live .p) pu ++
      [.set (n + 1) 0, .set (n + 2) 1, .set (n + 3) (site.branchTarget offset 15),
        .select (predicateCondition invert) Global.pc n (n + 1) (n + 3) Global.pc,
        .select (predicateCondition invert) Global.pcWritten n (n + 1) (n + 2) Global.pcWritten]
  | loopSetup which rs offset =>
    [.set (Global.staged (loopRegisters which).1) (site.branchTarget offset 7),
      .copy (Global.staged (loopRegisters which).2) (source rs)]
  | trap number => [.set n (number.setWidth 32), .callTrap [n]]

/-! ## Lowering -/

theorem emits_stage (rd : Byte) (op : TempId → MicroOp) (n : TempId) :
    Emits (stage rd op) n (Footprint.none.withWrite (.general rd))
      [op (Global.staged (.general rd))] 0 :=
  .bind (.emit _ n) (.pure _ n) rfl rfl rfl

theorem emits_predicateBit (source : TempId) (predicate : Byte) (n : TempId) :
    Emits (predicateBit source predicate) n n (predicateBitOps n source predicate) 1 :=
  .bind (.freshTemp n) (.bind (.emit _ _) (.bind (.emit _ _) (.pure n _) rfl rfl rfl)
    rfl rfl rfl) rfl rfl rfl

theorem emits_branchTo (target : Word) (n : TempId) :
    Emits (branchTo target) n () [.set Global.pc target, .set Global.pcWritten 1] 0 :=
  .bind (.emit _ n) (.emit _ n) rfl rfl rfl

/-- **Lowering an instruction emits its operations.** -/
theorem emits_lower (i : Instruction) (site : Site) (n : TempId) :
    Emits (i.lower site) n i.footprint (i.lowered site n) i.locals := by
  cases i with
  | nop => exact .pure _ n
  | unknown word => exact .pure _ n
  | setImmediate rd imm => exact emits_stage rd (.set · (site.extendSigned imm 16)) n
  | copy rd rs => exact emits_stage rd (.copy · (source rs)) n
  | subCopy rd rs => exact emits_stage rd (.copy · (source rs)) n
  | add rd rs rt => exact emits_stage rd (.binary .add · (source rs) (source rt)) n
  | sub rd rt rs => exact emits_stage rd (.binary .sub · (source rt) (source rs)) n
  | addImmediate rd rs imm =>
    exact emits_stage rd (.binaryImm .add · (source rs) (site.extendSigned imm 16)) n
  | subAddImmediate rx imm =>
    exact emits_stage rx (.binaryImm .add · (source rx) (imm.signExtend 7)) n
  | subSetImmediate rd imm => exact emits_stage rd (.set · (site.extendUnsigned imm)) n
  | subIncrement rd rs => exact emits_stage rd (.binaryImm .add · (source rs) 1) n
  | compareEqual pd rs rt =>
    exact .bind (.freshTemp n) (.bind (.emit _ _) (.bind (.constant 0 (n + 1)) (.bind (.emit _ _)
      (.bind (.emit _ _) (.bind (.emit _ _) (.bind (.emit _ _) (.pure _ _) rfl rfl rfl)
        rfl rfl rfl) rfl rfl rfl) rfl rfl rfl) rfl rfl rfl) rfl rfl rfl) rfl rfl rfl
  | predicatedAdd rd rs rt pu invert dotNew =>
    exact .bind (emits_predicateBit _ pu n) (.bind (.freshTemp (n + 1)) (.bind (.emit _ _)
      (.bind (.constant 0 (n + 2)) (.bind (.emit _ _) (.pure _ _) rfl rfl rfl)
        rfl rfl rfl) rfl rfl rfl) rfl rfl rfl) rfl rfl rfl
  | jump offset => exact .bind (emits_branchTo _ n) (.pure _ n) rfl rfl rfl
  | call offset =>
    exact .bind (.emit _ n) (.bind (emits_branchTo _ n) (.pure _ n) rfl rfl rfl) rfl rfl rfl
  | jumpRegister rs =>
    exact .bind (.emit _ n) (.bind (.emit _ n) (.pure _ n) rfl rfl rfl) rfl rfl rfl
  | jumpIf pu invert offset =>
    exact .bind (emits_predicateBit _ pu n) (.bind (.constant 0 (n + 1)) (.bind
      (.constant 1 (n + 2)) (.bind (.constant _ (n + 3)) (.bind (.emit _ _) (.bind (.emit _ _)
        (.pure _ _) rfl rfl rfl) rfl rfl rfl) rfl rfl rfl) rfl rfl rfl) rfl rfl rfl) rfl rfl rfl
  | loopSetup which rs offset =>
    show Emits (do
      emit (.set (Global.staged (loopRegisters which).1) (site.branchTarget offset 7))
      emit (.copy (Global.staged (loopRegisters which).2) (source rs))
      return (Footprint.none.withWrite (loopRegisters which).1).withWrite
        (loopRegisters which).2) n _ _ _
    exact .bind (.emit _ n) (.bind (.emit _ n) (.pure _ n) rfl rfl rfl) rfl rfl rfl
  | trap number =>
    exact .bind (.constant _ n) (.bind (.emit _ _) (.pure _ _) rfl rfl rfl) rfl rfl rfl

theorem isInner_of_mem_lowered {i : Instruction} {site : Site} {n : TempId} {op : MicroOp}
    (h : op ∈ i.lowered site n) : op.isInner = true := by
  have hall : (i.lowered site n).all MicroOp.isInner = true := by cases i <;> rfl
  exact List.all_eq_true.mp hall op h

theorem listing_execute (i : Instruction) (site : Site) (l : Listing) (unknowns : Nat) :
    (i.execute site l unknowns).listing =
      l.extend (i.lowered site l.tempCount) (List.replicate i.locals .scratch) := by
  rw [execute, i.emits_lower site l.tempCount l rfl]

theorem footprint_execute (i : Instruction) (site : Site) (l : Listing) (unknowns : Nat) :
    (i.execute site l unknowns).footprint = i.footprint := by
  rw [execute, i.emits_lower site l.tempCount l rfl]

end Instruction

/-- **The scalar core only appends.** -/
theorem onlyAppends_scalarCore : scalarCore.OnlyAppends := by
  intro i site l s
  exact ⟨_, _, Instruction.listing_execute i site l s, fun _ => Instruction.isInner_of_mem_lowered⟩

/-- **A part of the scalar core** is what its bits say. -/
theorem Part.Executed.eq_lowered {p : Part scalarCore} {packetPc nextPc : Word}
    {done : List MicroOp} {temps : Array Temp} {writes : RegisterSet}
    (h : p.Executed packetPc nextPc done temps writes) :
    p.insn = p.place.instruction ∧ p.footprint = p.place.instruction.footprint ∧
      p.body = p.place.instruction.lowered
        (p.place.site packetPc nextPc (writes.contains .p)) temps.size ∧
      p.temps = List.replicate p.place.instruction.locals .scratch := by
  obtain ⟨s, hdecoded⟩ := h.decoded
  obtain ⟨l, t, -, rfl, hfoot, hlisting⟩ := h.executed
  have hinsn : p.insn = p.place.instruction := by
    rw [← hdecoded, Place.instruction]
    cases p.place.code <;> rfl
  rw [← hinsn]
  have hfoot' := Instruction.footprint_execute p.insn
    (p.place.site packetPc nextPc (writes.contains .p)) l t
  have hlisting' := Instruction.listing_execute p.insn
    (p.place.site packetPc nextPc (writes.contains .p)) l t
  obtain ⟨hbody, htemps⟩ := Listing.extend_inj (hlisting.symm.trans hlisting')
  exact ⟨rfl, hfoot.symm.trans hfoot', hbody, htemps⟩

end PacketLift

import PacketLift.Instruction.Form
import PacketLift.InstructionSet
import PacketLift.Machine.Globals

/-!
# Instructions as micro-operations

What each instruction becomes. Results go to staging words; operands come from the live words,
except for a predicate that the packet itself produces. Branches write the program counter at once
and raise the flag of a taken branch.

## Main definitions

* `Instruction.lower`: the operations and the footprint of an instruction
* `scalarCore`: the instruction set made of `Instruction.decode` and `Instruction.lower`
-/

namespace PacketLift

namespace Instruction

/-- The lowest bit of a predicate, in a fresh temporary. -/
def predicateBit (source : TempId) (predicate : Byte) : Emit TempId := do
  let bit ← freshTemp
  emit (.binaryImm .shr bit source (8 * (predicate &&& 3).setWidth 32))
  emit (.binaryImm .and bit bit 1)
  return bit

/-- The comparison of a predicate's bit with zero under which an instruction takes effect. -/
def predicateCondition (invert : Bool) : Condition := if invert then .eq else .ne

/-- The bits of a predicate in the predicate register. -/
def laneMask (predicate : Byte) : Word := 0xFF <<< (8 * (predicate &&& 3).toNat)

/-- A general register's result, by one operation on its staging word. -/
def stage (rd : Byte) (op : TempId → MicroOp) : Emit Footprint := do
  emit (op (Global.staged (.general rd)))
  return Footprint.none.withWrite (.general rd)

/-- The live word of a general register. -/
def source (number : Byte) : TempId := Global.live (.general number)

/-- Set the program counter to a known address and raise the flag of a taken branch. -/
def branchTo (target : Word) : Emit Unit := do
  emit (.set Global.pc target)
  emit (.set Global.pcWritten 1)

/-- **What an instruction becomes.** -/
def lower (site : Site) : Instruction → Emit Footprint
  | nop => return .none
  | unknown _ => return .none
  | setImmediate rd imm => stage rd (.set · (site.extendSigned imm 16))
  | copy rd rs => stage rd (.copy · (source rs))
  | subCopy rd rs => stage rd (.copy · (source rs))
  | add rd rs rt => stage rd (.binary .add · (source rs) (source rt))
  | sub rd rt rs => stage rd (.binary .sub · (source rt) (source rs))
  | addImmediate rd rs imm =>
    stage rd (.binaryImm .add · (source rs) (site.extendSigned imm 16))
  | subAddImmediate rx imm => stage rx (.binaryImm .add · (source rx) (imm.signExtend 7))
  | subSetImmediate rd imm => stage rd (.set · (site.extendUnsigned imm))
  | subIncrement rd rs => stage rd (.binaryImm .add · (source rs) 1)
  | compareEqual pd rs rt => do
    let lane ← freshTemp
    emit (.compare .eq lane (source rs) (source rt))
    let blank ← constant 0
    emit (.binary .sub lane blank lane)
    emit (.binaryImm .and lane lane (laneMask pd))
    let result := Global.staged .p
    emit (.binaryImm .and result result (~~~laneMask pd))
    emit (.binary .or result result lane)
    return (Footprint.none.withRead .p).withConditional .p
  | predicatedAdd rd rs rt pu invert dotNew => do
    let bit ← predicateBit (if dotNew then Global.staged .p else Global.live .p) pu
    let sum ← freshTemp
    emit (.binary .add sum (source rs) (source rt))
    let blank ← constant 0
    let result := Global.staged (.general rd)
    emit (.select (predicateCondition invert) result bit blank sum result)
    let footprint := Footprint.none.withConditional (.general rd)
    return if dotNew then footprint.withRead .p else footprint
  | jump offset => do
    branchTo (site.branchTarget offset 22)
    return Footprint.none.withWrite .pc
  | call offset => do
    emit (.set (Global.staged .lr) site.nextPc)
    branchTo (site.branchTarget offset 22)
    return (Footprint.none.withWrite .lr).withWrite .pc
  | jumpRegister rs => do
    emit (.copy Global.pc (source rs))
    emit (.set Global.pcWritten 1)
    return Footprint.none.withWrite .pc
  | jumpIf pu invert offset => do
    let bit ← predicateBit (Global.live .p) pu
    let blank ← constant 0
    let one ← constant 1
    let target ← constant (site.branchTarget offset 15)
    let cond := predicateCondition invert
    emit (.select cond Global.pc bit blank target Global.pc)
    emit (.select cond Global.pcWritten bit blank one Global.pcWritten)
    return Footprint.none.withConditional .pc
  | loopSetup which rs offset => do
    let (start, count) := if which = 0 then (Register.sa0, .lc0) else (Register.sa1, .lc1)
    emit (.set (Global.staged start) (site.branchTarget offset 7))
    emit (.copy (Global.staged count) (source rs))
    return (Footprint.none.withWrite start).withWrite count
  | trap number => do
    let argument ← constant (number.setWidth 32)
    emit (.callTrap [argument])
    return .none

/-- The messages about an instruction that is lifted. -/
def messages (i : Instruction) (site : Site) : List Message :=
  ⟨.trace, Text.address site.pc.toNat ++ ": " ++ i.mnemonic ++ " " ++ i.text⟩
    :: match i with
      | unknown word =>
        [⟨.debug,
          Text.address site.pc.toNat ++ ": unsupported encoding " ++ Text.hex8 word.toNat
            ++ ", skipped"⟩]
      | _ => []

/-- Lift one instruction, given how many words were not understood so far. -/
def execute (i : Instruction) (site : Site) (l : Listing) (unknowns : Nat) : Execution Nat :=
  let (footprint, listing) := (i.lower site).run l
  { footprint, listing
    state := if i.isUnknown then unknowns + 1 else unknowns
    messages := i.messages site }

end Instruction

/-- **The instructions of the scalar core.** Its state counts the words that were not
understood. -/
def scalarCore : InstructionSet where
  Insn := Instruction
  State := Nat
  decode w n := (.decode w, n)
  decodeSub s n := (.decodeSub s.bits s.group, n)
  execute := Instruction.execute

end PacketLift

import PacketLift.Text.Record
import PacketLift.Word.Field

/-!
# Instructions

The instructions that the library understands, with register numbers and immediates as they stand
in the word. Immediates are not yet widened, since an extender may supply their upper bits.

## Main definitions

* `Instruction`: one instruction, or the word that was not understood
* `Instruction.mnemonic`, `Instruction.text`: its name and its form in messages
-/

namespace PacketLift

/-- **A decoded instruction.** -/
inductive Instruction where
  /-- Nothing. -/
  | nop
  /-- `Rd = #s16` -/
  | setImmediate (rd : Byte) (imm : Word)
  /-- `Rd = Rs` -/
  | copy (rd rs : Byte)
  /-- `Rd = add(Rs, Rt)` -/
  | add (rd rs rt : Byte)
  /-- `Rd = sub(Rt, Rs)` -/
  | sub (rd rt rs : Byte)
  /-- `Rd = add(Rs, #s16)` -/
  | addImmediate (rd rs : Byte) (imm : Word)
  /-- `Pd = cmp.eq(Rs, Rt)` -/
  | compareEqual (pd rs rt : Byte)
  /-- `if ([!]Pu[.new]) Rd = add(Rs, Rt)` -/
  | predicatedAdd (rd rs rt pu : Byte) (invert dotNew : Bool)
  /-- `jump #r22:2` -/
  | jump (offset : Word)
  /-- `call #r22:2` -/
  | call (offset : Word)
  /-- `jumpr Rs` -/
  | jumpRegister (rs : Byte)
  /-- `if ([!]Pu) jump #r15:2` -/
  | jumpIf (pu : Byte) (invert : Bool) (offset : Word)
  /-- `loop0(#r7:2, Rs)` for `which = 0`, `loop1(#r7:2, Rs)` otherwise -/
  | loopSetup (which rs : Byte) (offset : Word)
  /-- `trap0(#u8)` -/
  | trap (number : Byte)
  /-- `Rx = add(Rx, #s7)` in a duplex -/
  | subAddImmediate (rx : Byte) (imm : Word)
  /-- `Rd = #u6` in a duplex -/
  | subSetImmediate (rd : Byte) (imm : Word)
  /-- `Rd = Rs` in a duplex -/
  | subCopy (rd rs : Byte)
  /-- `Rd = add(Rs, #1)` in a duplex -/
  | subIncrement (rd rs : Byte)
  /-- A word that is none of the above. It does nothing. -/
  | unknown (word : Word)
  deriving DecidableEq, Repr

namespace Instruction

/-- Whether the word was not understood. -/
def isUnknown : Instruction → Bool
  | unknown _ => true
  | _ => false

/-- The architecture's name of the instruction. -/
def mnemonic : Instruction → String
  | nop => "nop"
  | setImmediate .. => "A2_tfrsi"
  | copy .. => "A2_tfr"
  | add .. => "A2_add"
  | sub .. => "A2_sub"
  | addImmediate .. => "A2_addi"
  | compareEqual .. => "C2_cmpeq"
  | predicatedAdd .. => "A2_padd"
  | jump .. => "J2_jump"
  | call .. => "J2_call"
  | jumpRegister .. => "J2_jumpr"
  | jumpIf .. => "J2_jumpt"
  | loopSetup which _ _ => if which = 0 then "J2_loop0r" else "J2_loop1r"
  | trap .. => "J2_trap0"
  | subAddImmediate .. => "SA1_addi"
  | subSetImmediate .. => "SA1_seti"
  | subCopy .. => "SA1_tfr"
  | subIncrement .. => "SA1_inc"
  | unknown .. => "unknown"

/-- A number as a part of an instruction's text. -/
private def operand {n : Nat} (label : String) (value : BitVec n) : String × String :=
  (label, toString value.toNat)

/-- The instruction with its named operands, as messages show it. -/
def text : Instruction → String
  | nop => "Nop"
  | setImmediate rd imm => Text.record "Tfrsi" [operand "rd" rd, operand "imm" imm]
  | copy rd rs => Text.record "Tfr" [operand "rd" rd, operand "rs" rs]
  | add rd rs rt => Text.record "Add" [operand "rd" rd, operand "rs" rs, operand "rt" rt]
  | sub rd rt rs => Text.record "Sub" [operand "rd" rd, operand "rt" rt, operand "rs" rs]
  | addImmediate rd rs imm =>
    Text.record "Addi" [operand "rd" rd, operand "rs" rs, operand "imm" imm]
  | compareEqual pd rs rt =>
    Text.record "CmpEq" [operand "pd" pd, operand "rs" rs, operand "rt" rt]
  | predicatedAdd rd rs rt pu invert dotNew =>
    Text.record "PredAdd"
      [operand "rd" rd, operand "rs" rs, operand "rt" rt, operand "pu" pu,
        ("invert", Text.truth invert), ("dot_new", Text.truth dotNew)]
  | jump offset => Text.record "Jump" [operand "offset" offset]
  | call offset => Text.record "Call" [operand "offset" offset]
  | jumpRegister rs => Text.record "JumpR" [operand "rs" rs]
  | jumpIf pu invert offset =>
    Text.record "JumpT"
      [operand "pu" pu, ("invert", Text.truth invert), operand "offset" offset]
  | loopSetup which rs offset =>
    Text.record "LoopR" [operand "which" which, operand "rs" rs, operand "offset" offset]
  | trap number => Text.record "Trap0" [operand "imm" number]
  | subAddImmediate rx imm => Text.record "SubAddi" [operand "rx" rx, operand "imm" imm]
  | subSetImmediate rd imm => Text.record "SubSeti" [operand "rd" rd, operand "imm" imm]
  | subCopy rd rs => Text.record "SubTfr" [operand "rd" rd, operand "rs" rs]
  | subIncrement rd rs => Text.record "SubInc" [operand "rd" rd, operand "rs" rs]
  | unknown word => Text.record "Unknown" [operand "word" word]

end Instruction

end PacketLift

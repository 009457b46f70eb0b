import PacketLift.Instruction.Basic
import PacketLift.Word.Duplex

/-!
# Instruction forms

A form is one way to write an instruction in a word: the bits that are fixed, and where the
operands stand. Decoding looks for the form whose fixed bits agree and reads its operands. The two
role bits 15:14 are fixed in no form.

## Main definitions

* `Pattern`: fixed bits of a word
* `Form`, `Form.pattern`, `Form.read`: full-size instructions
* `SubForm`, `SubForm.pattern`, `SubForm.read`: the sub-instructions of group A
* `Instruction.decode w`, `Instruction.decodeSub bits group`
-/

namespace PacketLift

/-- Fixed bits of a word: those of `mask` read as `value`. -/
structure Pattern where
  mask : Word
  value : Word
  deriving DecidableEq, Repr

/-- Whether the fixed bits of `p` are found in `w`. -/
def Pattern.accepts (p : Pattern) (w : Word) : Bool := w &&& p.mask == p.value

/-- **The full-size instruction forms.** -/
inductive Form where
  | nop
  | setImmediate
  | copy
  | add
  | sub
  | addImmediate
  | compareEqual
  | predicatedAdd
  | jump
  | call
  | jumpRegister
  | jumpIf
  | loop0
  | loop1
  | trap
  deriving DecidableEq, Repr

namespace Form

/-- All forms. -/
def all : List Form :=
  [nop, setImmediate, copy, add, sub, addImmediate, compareEqual, predicatedAdd, jump, call,
    jumpRegister, jumpIf, loop0, loop1, trap]

/-- The fixed bits of a form. -/
def pattern : Form → Pattern
  | nop => ⟨0xFF000000, 0x7F000000⟩
  | setImmediate => ⟨0xFF200000, 0x78200000⟩
  | copy => ⟨0xFFE02000, 0x70600000⟩
  | add => ⟨0xFFE02000, 0xF3000000⟩
  | sub => ⟨0xFFE02000, 0xF3200000⟩
  | addImmediate => ⟨0xF0000000, 0xB0000000⟩
  | compareEqual => ⟨0xFF60001C, 0xF2000000⟩
  | predicatedAdd => ⟨0xFFA00000, 0xFB000000⟩
  | jump => ⟨0xFE000000, 0x58000000⟩
  | call => ⟨0xFE000000, 0x5A000000⟩
  | jumpRegister => ⟨0xFFE00000, 0x52800000⟩
  | jumpIf => ⟨0xFF000800, 0x5C000000⟩
  | loop0 => ⟨0xFFE00000, 0x60000000⟩
  | loop1 => ⟨0xFFE00000, 0x60200000⟩
  | trap => ⟨0xFFC00000, 0x54000000⟩

/-- The target register field. -/
def rd (w : Word) : Byte := (w.field 0 4).lowByte

/-- The first source register field. -/
def rs (w : Word) : Byte := (w.field 16 20).lowByte

/-- The second source register field. -/
def rt (w : Word) : Byte := (w.field 8 12).lowByte

/-- The instruction that `w` holds when it is of the given form. -/
def read (w : Word) : Form → Instruction
  | nop => .nop
  | setImmediate =>
    .setImmediate (rd w) ((w.field 22 23 <<< 14) ||| (w.field 16 20 <<< 9) ||| w.field 5 13)
  | copy => .copy (rd w) (rs w)
  | add => .add (rd w) (rs w) (rt w)
  | sub => .sub (rd w) (rt w) (rs w)
  | addImmediate => .addImmediate (rd w) (rs w) (w.fields 5 13 21 27)
  | compareEqual => .compareEqual (w.field 0 1).lowByte (rs w) (rt w)
  | predicatedAdd =>
    .predicatedAdd (rd w) (rs w) (rt w) (w.field 5 6).lowByte (w.flag 7) (w.flag 13)
  | jump => .jump (w.fields 1 13 16 24)
  | call => .call (w.fields 1 13 16 24)
  | jumpRegister => .jumpRegister (rs w)
  | jumpIf =>
    .jumpIf (w.field 8 9).lowByte (w.flag 21)
      ((w.field 22 23 <<< 13) ||| (w.field 16 20 <<< 8) ||| (w.field 13 13 <<< 7) ||| w.field 1 7)
  | loop0 => .loopSetup (w.field 21 21).lowByte (rs w) (w.fields 3 4 8 12)
  | loop1 => .loopSetup (w.field 21 21).lowByte (rs w) (w.fields 3 4 8 12)
  | trap => .trap (w.fields 2 4 8 12).lowByte

end Form

/-- **The sub-instruction forms of group A.** -/
inductive SubForm where
  | addImmediate
  | setImmediate
  | copy
  | increment
  deriving DecidableEq, Repr

namespace SubForm

/-- All forms of group A. -/
def all : List SubForm := [addImmediate, setImmediate, copy, increment]

/-- The fixed bits of a form, among the 13 payload bits. -/
def pattern : SubForm → Pattern
  | addImmediate => ⟨0x1800, 0x0000⟩
  | setImmediate => ⟨0x1C00, 0x0800⟩
  | copy => ⟨0x1F00, 0x1000⟩
  | increment => ⟨0x1F00, 0x1100⟩

/-- The register named by a four-bit field: `r0` to `r7`, then `r16` to `r23`. -/
def register (v : Word) : Byte :=
  let number := (v &&& 0xF).lowByte
  if number < 8 then number else number + 8

/-- The instruction that the payload bits `w` hold when they are of the given form. -/
def read (w : Word) : SubForm → Instruction
  | addImmediate => .subAddImmediate (register (w.field 0 3)) (w.field 4 10)
  | setImmediate => .subSetImmediate (register (w.field 0 3)) (w.field 4 9)
  | copy => .subCopy (register (w.field 0 3)) (register (w.field 4 7))
  | increment => .subIncrement (register (w.field 0 3)) (register (w.field 4 7))

end SubForm

namespace Instruction

/-- **The instruction in a full-size word.** -/
def decode (w : Word) : Instruction :=
  match Form.all.find? (·.pattern.accepts w) with
  | some form => form.read w
  | none => unknown w

/-- The 13 bits of a sub-instruction without its group's number. -/
def payload (bits : Word) : Word := bits &&& 0x1FFF

/-- **The instruction in one half of a duplex word.** Only group A is understood. -/
def decodeSub (bits : Word) : Group → Instruction
  | .a =>
    match SubForm.all.find? (·.pattern.accepts (payload bits)) with
    | some form => form.read (payload bits)
    | none => unknown bits
  | _ => unknown bits

end Instruction

end PacketLift
